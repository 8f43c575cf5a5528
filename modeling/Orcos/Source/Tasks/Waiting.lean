import Orcos.Source.SingleCPUDispatcher
import Mathlib.Data.BitVec

/-!
# Waiting for threads and tasks

Source: src/source/syscalls/sc_process.cc, `sc_thread_wait`, `sc_task_kill`;
src/source/process/TaskManager.cc, `getTask`, `terminateThread`, `removeTask`;
src/source/process/Task.cc, `terminate`, `removeThread`; src/source/inc/signals.hh.

The kernel with the tasks, which are known by their ids. What `removeTask` and `removeThread`
do to memory and resources is modelled elsewhere. Each call is one step: it is taken that no
thread ends between the `getTask` and the `sigwait` of a wait, or within a `removeTask`.
-/
namespace Orcos.Source.Tasks

/-- `SIGNAL_SPACE_TASK`. -/
def signalSpaceTask (x : Nat) : Nat := (x &&& 0xff) <<< 16

def sigTaskTerminated : Nat := 0

def sigChildTerminated : Nat := 1

structure Processes (τ : Type) where
  kernel : Kernel τ
  taskDatabase : List Nat
  threadDb : Nat → List τ
  exitValue : Nat → Int

namespace Processes

variable {τ : Type} [DecidableEq τ]

section Operations

variable (cfg : SchedulerCfd) (fuel : Nat) (s : Processes τ)

/-- `sc_thread_wait` of the running thread; without an answer while it waits. -/
def threadWait (t : τ) (pid threadid : BitVec 32) : Processes τ × Option Int :=
  let own := signalSpaceTask (s.kernel.threads t).owner
  if pid = 0 then
    let signal :=
      if threadid = 0 then own ||| sigChildTerminated
      else own ||| sigChildTerminated ||| (threadid <<< 8).toNat
    ({ s with kernel := s.kernel.sigwait .generic t signal }, none)
  else if pid.toNat ∈ s.taskDatabase then
    let signal := signalSpaceTask pid.toNat ||| sigTaskTerminated
    ({ s with kernel := s.kernel.sigwait .generic t signal }, none)
  else (s, some cInvalidArgument)

/-- `Task::removeThread`. -/
def removeThread (task : Nat) (t : τ) : Processes τ :=
  { s with threadDb := Function.update s.threadDb task ((s.threadDb task).erase t) }

/-- The body of the loop of `Task::terminate`. -/
def endThread (task : Nat) (t : τ) : Option (Processes τ) :=
  (s.kernel.terminate cfg fuel t).map fun kernel =>
    { s with kernel := kernel }.removeThread task t

/-- `Task::terminate`. -/
def terminate (task : Nat) : Option (Processes τ) :=
  (s.kernel.signal cfg fuel .generic (signalSpaceTask task ||| sigTaskTerminated)
    (s.exitValue task)).bind fun kernel =>
      (s.threadDb task).foldlM (fun s t => s.endThread cfg fuel task t) { s with kernel := kernel }

/-- `TaskManager::removeTask`. -/
def removeTask (task : Nat) : Option (Processes τ) :=
  (s.terminate cfg fuel task).map fun s =>
    { s with taskDatabase := s.taskDatabase.erase task }

/-- `TaskManager::terminateThread` after the thread was told. -/
def leaveTask (task : Nat) (t : τ) : Option (Processes τ) :=
  let s := s.removeThread task t
  (if (s.threadDb task).isEmpty then s.removeTask cfg fuel task else some s).map fun s =>
    { s with kernel := s.kernel.dispatcherTerminateThread t }

/-- `TaskManager::terminateThread`. When the running thread has put itself to sleep until its
next instance, the rest of the function is not reached. -/
def terminateThread (t : τ) : Option (Processes τ) :=
  (s.kernel.realTimeTerminate cfg fuel t).bind fun kernel =>
    if kernel.dispatching then some { s with kernel := kernel }
    else { s with kernel := kernel }.leaveTask cfg fuel (s.kernel.threads t).owner t

end Operations

/-- A call of the running thread, the end of a thread or task, or anything else that the
kernel does. -/
inductive Event (τ : Type)
  | threadWait (pid threadid : BitVec 32)
  | terminateThread (t : τ)
  | removeTask (task : Nat)
  | kernel (event : Kernel.Event τ)

def Event.isDispatch : Event τ → Bool
  | .kernel event => event.isDispatch
  | _ => false

def perform (cfg : SchedulerCfd) (fuel : Nat) (s : Processes τ) :
    Event τ → Option (Processes τ)
  | .threadWait pid threadid =>
    match s.kernel.running with
    | some t => some (s.threadWait t pid threadid).1
    | none => some s
  | .terminateThread t =>
    if t ∈ s.threadDb (s.kernel.threads t).owner then s.terminateThread cfg fuel t else some s
  | .removeTask task =>
    if task ∈ s.taskDatabase then s.removeTask cfg fuel task else some s
  | .kernel event => (s.kernel.perform cfg fuel event).map fun kernel => { s with kernel := kernel }

/-- One step; while a dispatch is due nothing else happens. -/
def step (cfg : SchedulerCfd) (fuel : Nat) (s : Processes τ) (event : Event τ) :
    Option (Processes τ) :=
  if s.kernel.dispatching && !event.isDispatch then some s else s.perform cfg fuel event

/-- Nothing was run yet. -/
def start (threads : τ → Thread) (taskDatabase : List Nat) (threadDb : Nat → List τ)
    (exitValue : Nat → Int) : Processes τ :=
  ⟨Kernel.start threads, taskDatabase, threadDb, exitValue⟩

end Processes

end Orcos.Source.Tasks
