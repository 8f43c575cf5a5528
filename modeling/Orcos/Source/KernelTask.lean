import Orcos.Source.ArrayList
import Orcos.Source.SingleCPUDispatcher

/-!
# The kernel task and its worker threads

Source: src/source/process/KernelTask.cc and KernelThread.cc.

A worker thread takes up a job when it is dispatched with its new flag set: `callMain` calls
`work`, which reads the job. Otherwise the context is restored in which it was left. The end of
`work`, after the call it makes for the job, is `finish`. What the calls do, the stack, names and
the device of an interrupt are left out. Pointers to objects, parameters and drivers are in `γ`,
and the clock shows `clockCycles` until it ticks.
-/
namespace Orcos.Source

/-- `TimedFunctionCall`. -/
structure TimedFunctionCall (γ : Type) where
  objectptr : γ
  time : Nat
  parameterptr : γ
  deriving DecidableEq

/-- `PeriodicFunctionCall`. -/
structure PeriodicFunctionCall (γ : Type) where
  functioncall : TimedFunctionCall γ
  period : Nat
  deriving DecidableEq

/-- `jobid` with what `param` holds for it. -/
inductive Job (γ : Type)
  | none
  | irq (driver : γ)
  | timedFunctionCall (timedCall : TimedFunctionCall γ)
  | periodicFunctionCall (periodicCall : PeriodicFunctionCall γ)
  deriving DecidableEq

/-- What `KernelThread::work` calls for a job. -/
inductive Work (γ : Type)
  | handleIRQ (driver : γ) (irq : Int)
  | callbackFunc (objectptr parameterptr : γ)
  deriving DecidableEq

/-- The kernel with the pool, and the members of the worker threads. -/
structure KernelTask (τ γ : Type) where
  kernel : Kernel τ
  nonWorkingThreads : ArrayList τ
  job : τ → Job γ
  pid : τ → Nat
  irq : τ → Int
  clockCycles : Nat

namespace KernelTask

variable {τ γ : Type} [DecidableEq τ]

def setJob (s : KernelTask τ γ) (t : τ) (job : Job γ) : KernelTask τ γ :=
  { s with job := Function.update s.job t job }

/-- `KernelTask::workFinished`. -/
def workFinished (s : KernelTask τ γ) (t : τ) : KernelTask τ γ :=
  { s with nonWorkingThreads := (s.nonWorkingThreads.addHead (some t)).1 }

section Constructor

/-- `computePriority` of the scheduler, on the members of a thread. -/
def computePriority (cfg : SchedulerCfd) (thread : Thread) : Thread :=
  match cfg with
  | .roundRobin _ => thread
  | .rateMonotonic => thread.computePriorityRM
  | .earliestDeadlineFirst => thread.computePriorityEDF

/-- A worker thread without attributes, which is added to the pool and blocked. -/
def addWorker (cfg : SchedulerCfd) (s : KernelTask τ γ) (t : τ) : KernelTask τ γ :=
  let thread := computePriority cfg (Thread.create 0 0 0 none)
  let s := s.workFinished t
  { s with kernel := (s.kernel.setThread t thread).block t }

/-- `KernelTask::KernelTask`, with the other threads that there will be. -/
def start (cfg : SchedulerCfd) (threads : τ → Thread) (workers : List τ) : KernelTask τ γ :=
  workers.foldl (addWorker cfg)
    { kernel := Kernel.start threads
      nonWorkingThreads := ArrayList.fresh workers.length
      job := fun _ => .none
      pid := fun _ => 0
      irq := fun _ => 0
      clockCycles := 0 }

end Constructor

section Assignments

/-- A thread taken out of the pool gets its members. -/
def assign (s : KernelTask τ γ) (pool : ArrayList τ) (t : τ) (job : Job γ) (pid : Nat)
    (thread : Thread) : KernelTask τ γ :=
  { s with
    kernel := s.kernel.setThread t thread
    nonWorkingThreads := pool
    job := Function.update s.job t job
    pid := Function.update s.pid t pid }

/-- `Thread::unblock` on a worker thread. -/
def unblock (cfg : SchedulerCfd) (fuel : Nat) (s : KernelTask τ γ) (t : τ) :
    Option (KernelTask τ γ) :=
  (s.kernel.unblock cfg fuel t).map fun kernel => { s with kernel := kernel }

/-- The members that `getPeriodicThread` sets for the scheduler. -/
def periodicThread (cfg : SchedulerCfd) (thread : Thread) (time period priority : Nat) : Thread :=
  let thread := { thread.setPriority priority priority with
    arrivalTime := time
    instanceNumber := 1
    relativeDeadline := 0 }
  let thread :=
    if priority = 0 then { computePriority cfg { thread with period := period } with period := 0 }
    else thread
  thread.setSleepTime time

/-- `KernelTask::getPeriodicThread`. -/
def getPeriodicThread (cfg : SchedulerCfd) (fuel : Nat) (s : KernelTask τ γ) (pid : Nat) (obj : γ)
    (offset period priority : Nat) (param : γ) : Option (KernelTask τ γ × Option τ) :=
  match s.nonWorkingThreads.removeHead with
  | (pool, some t) =>
    let now := s.clockCycles
    let thread := periodicThread cfg (s.kernel.threads t) ((now + offset) % 2 ^ 64) period priority
    ((s.assign pool t (.periodicFunctionCall ⟨⟨obj, now, param⟩, period⟩) pid thread).unblock
      cfg fuel t).map fun s => (s, some t)
  | (pool, none) => some ({ s with nonWorkingThreads := pool }, none)

/-- `KernelTask::getCallbackThread`. -/
def getCallbackThread (cfg : SchedulerCfd) (fuel : Nat) (s : KernelTask τ γ) (pid : Nat) (obj : γ)
    (delay priority : Nat) (param : γ) : Option (KernelTask τ γ × Option τ) :=
  match s.nonWorkingThreads.removeHead with
  | (pool, some t) =>
    let now := s.clockCycles
    let time := (now + delay) % 2 ^ 64
    let thread := { ((s.kernel.threads t).setSleepTime time).setPriority priority priority with
      arrivalTime := now
      period := 0
      instanceNumber := 1 }
    ((s.assign pool t (.timedFunctionCall ⟨obj, time, param⟩) pid thread).unblock cfg fuel t).map
      fun s => (s, some t)
  | (pool, none) => some ({ s with nonWorkingThreads := pool }, none)

/-- `KernelTask::getIRQThread`; the thread stays blocked. -/
def getIRQThread (s : KernelTask τ γ) (pid : Nat) (driver : γ) (irq : Int) (priority : Nat) :
    KernelTask τ γ × Option τ :=
  match s.nonWorkingThreads.removeHead with
  | (pool, some t) =>
    let thread := { ((s.kernel.threads t).setSleepTime 0).setPriority priority priority with
      arrivalTime := 0
      period := 0
      instanceNumber := 1 }
    ({ s.assign pool t (.irq driver) pid thread with irq := Function.update s.irq t irq }, some t)
  | (pool, none) => ({ s with nonWorkingThreads := pool }, none)

end Assignments

section KernelThread

/-- The call that `KernelThread::work` makes. -/
def work (s : KernelTask τ γ) (t : τ) : Option (Work γ) :=
  match s.job t with
  | .none => none
  | .irq driver => some (.handleIRQ driver (s.irq t))
  | .timedFunctionCall timedCall =>
    some (.callbackFunc timedCall.objectptr timedCall.parameterptr)
  | .periodicFunctionCall periodicCall =>
    some (.callbackFunc periodicCall.functioncall.objectptr periodicCall.functioncall.parameterptr)

/-- `KernelThread::stop`. -/
def stop (s : KernelTask τ γ) (t : τ) : KernelTask τ γ :=
  let s := (s.setJob t .none).workFinished t
  { s with kernel := s.kernel.block t }

/-- The call with the time of its next instance. -/
def nextCall (periodicCall : PeriodicFunctionCall γ) : PeriodicFunctionCall γ :=
  { periodicCall with functioncall := { periodicCall.functioncall with
      time := (periodicCall.functioncall.time + periodicCall.period) % 2 ^ 64 } }

/-- The end of `KernelThread::work`, after the call. -/
def finish (fuel : Nat) (s : KernelTask τ γ) (t : τ) : Option (KernelTask τ γ) :=
  let s := { s with kernel := s.kernel.setThread t ((s.kernel.threads t).setNew true) }
  match s.job t with
  | .periodicFunctionCall periodicCall =>
    let call := nextCall periodicCall
    let s := s.setJob t (.periodicFunctionCall call)
    let kernel := s.kernel.setThread t { s.kernel.threads t with
      instanceNumber := (s.kernel.threads t).instanceNumber + 1 }
    (kernel.sleep fuel t call.functioncall.time).map fun kernel => { s with kernel := kernel }
  | .irq _ => some { s with kernel := s.kernel.block t }
  | .none | .timedFunctionCall _ => some (s.stop t)

end KernelThread

/-- What can happen, in any order. `interrupt` is the `unblock` of an interrupt handler, `finish`
the end of the call that the thread that runs makes for its job; `thread` is an operation on
other threads, or one of a job. -/
inductive Op (τ γ : Type)
  | tick (cycles : Nat)
  | getPeriodicThread (pid : Nat) (obj : γ) (offset period priority : Nat) (param : γ)
  | getCallbackThread (pid : Nat) (obj : γ) (delay priority : Nat) (param : γ)
  | getIRQThread (pid : Nat) (driver : γ) (irq : Int) (priority : Nat)
  | stop (t : τ)
  | finish
  | interrupt (t : τ)
  | dispatch
  | thread (event : Kernel.Event τ)

/-- While a dispatch is due nothing else happens but that time passes. -/
def Op.waits : Op τ γ → Bool
  | .tick _ | .dispatch => false
  | _ => true

def perform (cfg : SchedulerCfd) (fuel : Nat) (worker : τ → Bool) (s : KernelTask τ γ) :
    Op τ γ → Option (KernelTask τ γ)
  | .tick cycles => some { s with clockCycles := s.clockCycles + cycles }
  | .getPeriodicThread pid obj offset period priority param =>
    (s.getPeriodicThread cfg fuel pid obj offset period priority param).map Prod.fst
  | .getCallbackThread pid obj delay priority param =>
    (s.getCallbackThread cfg fuel pid obj delay priority param).map Prod.fst
  | .getIRQThread pid driver irq priority => some (s.getIRQThread pid driver irq priority).1
  | .stop t => if worker t then some (s.stop t) else some s
  | .finish =>
    match s.kernel.running with
    | some t => if worker t then s.finish fuel t else some s
    | none => some s
  | .interrupt t => if worker t then s.unblock cfg fuel t else some s
  | .dispatch =>
    (s.kernel.dispatch cfg fuel s.clockCycles).map fun kernel => { s with kernel := kernel }
  | .thread event =>
    if event.isDispatch then some s
    else (s.kernel.perform cfg fuel event).map fun kernel => { s with kernel := kernel }

def step (cfg : SchedulerCfd) (fuel : Nat) (worker : τ → Bool) (s : KernelTask τ γ)
    (op : Op τ γ) : Option (KernelTask τ γ) :=
  if s.kernel.dispatching && op.waits then some s else s.perform cfg fuel worker op

section Clock

variable {cfg : SchedulerCfd} {fuel : Nat} {worker : τ → Bool} {s s' : KernelTask τ γ}

theorem unblock_clock {t : τ} (unblocked : s.unblock cfg fuel t = some s') :
    s'.clockCycles = s.clockCycles := by
  obtain ⟨kernel, _, rfl⟩ := Option.map_eq_some_iff.mp unblocked
  rfl

/-- The clock does not go back. -/
theorem perform_clock {op : Op τ γ} (performed : s.perform cfg fuel worker op = some s') :
    s.clockCycles ≤ s'.clockCycles := by
  cases op with
  | tick cycles =>
    cases performed
    exact Nat.le_add_right ..
  | getPeriodicThread pid obj offset period priority param =>
    obtain ⟨⟨s', t⟩, got, rfl⟩ := Option.map_eq_some_iff.mp performed
    unfold getPeriodicThread at got
    split at got
    · obtain ⟨s'', unblocked, same⟩ := Option.map_eq_some_iff.mp got
      cases same
      exact (unblock_clock unblocked).ge
    · cases got
      exact le_rfl
  | getCallbackThread pid obj delay priority param =>
    obtain ⟨⟨s', t⟩, got, rfl⟩ := Option.map_eq_some_iff.mp performed
    unfold getCallbackThread at got
    split at got
    · obtain ⟨s'', unblocked, same⟩ := Option.map_eq_some_iff.mp got
      cases same
      exact (unblock_clock unblocked).ge
    · cases got
      exact le_rfl
  | getIRQThread pid driver irq priority =>
    cases performed
    unfold getIRQThread
    split
    · exact le_rfl
    · exact le_rfl
  | stop t =>
    rw [perform] at performed
    split at performed
    · cases performed
      exact le_rfl
    · cases performed
      exact le_rfl
  | finish =>
    rw [perform] at performed
    split at performed
    · split at performed
      · unfold finish at performed
        dsimp only at performed
        split at performed
        · obtain ⟨kernel, _, rfl⟩ := Option.map_eq_some_iff.mp performed
          exact le_rfl
        · cases performed
          exact le_rfl
        · cases performed
          exact le_rfl
        · cases performed
          exact le_rfl
      · cases performed
        exact le_rfl
    · cases performed
      exact le_rfl
  | interrupt t =>
    rw [perform] at performed
    split at performed
    · exact (unblock_clock performed).ge
    · cases performed
      exact le_rfl
  | dispatch =>
    obtain ⟨kernel, _, rfl⟩ := Option.map_eq_some_iff.mp performed
    exact le_rfl
  | thread event =>
    rw [perform] at performed
    split at performed
    · cases performed
      exact le_rfl
    · obtain ⟨kernel, _, rfl⟩ := Option.map_eq_some_iff.mp performed
      exact le_rfl

end Clock

end KernelTask

end Orcos.Source
