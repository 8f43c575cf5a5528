import Mathlib.Algebra.Order.Ring.Int
import Mathlib.Logic.Function.Basic
import Orcos.Source.Alignment

/-!
# The mutex and the condition variable of the user library

Source: src/library/src/stdlib.c, `mutex_create`, `mutex_acquire`, `mutex_release`;
src/library/src/pthread.c, `pthread_cond_signal`, `pthread_cond_wait`;
src/source/syscalls/sc_synchro.cc, `sc_signal_wait`, `sc_signal_signal`;
src/source/scheduler/SingleCPUDispatcher.cc, `sigwait`, `signal`;
src/source/arch/ARM/ARMv4T/ARMv7/testandset.c.

The mutex is a word in user memory, and its address is the signal its threads wait for. Any
number of threads interleave between their accesses to the word and their system calls. The
exclusive store of `testandset` may fail although the word has the tested value. The threads
have no other reason to wait, so that a signal makes all of those that wait for it ready.

`pthread_cond_wait` releases the mutex, waits for the signal of the condition variable and
acquires the mutex again, one after the other.
-/
namespace Orcos.Source

/-- Where a thread is: before the next `testandset`, before `signal_wait`, in `signal_wait`, or
before `signal_signal`. -/
inductive MutexPoint
  | outside
  | testing (blocking : Bool)
  | failed
  | waiting
  | signalling
  deriving DecidableEq

/-- The word, the threads on `condwaitList`, where each thread is, and whether it has acquired
the mutex and not released it since. -/
structure UserMutex (τ : Type) where
  counter : Int
  condwaitList : List τ
  point : τ → MutexPoint
  holds : τ → Bool
  returned : τ → ErrorT

/-- A thread calls one of the functions, or goes on with the call it is in. -/
inductive MutexOp (τ : Type)
  | acquire (thread : τ) (blocking : Bool)
  | testandset (thread : τ) (stored : Bool)
  | signalWait (thread : τ)
  | release (thread : τ)
  | signalSignal (thread : τ)

namespace UserMutex

variable {τ : Type}

/-- `mutex_create`. -/
def create : UserMutex τ := ⟨1, [], fun _ => .outside, fun _ => false, fun _ => cOk⟩

variable [DecidableEq τ] (s : UserMutex τ) (thread : τ)

def setPoint (point : MutexPoint) : UserMutex τ :=
  { s with point := Function.update s.point thread point }

/-- The end of `mutex_acquire`. -/
def return_ (error : ErrorT) (holds : Bool) : UserMutex τ :=
  { s.setPoint thread .outside with
    holds := Function.update s.holds thread holds
    returned := Function.update s.returned thread error }

/-- A round of the loop of `mutex_acquire`: the word is set, or the thread is to wait. -/
def testandset (blocking stored : Bool) : UserMutex τ :=
  if s.counter = 1 ∧ stored then { s with counter := 0 }.return_ thread cOk true
  else if blocking then s.setPoint thread .failed
  else s.return_ thread cError (s.holds thread)

/-- `sigwait`. -/
def signalWait : UserMutex τ :=
  { s.setPoint thread .waiting with condwaitList := s.condwaitList ++ [thread] }

/-- The store of `mutex_release`. -/
def release : UserMutex τ :=
  { s.setPoint thread .signalling with
    counter := 1
    holds := Function.update s.holds thread false }

/-- The threads that wait go on with the loop of `mutex_acquire`. -/
def signal : UserMutex τ :=
  { s with
    condwaitList := []
    point := fun t => if t ∈ s.condwaitList then .testing true else s.point t }

/-- A step of a thread; what it cannot do at its point has no effect. -/
def step : MutexOp τ → UserMutex τ
  | .acquire thread blocking =>
    match s.point thread with
    | .outside => s.setPoint thread (.testing blocking)
    | _ => s
  | .testandset thread stored =>
    match s.point thread with
    | .testing blocking => s.testandset thread blocking stored
    | _ => s
  | .signalWait thread =>
    match s.point thread with
    | .failed => s.signalWait thread
    | _ => s
  | .release thread =>
    match s.point thread with
    | .outside => s.release thread
    | _ => s
  | .signalSignal thread =>
    match s.point thread with
    | .signalling => (s.setPoint thread .outside).signal
    | _ => s

end UserMutex

/-- The thread that makes a step, and whether it calls a function with it. -/
def MutexOp.thread {τ : Type} : MutexOp τ → τ
  | .acquire thread _ => thread
  | .testandset thread _ => thread
  | .signalWait thread => thread
  | .release thread => thread
  | .signalSignal thread => thread

def MutexOp.isCall {τ : Type} : MutexOp τ → Bool
  | .acquire _ _ => true
  | .release _ => true
  | _ => false

/-- Where a thread is in `pthread_cond_wait`: in `pthread_mutex_unlock`, before `signal_wait`, in
`signal_wait`, or in `pthread_mutex_lock`. -/
inductive CondPoint
  | outside
  | unlocking
  | unlocked
  | waiting
  | locking
  deriving DecidableEq

/-- A mutex with a condition variable, whose address is another signal. The threads on
`condwaitList` that wait for the signal of the mutex are those of the mutex. -/
structure PthreadCond (τ : Type) where
  mutex : UserMutex τ
  condwaitList : List τ
  point : τ → CondPoint

/-- A step of the mutex, or one of the condition variable. -/
inductive PthreadOp (τ : Type)
  | mutex (op : MutexOp τ)
  | condWait (thread : τ)
  | signalWait (thread : τ)
  | condSignal (thread : τ)

namespace PthreadCond

variable {τ : Type}

def create : PthreadCond τ := ⟨.create, [], fun _ => .outside⟩

variable [DecidableEq τ] (s : PthreadCond τ) (thread : τ)

/-- The thread is in none of the functions. -/
def idle : Bool := s.point thread = .outside ∧ s.mutex.point thread = .outside

def setPoint (point : CondPoint) : PthreadCond τ :=
  { s with point := Function.update s.point thread point }

/-- `pthread_cond_wait` goes on when `mutex_release` or `mutex_acquire` returned. -/
def proceed : PthreadCond τ :=
  match s.mutex.point thread, s.point thread with
  | .outside, .unlocking => s.setPoint thread .unlocked
  | .outside, .locking => s.setPoint thread .outside
  | _, _ => s

/-- The threads that wait for the condition go on with `mutex_acquire`. -/
def signal : PthreadCond τ where
  mutex := { s.mutex with
    point := fun t => if t ∈ s.condwaitList then .testing true else s.mutex.point t }
  condwaitList := []
  point := fun t => if t ∈ s.condwaitList then .locking else s.point t

/-- A step of a thread; what it cannot do at its point has no effect. -/
def step : PthreadOp τ → PthreadCond τ
  | .mutex op =>
    if op.isCall && s.point op.thread ≠ .outside then s
    else { s with mutex := s.mutex.step op }.proceed op.thread
  | .condWait thread =>
    if s.idle thread then
      { s with mutex := s.mutex.step (.release thread) }.setPoint thread .unlocking
    else s
  | .signalWait thread =>
    if s.point thread = .unlocked then
      { s.setPoint thread .waiting with condwaitList := s.condwaitList ++ [thread] }
    else s
  | .condSignal thread => if s.idle thread then s.signal else s

end PthreadCond

end Orcos.Source
