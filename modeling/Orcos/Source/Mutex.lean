import Mathlib.Algebra.Order.Ring.Int
import Mathlib.Logic.Function.Basic

/-!
# The mutex

Source: src/source/synchro/Mutex.cc and Mutex.hh.

A call of `acquire` or `release` is cut into the stores that other threads can
see in between: on one processor interrupts are disabled around some of them,
on several the threads interleave freely. Every caller is a thread; the
resource, the name and the trace of a mutex have no effect and are left out.
-/
namespace Orcos.Source

/-- The members of a mutex. -/
structure Mutex (τ : Type) where
  locked : Bool
  waitingThreads : Int
  pThread : Option τ
  deriving DecidableEq

namespace Mutex

/-- The constructor. -/
def create {τ : Type} : Mutex τ := ⟨false, 0, none⟩

/-- Where a thread is in its current call. -/
inductive Point (μ : Type)
  | outside
  /-- In the loop of `acquire`, before the next `testandset`. -/
  | trying (m : μ) (blocking : Bool)
  /-- `testandset` succeeded, the thread is not stored as the owner yet. -/
  | won (m : μ)
  /-- `release` has cleared the owner, but not the lock. -/
  | releasing (m : μ)
  deriving DecidableEq

/-- All mutexes and all threads; `depth` counts how often a thread acquired a
mutex and has not released it since. -/
structure Threads (τ μ : Type) where
  mutex : μ → Mutex τ
  point : τ → Point μ
  depth : τ → μ → Nat

/-- A thread calls `acquire` or `release`, or goes on with the call it is in. -/
inductive Event (τ μ : Type)
  | acquire (t : τ) (m : μ) (blocking : Bool)
  | attempt (t : τ)
  | own (t : τ)
  | release (t : τ) (m : μ)
  | unlock (t : τ)

variable {τ μ : Type}

def start : Threads τ μ := ⟨fun _ => create, fun _ => .outside, fun _ _ => 0⟩

namespace Threads

def setMutex [DecidableEq μ] (s : Threads τ μ) (m : μ) (x : Mutex τ) : Threads τ μ :=
  { s with mutex := Function.update s.mutex m x }

def setPoint [DecidableEq τ] (s : Threads τ μ) (t : τ) (p : Point μ) : Threads τ μ :=
  { s with point := Function.update s.point t p }

def setDepth [DecidableEq τ] [DecidableEq μ] (s : Threads τ μ) (t : τ) (m : μ) (n : Nat) :
    Threads τ μ :=
  { s with depth := Function.update s.depth t (Function.update (s.depth t) m n) }

section Fields

variable (s : Threads τ μ) (t u : τ) (m k : μ) (x : Mutex τ) (p : Point μ) (n : Nat)

@[simp] theorem setMutex_mutex [DecidableEq μ] :
    (s.setMutex m x).mutex k = if k = m then x else s.mutex k := by
  simp [setMutex, Function.update_apply]

@[simp] theorem setPoint_point [DecidableEq τ] :
    (s.setPoint t p).point u = if u = t then p else s.point u := by
  simp [setPoint, Function.update_apply]

@[simp] theorem setMutex_point [DecidableEq μ] : (s.setMutex m x).point = s.point := rfl
@[simp] theorem setMutex_depth [DecidableEq μ] : (s.setMutex m x).depth = s.depth := rfl
@[simp] theorem setPoint_mutex [DecidableEq τ] : (s.setPoint t p).mutex = s.mutex := rfl
@[simp] theorem setPoint_depth [DecidableEq τ] : (s.setPoint t p).depth = s.depth := rfl

variable [DecidableEq τ] [DecidableEq μ]

@[simp] theorem setDepth_depth :
    (s.setDepth t m n).depth u k = if u = t ∧ k = m then n else s.depth u k := by
  simp only [setDepth, Function.update_apply]
  by_cases thread : u = t
  · subst thread
    simp [Function.update_apply]
  · simp [thread]

@[simp] theorem setDepth_mutex : (s.setDepth t m n).mutex = s.mutex := rfl
@[simp] theorem setDepth_point : (s.setDepth t m n).point = s.point := rfl

end Fields

end Threads

variable [DecidableEq τ] [DecidableEq μ]

/-- The first part of `acquire`: a thread that holds the mutex returns at once,
any other one is counted and enters the loop. -/
def acquire (s : Threads τ μ) (t : τ) (m : μ) (blocking : Bool) : Threads τ μ :=
  let x := s.mutex m
  if x.pThread = some t then s.setDepth t m (s.depth t m + 1)
  else (s.setMutex m { x with waitingThreads := x.waitingThreads + 1 }).setPoint t
    (.trying m blocking)

/-- One round of the loop: `testandset`, and on failure the next round or the
return of an error. -/
def attempt (s : Threads τ μ) (t : τ) (m : μ) (blocking : Bool) : Threads τ μ :=
  let x := s.mutex m
  if x.locked = false then (s.setMutex m { x with locked := true }).setPoint t (.won m)
  else if blocking then s
  else s.setPoint t .outside

/-- The end of a successful `acquire`. -/
def own (s : Threads τ μ) (t : τ) (m : μ) : Threads τ μ :=
  let x := s.mutex m
  ((s.setMutex m { x with waitingThreads := x.waitingThreads - 1, pThread := some t }).setPoint t
    .outside).setDepth t m (s.depth t m + 1)

/-- The first part of `release`, which looks neither at the owner nor at the
nesting. -/
def release (s : Threads τ μ) (t : τ) (m : μ) : Threads τ μ :=
  ((s.setMutex m { s.mutex m with pThread := none }).setPoint t (.releasing m)).setDepth t m
    (s.depth t m - 1)

/-- The second part of `release`. -/
def unlock (s : Threads τ μ) (t : τ) (m : μ) : Threads τ μ :=
  (s.setMutex m { s.mutex m with locked := false }).setPoint t .outside

/-- One step of a thread; what it cannot do at its point has no effect. -/
def step (s : Threads τ μ) : Event τ μ → Threads τ μ
  | .acquire t m blocking =>
    match s.point t with
    | .outside => acquire s t m blocking
    | _ => s
  | .attempt t =>
    match s.point t with
    | .trying m blocking => attempt s t m blocking
    | _ => s
  | .own t =>
    match s.point t with
    | .won m => own s t m
    | _ => s
  | .release t m =>
    match s.point t with
    | .outside => release s t m
    | _ => s
  | .unlock t =>
    match s.point t with
    | .releasing m => unlock s t m
    | _ => s

end Mutex

end Orcos.Source
