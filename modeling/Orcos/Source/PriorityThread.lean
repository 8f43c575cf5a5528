import Mathlib.Algebra.Order.Ring.Int
import Mathlib.Data.List.Basic
import Mathlib.Order.Lattice
import Mathlib.Data.List.Induction
import Orcos.Source.LinkedList
import Orcos.Source.Alignment

/-!
# Inherited priorities of a thread

Source: src/source/process/PriorityThread.cc and PriorityThread.hh.

A mutex is given by its address, and address zero is the null pointer. The
lock `m_priolock` and the traces are left out. Both functions tell the caller
whether the scheduler has to be told, which needs the lists it manages.
-/
namespace Orcos.Source

abbrev maxPipPriorities : Nat := 5

abbrev cDefaultPriority : Nat := 0

/-- One row of `InheritedPriorities_t`. -/
structure InheritedPriority where
  ref : Nat
  priority : Nat
  deriving DecidableEq

/-- The members `PriorityThread` adds to a thread. -/
structure PriorityThread where
  initialPriority : Nat
  effectivePriority : Nat
  priorities : List InheritedPriority
  slots : priorities.length = maxPipPriorities
  deriving DecidableEq

namespace PriorityThread

/-- The constructor; without attributes the priority is the default. -/
def create (attr : Option Nat) : PriorityThread :=
  ⟨attr.getD cDefaultPriority, attr.getD cDefaultPriority, List.replicate maxPipPriorities ⟨0, 0⟩,
    List.length_replicate⟩

/-- The loop of `pushPriority`: the first free row takes the reference. When
no row is free nothing is stored. -/
def record (m priority : Nat) : List InheritedPriority → List InheritedPriority
  | [] => []
  | slot :: rest =>
    if slot.ref = 0 then ⟨m, priority⟩ :: rest else slot :: record m priority rest

theorem record_length (m priority : Nat) (rows : List InheritedPriority) :
    (record m priority rows).length = rows.length := by
  induction rows with
  | nil => rfl
  | cons slot rest ih =>
    rw [record]
    split
    · rfl
    · simp [ih]

/-- `pushPriority`; the flag says that the thread is entered again at the
scheduler. The row keeps the priority from before the push. -/
def pushPriority (t : PriorityThread) (newPriority m : Nat) : PriorityThread × Bool :=
  if m = 0 then (t, false)
  else if newPriority ≤ t.effectivePriority then (t, false)
  else
    ({ t with
        priorities := record m t.effectivePriority t.priorities
        slots := (record_length _ _ _).trans t.slots
        effectivePriority := newPriority }, true)

/-- The loop of `popPriority`: the rows left, `highestPrio` and `found`. -/
def popLoop (m : Nat) : List InheritedPriority → Nat → Bool → List InheritedPriority × Nat × Bool
  | [], highestPrio, found => ([], highestPrio, found)
  | slot :: rest, highestPrio, found =>
    if slot.ref = m then
      let (rows, highestPrio, found) := popLoop m rest highestPrio true
      (⟨0, 0⟩ :: rows, highestPrio, found)
    else
      let highestPrio :=
        if slot.ref ≠ 0 ∧ highestPrio < slot.priority then slot.priority else highestPrio
      let (rows, highestPrio, found) := popLoop m rest highestPrio found
      (slot :: rows, highestPrio, found)

/-- A row after `popPriority`. -/
def release (m : Nat) (slot : InheritedPriority) : InheritedPriority :=
  if slot.ref = m then ⟨0, 0⟩ else slot

/-- The highest priority a row of another mutex holds, but at least `initial`. -/
def highestOther (m : Nat) (rows : List InheritedPriority) (initial : Nat) : Nat :=
  ((rows.filter fun slot => slot.ref ≠ m ∧ slot.ref ≠ 0).map InheritedPriority.priority).foldl
    max initial

theorem popLoop_eq (m : Nat) (rows : List InheritedPriority) (highestPrio : Nat) (found : Bool) :
    popLoop m rows highestPrio found =
      (rows.map (release m), highestOther m rows highestPrio,
        found || rows.any fun slot => slot.ref = m) := by
  induction rows generalizing highestPrio found with
  | nil => simp [popLoop, highestOther]
  | cons slot rest ih =>
    by_cases same : slot.ref = m
    · simp [popLoop, ih, same, release, highestOther]
    · by_cases used : slot.ref = 0
      · have null : ¬ 0 = m := used ▸ same
        simp [popLoop, ih, null, used, release, highestOther]
      · have raised : (if highestPrio < slot.priority then slot.priority else highestPrio) =
            max highestPrio slot.priority := by
          rw [max_def]
          split <;> split <;> omega
        simp [popLoop, ih, same, used, release, highestOther, raised]

/-- `popPriority`; the flag says that the timer is set to reschedule at once. -/
def popPriority (t : PriorityThread) (m : Nat) : PriorityThread × Bool :=
  if m = 0 then (t, false)
  else
    let result := popLoop m t.priorities t.initialPriority false
    let t :=
      { t with
        priorities := result.1
        slots := by simp only [result, popLoop_eq, List.length_map, t.slots] }
    if result.2.2 = false then (t, false)
    else if result.2.1 ≠ 0 then ({ t with effectivePriority := result.2.1 }, true)
    else (t, false)

/-- The thread holds a row for the mutex. -/
def HasRow (t : PriorityThread) (m : Nat) : Prop := ∃ slot ∈ t.priorities, slot.ref = m

instance (t : PriorityThread) (m : Nat) : Decidable (HasRow t m) :=
  inferInstanceAs (Decidable (∃ slot ∈ t.priorities, slot.ref = m))

section Fields

variable (t : PriorityThread) {m : Nat} (nonnull : m ≠ 0)

@[simp] theorem pushPriority_null (p : Nat) : pushPriority t p 0 = (t, false) := rfl

@[simp] theorem popPriority_null : popPriority t 0 = (t, false) := rfl

@[simp] theorem pushPriority_initialPriority (p m : Nat) :
    (pushPriority t p m).1.initialPriority = t.initialPriority := by
  unfold pushPriority
  split
  · rfl
  · split <;> rfl

include nonnull

/-- A push raises the effective priority to its own, never lowers it. -/
theorem pushPriority_effectivePriority (p : Nat) :
    (pushPriority t p m).1.effectivePriority = max t.effectivePriority p := by
  unfold pushPriority
  rw [if_neg nonnull]
  split
  case isTrue low => exact (max_eq_left low).symm
  case isFalse high => exact (max_eq_right (Nat.le_of_not_le high)).symm

theorem popPriority_priorities :
    (popPriority t m).1.priorities = t.priorities.map (release m) := by
  unfold popPriority
  rw [if_neg nonnull]
  simp only [popLoop_eq]
  split
  · rfl
  · split <;> rfl

theorem popPriority_effectivePriority :
    (popPriority t m).1.effectivePriority =
      if HasRow t m ∧ highestOther m t.priorities t.initialPriority ≠ 0 then
        highestOther m t.priorities t.initialPriority
      else t.effectivePriority := by
  have rows : (t.priorities.any fun slot => slot.ref = m) = decide (HasRow t m) := by
    rw [Bool.eq_iff_iff, List.any_eq_true, decide_eq_true_eq, HasRow]
    simp only [decide_eq_true_eq]
  unfold popPriority
  rw [if_neg nonnull]
  simp only [popLoop_eq, Bool.false_or, rows]
  by_cases found : HasRow t m
  · by_cases zero : highestOther m t.priorities t.initialPriority = 0
    · simp [found, zero]
    · simp [found, zero]
  · simp [found]

end Fields

@[simp] theorem popPriority_initialPriority (t : PriorityThread) (m : Nat) :
    (popPriority t m).1.initialPriority = t.initialPriority := by
  unfold popPriority
  split
  · rfl
  · simp only
    split
    · rfl
    · split <;> rfl

end PriorityThread

end Orcos.Source

/-! ## The ready queue of the priority scheduler

Source: src/source/scheduler/PriorityThreadScheduler.cc.

The scheduler's `database` is one of the linked lists; the item of a thread
points to the thread through its data field, and `effectivePriority` is the
field of the thread. The scan of `enter` is a pointer walk and takes fuel.
-/
namespace Orcos.Source.PriorityThreadScheduler
open Orcos.Lib.Chain Orcos.Source.LinkedList

structure Scheduler (δ ι κ : Type) where
  heap : Heap δ ι κ
  effectivePriority : δ → Nat

variable {δ ι κ : Type}

/-- The priority of the thread an item stands for. -/
def Scheduler.priority (s : Scheduler δ ι κ) (i : ι) : Nat := s.effectivePriority (s.heap.data i)

/-- The loop of `enter`: from `sItem` towards the head, the first item whose
thread has at least the priority `own`. -/
def scan (s : Scheduler δ ι κ) (own : Nat) : Nat → Option ι → Option (Option ι)
  | _, none => some none
  | 0, some _ => none
  | fuel + 1, some sItem =>
    if own ≤ s.priority sItem then some (some sItem) else scan s own fuel (s.heap.pred sItem)

/-- The scan finds the last item of the chain with enough priority. -/
theorem scan_eq_find (s : Scheduler δ ι κ) (own : Nat) {xs : List ι} {after : Option ι}
    (seg : Segment s.heap.pred s.heap.succ none xs after) {fuel : Nat}
    (enough : xs.length ≤ fuel) :
    scan s own fuel xs.getLast? = some (xs.reverse.find? (fun i => own ≤ s.priority i)) := by
  induction xs using List.reverseRecOn generalizing after fuel with
  | nil => simp [scan]
  | append_singleton xs x ih =>
    obtain ⟨left, back, _⟩ := segment_append.mp seg
    rw [Option.or_none] at back
    cases fuel with
    | zero => simp at enough
    | succ fuel =>
      rw [List.getLast?_concat, scan, back]
      by_cases found : own ≤ s.priority x
      · simp [found]
      · simp [found, ih left (by simpa using enough)]

variable [DecidableEq ι] [DecidableEq κ]

/-- `PriorityThreadScheduler::enter(LinkedListItem*)`. -/
def enter (s : Scheduler δ ι κ) (database : κ) (item : ι) (fuel : Nat) :
    Option (Scheduler δ ι κ × ErrorT) :=
  match scan s (s.priority item) fuel (getTail s.heap database) with
  | none => none
  | some (some sItem) =>
    let (heap, ret) := insertAfter s.heap database item sItem
    some ({ s with heap := heap }, ret)
  | some none =>
    let (heap, ret) := addHead s.heap database item
    some ({ s with heap := heap }, ret)

/-- `PriorityThreadScheduler::getNext()`. -/
def getNext (s : Scheduler δ ι κ) (database : κ) : Scheduler δ ι κ × Option ι :=
  let (heap, ret) := removeHead s.heap database
  ({ s with heap := heap }, ret)

/-- A store to the field of one thread. -/
def setEffectivePriority [DecidableEq δ] (s : Scheduler δ ι κ) (thread : δ) (p : Nat) :
    Scheduler δ ι κ :=
  { s with effectivePriority := Function.update s.effectivePriority thread p }

end Orcos.Source.PriorityThreadScheduler

/-! ## Threads

Source: src/source/process/Thread.hh, RealTimeThread.hh and RealTimeThread.cc;
the `computePriority` methods of the two real-time schedulers are in
src/source/scheduler.

Every configured thread class is the real-time thread, and its linked list item
is a member of it, so thread and item are one. Times are 64-bit numbers;
`instanceNumber` is the member `instance`. The stack, the name, the exported
variables and the time-out of a blocked thread are read by no function of the dispatcher and
left out.
-/
namespace Orcos.Source

/-- The bits of `status`: `cNewFlag`, `cReadyFlag`, `cBlockedFlag`, `cTermFlag`,
`cStopped`, `cSignalFlag` and `cDoTermFlag`. -/
structure Status where
  isNew : Bool
  ready : Bool
  blocked : Bool
  term : Bool
  stopped : Bool
  signal : Bool
  doTerm : Bool
  deriving DecidableEq

/-- `status.clear()`. -/
def Status.clear : Status := ⟨false, false, false, false, false, false, false⟩

def maxUint4 : Nat := 2 ^ 32 - 1

def maxUint8 : Nat := 2 ^ 64 - 1

/-- The members of a thread; `owner` is the number of the task it belongs to. -/
structure Thread where
  owner : Nat
  status : Status
  sleepTime : Nat
  signal : Nat
  signalvalue : Int
  priority : PriorityThread
  period : Nat
  relativeDeadline : Nat
  absoluteDeadline : Nat
  arrivalTime : Nat
  instanceNumber : Nat
  deriving DecidableEq

/-- The attributes of a thread to be created; period and deadline are in microseconds. -/
structure ThreadAttr where
  arrivaltime : Nat
  priority : Nat
  period : Nat
  deadline : Nat

/-- The constructors, up to the call of `computePriority`. Without attributes
the arrival time is not set. -/
def Thread.create (cyclesPerMicrosecond currentCycles owner : Nat) : Option ThreadAttr → Thread
  | some attr =>
    let arrivalTime := max attr.arrivaltime currentCycles
    let relativeDeadline := attr.deadline * cyclesPerMicrosecond
    { owner := owner
      status := { Status.clear with isNew := true }
      sleepTime := if currentCycles < attr.arrivaltime then attr.arrivaltime else 0
      signal := 0
      signalvalue := -1
      priority := PriorityThread.create (some attr.priority)
      period := attr.period * cyclesPerMicrosecond
      relativeDeadline := relativeDeadline
      absoluteDeadline := (arrivalTime + relativeDeadline) % 2 ^ 64
      arrivalTime := arrivalTime
      instanceNumber := 1 }
  | none =>
    { owner := owner
      status := { Status.clear with isNew := true }
      sleepTime := 0
      signal := 0
      signalvalue := -1
      priority := PriorityThread.create none
      period := 0
      relativeDeadline := 0
      absoluteDeadline := 0
      arrivalTime := 0
      instanceNumber := 1 }

namespace Thread

variable (t : Thread)

def isNew : Bool := t.status.isNew
def isReady : Bool := t.status.ready
def isBlocked : Bool := t.status.blocked
def isStopped : Bool := t.status.stopped
def isSleeping : Bool := !(t.status.blocked || t.status.ready || t.status.isNew)
def effectivePriority : Nat := t.priority.effectivePriority

def setReady (ready : Bool) : Thread := { t with status := { t.status with ready := ready } }
def setBlocked (blocked : Bool) : Thread :=
  { t with status := { t.status with blocked := blocked } }
def setStopped (stopped : Bool) : Thread :=
  { t with status := { t.status with stopped := stopped } }
def setSignal (signal : Bool) : Thread := { t with status := { t.status with signal := signal } }
def setNew (isNew : Bool) : Thread := { t with status := { t.status with isNew := isNew } }
def setSleepTime (sleepTime : Nat) : Thread := { t with sleepTime := sleepTime }

/-- Both priorities. -/
def setPriority (initialPriority effectivePriority : Nat) : Thread :=
  { t with priority := { t.priority with
      initialPriority := initialPriority
      effectivePriority := effectivePriority } }

/-- `RateMonotonicThreadScheduler::computePriority`. -/
def computePriorityRM : Thread :=
  let priority :=
    if t.period ≠ 0 then
      if t.period < maxUint4 then maxUint4 - t.period else maxUint4 - 1
    else t.priority.initialPriority
  t.setPriority priority priority

/-- `EarliestDeadlineFirstThreadScheduler::computePriority`. -/
def computePriorityEDF : Thread :=
  if t.relativeDeadline ≠ 0 then
    let absoluteDeadline := (t.arrivalTime + t.relativeDeadline) % 2 ^ 64
    { t.setPriority (maxUint8 - absoluteDeadline) (maxUint8 - absoluteDeadline) with
      absoluteDeadline := absoluteDeadline }
  else if t.priority.initialPriority = cDefaultPriority then
    { t.setPriority 1 1 with absoluteDeadline := 0 }
  else t

/-- The part of `RealTimeThread::terminate` that prepares the next instance of
a periodic thread. -/
def renew : Thread :=
  let arrivalTime := (t.arrivalTime + t.period) % 2 ^ 64
  { t with
    status := { Status.clear with isNew := true, ready := true }
    arrivalTime := arrivalTime
    absoluteDeadline := (arrivalTime + t.relativeDeadline) % 2 ^ 64 }

end Thread

end Orcos.Source
