import Mathlib.Logic.Function.Basic
import Orcos.Source.Alignment
import Orcos.Source.IDMap
import Orcos.Source.Files.FileManager
import Orcos.Source.Mutex

/-!
# The resource table of a task

Source: src/source/process/Task.cc and Task.hh, `addResource`, `removeResource`,
`getOwnedResourceFileDescriptor`, `getOwnedResourceByFileDescriptor`.

A slot without a resource is zero in the source; the memory of a new task is filled
with zeros. Resources are known by their addresses.
-/
namespace Orcos.Source.Tasks
open Lib.WordBits

def maxTaskResources : Nat := 64

structure Task (τ ρ : Type) where
  acquiredResources : Nat → Option ρ
  numResources : Int
  freeResourceIds : IDMap
  threadDb : List τ

namespace Task

variable {τ ρ : Type}

/-- A new task with its threads. -/
def fresh (beyond : BitVec 32) (threads : List τ) : Task τ ρ :=
  ⟨fun _ => none, 0, IDMap.fresh beyond maxTaskResources, threads⟩

variable (task : Task τ ρ)

def addResource (res : ρ) : Task τ ρ × ErrorT :=
  let (ids, fd) := task.freeResourceIds.getNextID
  if fd = -1 then ({ task with freeResourceIds := ids }, cDatabaseOverflow)
  else ({ task with
    acquiredResources := Function.update task.acquiredResources fd.toNat (some res)
    numResources := task.numResources + 1
    freeResourceIds := ids }, fd)

theorem addResource_eq (res : ρ) :
    task.addResource res = if task.freeResourceIds.getNextID.2 = -1 then
      ({ task with freeResourceIds := task.freeResourceIds.getNextID.1 }, cDatabaseOverflow)
    else ({ task with
      acquiredResources := Function.update task.acquiredResources
        task.freeResourceIds.getNextID.2.toNat (some res)
      numResources := task.numResources + 1
      freeResourceIds := task.freeResourceIds.getNextID.1 }, task.freeResourceIds.getNextID.2) :=
  rfl

/-- A resource gets no number when none is free. -/
theorem isError_addResource_iff (res : ρ) :
    isError (task.addResource res).2 = true ↔ firstSet task.freeResourceIds.map = none := by
  rw [addResource_eq]
  cases first : firstSet task.freeResourceIds.map with
  | none =>
    rw [IDMap.getNextID_none first]
    exact iff_of_true rfl rfl
  | some k =>
    have positive : ¬(k : Int) = -1 := by omega
    rw [IDMap.getNextID_some first, if_neg positive]
    have answer : isError (k : Int) = false :=
      decide_eq_false (Int.not_lt.mpr (Int.natCast_nonneg k))
    simp [answer]

def getOwnedResourceByFileDescriptor (id : Nat) : Option ρ :=
  if id ≥ maxTaskResources then none else task.acquiredResources id

/-- A slot is emptied and its number given back, which is never a negative one. -/
def dropSlot (i : Nat) : Task τ ρ :=
  { task with
    acquiredResources := Function.update task.acquiredResources i none
    numResources := task.numResources - 1
    freeResourceIds := (task.freeResourceIds.freeID i).getD task.freeResourceIds }

variable [DecidableEq ρ]

/-- The first slot that holds the resource. -/
def slotOf (res : ρ) : Option Nat :=
  (List.range maxTaskResources).find? fun i => task.acquiredResources i = some res

def getOwnedResourceFileDescriptor (res : ρ) : Int :=
  match task.slotOf res with
  | some i => i
  | none => -1

def removeResource (res : ρ) : Task τ ρ × ErrorT :=
  match task.slotOf res with
  | some i => (task.dropSlot i, cOk)
  | none => (task, cResourceNotOwned)

variable {task} {res : ρ} {i : Nat}

theorem slotOf_eq_some (found : task.slotOf res = some i) :
    i < maxTaskResources ∧ task.acquiredResources i = some res :=
  ⟨List.mem_range.mp (List.mem_of_find?_eq_some found), by simpa using List.find?_some found⟩

/-- The first slot with the resource, when those before it hold others. -/
theorem slotOf_first (inside : i < maxTaskResources) (held : task.acquiredResources i = some res)
    (before : ∀ j < i, task.acquiredResources j ≠ some res) : task.slotOf res = some i :=
  List.find?_range_eq_some.mpr ⟨by simpa using held, by simpa using inside, fun j less => by
    simpa using before j less⟩

end Task

end Orcos.Source.Tasks

/-! ## Resources of tasks

Source: src/source/filesystem/Resource.cc, `acquire`, `release`, `~Resource`;
src/source/process/Task.cc, `acquireResource`, `releaseResource`, `removeThread`;
src/source/filesystem/SharedMemResource.cc, the constructor.

One call is made at a time. A call has no result when it does not return or reaches
for something that is not there: a mutex that another thread holds and the caller waits
for, a resource that was deleted, the task of a thread that has none. What closing a
file, destroying a socket or resetting a position does besides is left out.
-/
namespace Orcos.Source.Tasks
open Source.Files

/-- A resource. The tasks it is mapped into, and the one that created it, are those of a
shared memory area. -/
structure Resource (κ τ : Type) where
  type : BitVec 32
  refCounter : Int
  myResourceId : Nat
  accessControl : Option (Mutex τ)
  owner : Option κ
  mapping : List κ

structure System (κ τ ρ : Type) where
  task : κ → Task τ ρ
  taskDatabase : List κ
  resource : ρ → Option (Resource κ τ)
  owner : τ → Option κ
  running : Option τ

variable {κ τ ρ : Type} [DecidableEq κ] [DecidableEq τ] [DecidableEq ρ]

/-- `accessControl->acquire`, for the running thread; without a mutex there is nothing to
wait for. -/
def enter (running : Option τ) (blocking : Bool) :
    Option (Mutex τ) → Option (Option (Mutex τ) × ErrorT)
  | none => some (none, cOk)
  | some m =>
    if running ≠ none ∧ m.pThread = running then some (some m, cOk)
    else if m.locked = false then some (some { m with locked := true, pThread := running }, cOk)
    else if blocking then none
    else some (some { m with waitingThreads := m.waitingThreads + 1 }, cError)

/-- `accessControl->release`. -/
def leave (accessControl : Option (Mutex τ)) : Option (Mutex τ) :=
  accessControl.map fun m => { m with pThread := none, locked := false }

namespace System

variable (s : System κ τ ρ)

def setTask (k : κ) (task : Task τ ρ) : System κ τ ρ :=
  { s with task := Function.update s.task k task }

def setResource (r : ρ) (res : Option (Resource κ τ)) : System κ τ ρ :=
  { s with resource := Function.update s.resource r res }

/-- A resource deleted while it is being acquired has no number any more. -/
def acquire (r : ρ) (pThread : Option τ) (blocking : Bool) : Option (System κ τ ρ × ErrorT) := do
  let res ← s.resource r
  let (control, entered) ← enter s.running blocking res.accessControl
  if entered ≠ cOk then
    some (s.setResource r (some { res with accessControl := control }), cError)
  else if res.myResourceId = 0 then
    some (s.setResource r (some { res with accessControl := control }), cResourceRemoved)
  else match pThread.or s.running with
    | none => some (s.setResource r
        (some { res with accessControl := control, refCounter := res.refCounter + 1 }), cError)
    | some t => do
      let k ← s.owner t
      let (task, ret) := (s.task k).addResource r
      if isError ret then
        some ((s.setTask k task).setResource r (some { res with accessControl := control }), ret)
      else some ((s.setTask k task).setResource r
        (some { res with accessControl := control, refCounter := res.refCounter + 1 }), ret)

def release (r : ρ) (pThread : Option τ) : Option (System κ τ ρ × ErrorT) := do
  let res ← s.resource r
  match pThread.or s.running with
  | none =>
    some (s.setResource r (some { res with accessControl := leave res.accessControl }), cOk)
  | some t => do
    let k ← s.owner t
    let (task, ret) := (s.task k).removeResource r
    if isError ret then some (s, ret)
    else some ((s.setTask k task).setResource r (some { res with
      accessControl := leave res.accessControl, refCounter := res.refCounter - 1 }), ret)

/-- A resource held by some task is taken from all of them. -/
def destroy (r : ρ) : Option (System κ τ ρ) := do
  let res ← s.resource r
  let tasks := if res.refCounter > 0 then s.taskDatabase else []
  some ((tasks.foldl (fun s k => s.setTask k ((s.task k).removeResource r).1) s).setResource r none)

def acquireResource (k : κ) (r : ρ) (t : Option τ) (blocking : Bool) :
    Option (System κ τ ρ × ErrorT) :=
  if 0 ≤ (s.task k).getOwnedResourceFileDescriptor r then
    some (s, (s.task k).getOwnedResourceFileDescriptor r)
  else s.acquire r t blocking

def unmapFromTask (r : ρ) (k : κ) : System κ τ ρ :=
  s.setResource r ((s.resource r).map fun res =>
    { res with mapping := res.mapping.filter (· ≠ k) })

def releaseResource (r : ρ) (t : Option τ) : Option (System κ τ ρ × ErrorT) := do
  let res ← s.resource r
  if res.type = cSocket then do
    let (s, _) ← s.release r t
    let s ← s.destroy r
    some (s, cOk)
  else if res.type = cSharedMem then do
    let t ← t
    let k ← s.owner t
    let (s, ret) ← (s.unmapFromTask r k).release r (some t)
    let res ← s.resource r
    if res.mapping = [] ∧ res.owner ≠ none then do
      let s ← s.destroy r
      some (s, ret)
    else some (s, ret)
  else s.release r t

/-- The loop of `removeThread` over the slots. -/
def releaseSlots (k : κ) (t : τ) : List Nat → System κ τ ρ → Option (System κ τ ρ)
  | [], s => some s
  | i :: slots, s =>
    match (s.task k).acquiredResources i with
    | none => releaseSlots k t slots s
    | some r => do
      let (s, _) ← s.releaseResource r (some t)
      releaseSlots k t slots (s.setTask k { s.task k with
        acquiredResources := Function.update (s.task k).acquiredResources i none })

/-- The thread is taken off the list of the task. -/
def dropThread (k : κ) (t : τ) : System κ τ ρ :=
  s.setTask k { s.task k with threadDb := (s.task k).threadDb.erase t }

/-- With the last thread the task gives back what it holds. -/
def removeThread (k : κ) (t : τ) : Option (System κ τ ρ) :=
  if t ∈ (s.task k).threadDb then
    let left := s.dropThread k t
    let released := if (left.task k).threadDb = [] then
        releaseSlots k t (List.range maxTaskResources) left
      else some left
    released.map fun s => { s with owner := Function.update s.owner t none }
  else some s

/-- The constructor of a shared memory area for a task, or for the kernel; `allocated`
tells whether there is memory for it. The new area enters itself into the task's table. -/
def createSharedMem (r : ρ) (pOwner : Option κ) (myResourceId : Nat) (allocated : Bool) :
    System κ τ ρ :=
  let s := s.setResource r (some ⟨cSharedMem, 0, myResourceId, none, pOwner, []⟩)
  match pOwner with
  | none => s
  | some k => if allocated then s.setTask k ((s.task k).addResource r).1 else s

end System

end Orcos.Source.Tasks
