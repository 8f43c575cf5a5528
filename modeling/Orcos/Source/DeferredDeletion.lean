import Mathlib.Logic.Function.Basic
import Orcos.Lib.Ring

/-!
# Deferred deletion of resources

Source: src/source/mem/SequentialFitMemManager.cc, methods `service`,
`scheduleDeletion` and `idleEnter`; src/source/filesystem/Resource.hh, method
`isDeletionSafe`.

Threads interleave between the critical sections of the ring, so each section
is a step of its own: the service thread reads the ring variables, then handles
the entries one by one, looking at an entry in one step and acting on it in the
next, and last stores the new ring variables. There is one service thread. The
lists `scheduled` and `deleted` are the history of a run; a deletion is
recorded with the reference counter it found.
-/
namespace Orcos.Source.DeferredDeletion
open Orcos.Lib.Ring

/-- What the service thread does next with the entry it has looked at. -/
inductive Action (ρ : Type)
  | delete (res : ρ)
  | reinsert (res : ρ)
  deriving DecidableEq

/-- The local variables of `service()`. -/
structure Frame (ρ : Type) where
  startpos : Nat
  freeCount : Nat
  i : Nat
  action : Option (Action ρ)

structure Deletion (ρ : Type) where
  res : ρ
  refCounter : Int
  deriving DecidableEq

structure Manager (ρ : Type) where
  scheduledDeletion : Nat → Option ρ
  schedDeletionStartPos : Nat
  schedDeletionCount : Nat
  schedDeletionSafeNum : Nat
  myResourceId : ρ → Nat
  refCounter : ρ → Int
  service : Option (Frame ρ)
  scheduled : List ρ
  deleted : List (Deletion ρ)

variable {ρ : Type}

/-- After construction, with the resources as they are. -/
def fresh (myResourceId : ρ → Nat) (refCounter : ρ → Int) : Manager ρ where
  scheduledDeletion _ := none
  schedDeletionStartPos := 0
  schedDeletionCount := 0
  schedDeletionSafeNum := 0
  myResourceId := myResourceId
  refCounter := refCounter
  service := none
  scheduled := []
  deleted := []

/-- `Resource::isDeletionSafe()`. -/
def isDeletionSafe (m : Manager ρ) (res : ρ) : Bool := m.refCounter res ≤ 0

/-- `delete res`. -/
def deleteResource (m : Manager ρ) (res : ρ) : Manager ρ :=
  { m with deleted := m.deleted ++ [⟨res, m.refCounter res⟩] }

/-- `Resource::invalidate()`. -/
def invalidate [DecidableEq ρ] (m : Manager ρ) (res : ρ) : Manager ρ :=
  { m with myResourceId := Function.update m.myResourceId res 0 }

/-- `scheduleDeletion`: a full ring deletes at once. -/
def scheduleDeletion [DecidableEq ρ] (m : Manager ρ) (res : ρ) : Manager ρ :=
  let m := if m.myResourceId res ≠ 0 then invalidate m res else m
  if m.schedDeletionCount < 40 then
    let pos := modulo (m.schedDeletionStartPos + m.schedDeletionCount) 40
    { m with
      scheduledDeletion := Function.update m.scheduledDeletion pos (some res)
      schedDeletionCount := m.schedDeletionCount + 1 }
  else deleteResource m res

def idleEnter (m : Manager ρ) : Manager ρ :=
  { m with schedDeletionSafeNum := m.schedDeletionCount }

/-- The next step of the service thread. -/
def serviceStep [DecidableEq ρ] (m : Manager ρ) : Manager ρ :=
  match m.service with
  | none =>
    { m with service := some ⟨m.schedDeletionStartPos, m.schedDeletionSafeNum, 0, none⟩ }
  | some frame =>
    let pos := modulo (frame.startpos + frame.i) 40
    match frame.action with
    | some (.delete res) =>
      let m := { m with scheduledDeletion := Function.update m.scheduledDeletion pos none }
      { deleteResource m res with service := some { frame with i := frame.i + 1, action := none } }
    | some (.reinsert res) =>
      { scheduleDeletion m res with
        service := some { frame with i := frame.i + 1, action := none } }
    | none =>
      if frame.i < frame.freeCount then
        match m.scheduledDeletion pos with
        | some res =>
          let action := if isDeletionSafe m res then .delete res else .reinsert res
          { m with service := some { frame with action := some action } }
        | none => { m with service := some { frame with i := frame.i + 1 } }
      else
        { m with
          schedDeletionStartPos := modulo (m.schedDeletionStartPos + frame.freeCount) 40
          schedDeletionCount := m.schedDeletionCount - frame.freeCount
          schedDeletionSafeNum := 0
          service := none }

/-- What can happen next, in any order. -/
inductive Event (ρ : Type)
  | schedule (res : ρ)
  | setRefCounter (res : ρ) (value : Int)
  | idle
  | service

def step [DecidableEq ρ] (m : Manager ρ) : Event ρ → Manager ρ
  | .schedule res => { scheduleDeletion m res with scheduled := m.scheduled ++ [res] }
  | .setRefCounter res value => { m with refCounter := Function.update m.refCounter res value }
  | .idle => idleEnter m
  | .service => serviceStep m

end Orcos.Source.DeferredDeletion
