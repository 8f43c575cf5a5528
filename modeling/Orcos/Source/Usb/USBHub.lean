import Mathlib.Logic.Function.Basic
import Mathlib.Logic.Relation
import Orcos.Source.Usb.USBHostController

/-!
# Hubs and the devices at their ports

Source: src/source/arch/shared/usb/USBHub.cc, `handleStatusChange`, `USBHub`, `~USBHub`;
USBDevice.cc, `USBDevice`, `~USBDevice`; USBHostController.cc, `enumerateDevice`.

Devices are numbered as they are created, and a driver has the number of its device. In a round
of the loop over the ports the last call is that of `enumerateDevice`, whose last call handles the
ports of a new hub. So the rounds of all hubs come one after the other, and those of one loop are
among them. Endpoints, addresses, speeds and the bits of a port for other changes are left out.
-/
namespace Orcos.Source.Usb
open Lib.ByteMemory

/-- The drivers; `bnrPorts` is from the descriptor of a hub. -/
inductive Driver
  | hub (bnrPorts : Nat)
  | other
  deriving DecidableEq

/-- What comes of an enumeration. -/
inductive Enumerated
  | failed
  | driver (driver : Driver)
  deriving DecidableEq

/-- What a hub reports of a port: what is attached there, and whether that has changed. -/
structure PortStatus where
  attached : Option Nat
  changed : Bool
  deriving DecidableEq

/-- The devices with their members, those deleted among them; `attachment` is what a device was
created for, and `attachments` of these have been attached to a port so far. -/
structure USBTree where
  live : Nat → Bool
  driver : Nat → Option Driver
  portDevices : Nat → Nat → Option Nat
  attachment : Nat → Nat
  next : Nat
  registeredDevices : List (Option Nat)
  port : Nat → Nat → PortStatus
  attachments : Nat
  outside : Bool

namespace USBTree

/-- Before the controller has found anything. -/
def start : USBTree where
  live _ := false
  driver _ := none
  portDevices _ _ := none
  attachment _ := 0
  next := 0
  registeredDevices := List.replicate 10 none
  port _ _ := ⟨none, false⟩
  attachments := 0
  outside := false

variable (s : USBTree)

/-- The number of ports of a hub. -/
def bnrPorts (d : Nat) : Option Nat :=
  match s.live d, s.driver d with
  | true, some (.hub bnrPorts) => some bnrPorts
  | _, _ => none

/-- The device that a hub has on record for a port. -/
def portDevice (h i : Nat) : Option Nat :=
  if (s.bnrPorts h).isSome ∧ i < 6 then s.portDevices h i else none

/-- `~USBDevice` deletes the driver, and `~USBHub` the devices at its ports. -/
def delete : Nat → USBTree → Nat → USBTree
  | 0, s, _ => s
  | fuel + 1, s, d =>
    let s := (List.range 6).foldl (fun t i =>
      match s.portDevice d i with
      | some child => delete fuel t child
      | none => t) s
    { s with live := Function.update s.live d false }

def setPortDevice (h i : Nat) (device : Option Nat) : USBTree :=
  { s with portDevices :=
      Function.update s.portDevices h (Function.update (s.portDevices h) i device) }

/-- The driver is taken from the table of the controller, if there is one. -/
def unregister (d : Nat) : USBTree :=
  match s.driver d with
  | some _ => { s with registeredDevices := unregisterDevice s.registeredDevices d }
  | none => s

/-- The device on record for a port is deleted. -/
def removeDevice (h i : Nat) : USBTree :=
  match s.portDevice h i with
  | some d => (delete s.next (s.unregister d) d).setPortDevice h i none
  | none => s

/-- `createDevice`; a device with this number. -/
def createDevice (attachment : Nat) : USBTree :=
  { s with
    live := Function.update s.live s.next true
    driver := Function.update s.driver s.next none
    portDevices := Function.update s.portDevices s.next fun _ => none
    attachment := Function.update s.attachment s.next attachment
    next := s.next + 1 }

/-- What `enumerateDevice` does to a device. -/
def enumerate (d : Nat) : Enumerated → USBTree
  | .failed => s
  | .driver driver => { s with
      driver := Function.update s.driver d (some driver)
      registeredDevices := registerDevice s.registeredDevices d }

/-- The device that is attached to a port gets its object. -/
def attachDevice (h i attachment : Nat) (enumerated : Enumerated) : USBTree :=
  ((s.createDevice attachment).setPortDevice h i (some s.next)).enumerate s.next enumerated

def setStatus (h i : Nat) (status : PortStatus) : USBTree :=
  { s with port := Function.update s.port h (Function.update (s.port h) i status) }

/-- The requests of a round that succeed, and what comes of the enumeration. -/
structure PortAnswers where
  getPortStatus : Bool
  clearPortFeature : Bool
  resetPort : Bool
  enumerated : Enumerated
  deriving DecidableEq

/-- The ports whose bit a byte has room for. -/
def InLoop (h i : Nat) : Prop :=
  ∃ bnrPorts, s.bnrPorts h = some bnrPorts ∧ 1 ≤ i ∧ i ≤ bnrPorts ∧ i < 8

instance (h i : Nat) : Decidable (s.InLoop h i) :=
  match ports : s.bnrPorts h with
  | some bnrPorts => decidable_of_iff (1 ≤ i ∧ i ≤ bnrPorts ∧ i < 8) (by simp [InLoop, ports])
  | none => .isFalse (by simp [InLoop, ports])

/-- A round of the loop of `handleStatusChange`. Beyond the record for six ports `outside` is
set. -/
def handlePort (h i : Nat) (a : PortAnswers) : USBTree :=
  let status := s.port h i
  if a.getPortStatus ∧ status.changed ∧ a.clearPortFeature then
    let s := s.setStatus h i { status with changed := false }
    match status.attached with
    | some attachment =>
      if a.resetPort then
        if i < 6 then (s.removeDevice h i).attachDevice h i attachment a.enumerated
        else { s with outside := true }
      else s
    | none => if i < 6 then s.removeDevice h i else { s with outside := true }
  else s

/-- What happens: the controller finds a device at one of its own ports, something is attached to a
port of a hub or detached, and a hub handles a port. -/
inductive Event
  | root (enumerated : Enumerated)
  | attach (h i : Nat)
  | detach (h i : Nat)
  | handlePort (h i : Nat) (answers : PortAnswers)
  deriving DecidableEq

def step : Event → USBTree
  | .root enumerated =>
    { (s.createDevice s.attachments).enumerate s.next enumerated with
      attachments := s.attachments + 1 }
  | .attach h i =>
    { s.setStatus h i ⟨some s.attachments, true⟩ with attachments := s.attachments + 1 }
  | .detach h i => s.setStatus h i ⟨none, true⟩
  | .handlePort h i answers => if s.InLoop h i then s.handlePort h i answers else s

section Members

variable (s : USBTree) (h i : Nat)

theorem port_setStatus (status : PortStatus) (h' i' : Nat) :
    (s.setStatus h i status).port h' i' = if h' = h ∧ i' = i then status else s.port h' i' := by
  unfold setStatus
  dsimp only
  rw [Function.update_apply]
  split
  case isTrue hub =>
    subst hub
    rw [Function.update_apply]
    simp only [true_and]
  case isFalse other => exact (if_neg fun both => other both.1).symm

theorem portDevice_setPortDevice (device : Option Nat) (h' i' : Nat) :
    (s.setPortDevice h i device).portDevice h' i' =
      if h' = h ∧ i' = i then if (s.bnrPorts h).isSome ∧ i < 6 then device else none
      else s.portDevice h' i' := by
  have ports : (s.setPortDevice h i device).bnrPorts h' = s.bnrPorts h' := rfl
  rw [portDevice, ports, setPortDevice]
  dsimp only
  by_cases hub : h' = h
  · subst hub
    rw [Function.update_self, Function.update_apply, portDevice]
    by_cases there : i' = i
    · subst there
      rw [if_pos rfl, if_pos (show h' = h' ∧ i' = i' from ⟨rfl, rfl⟩)]
    · rw [if_neg there, if_neg (show ¬(h' = h' ∧ i' = i) from fun both => there both.2)]
  · rw [Function.update_of_ne hub, if_neg (show ¬(h' = h ∧ i' = i) from fun both => hub both.1)]
    rfl

variable {s}

theorem bnrPorts_createDevice (fresh : s.live s.next = false) (attachment : Nat) :
    (s.createDevice attachment).bnrPorts h = s.bnrPorts h := by
  unfold bnrPorts createDevice
  dsimp only
  by_cases new : h = s.next
  · subst new
    rw [Function.update_self, Function.update_self, fresh]
  · rw [Function.update_of_ne new, Function.update_of_ne new]

/-- A new device is no hub yet. -/
theorem portDevice_createDevice (fresh : s.live s.next = false) (attachment : Nat) :
    (s.createDevice attachment).portDevice h i = s.portDevice h i := by
  rw [portDevice, portDevice, bnrPorts_createDevice h fresh]
  by_cases new : h = s.next
  · have none : s.bnrPorts h = none := by rw [bnrPorts, new, fresh]
    simp [none]
  · have same : (s.createDevice attachment).portDevices h = s.portDevices h :=
      Function.update_of_ne new ..
    rw [same]

/-- A new hub has nothing on record. -/
theorem portDevice_enumerate {d : Nat} (empty : ∀ i, s.portDevices d i = none)
    (enumerated : Enumerated) : (s.enumerate d enumerated).portDevice h i = s.portDevice h i := by
  cases enumerated with
  | failed => rfl
  | driver driver =>
    by_cases here : h = d
    · rw [portDevice, portDevice, here]
      have none : (s.enumerate d (.driver driver)).portDevices d i = none := empty i
      rw [none, empty, ite_self, ite_self]
    · have same : (s.enumerate d (.driver driver)).driver h = s.driver h :=
        Function.update_of_ne here ..
      rw [portDevice, portDevice, bnrPorts, bnrPorts, same]
      rfl

end Members

section Table

variable {t : List (Option Nat)} {d x : Nat}

theorem registered_of_registerDevice (member : some x ∈ registerDevice t d) :
    x = d ∨ some x ∈ t := by
  induction t with
  | nil => cases member
  | cons entry rest ih =>
    cases entry with
    | none =>
      rcases List.mem_cons.mp member with same | later
      · exact .inl (Option.some.inj same)
      · exact .inr (.tail _ later)
    | some other =>
      rcases List.mem_cons.mp member with same | later
      · exact .inr (same ▸ .head _)
      · exact (ih later).imp_right (.tail _)

theorem registerDevice_keeps (member : some x ∈ t) : some x ∈ registerDevice t d := by
  induction t with
  | nil => cases member
  | cons entry rest ih =>
    cases entry with
    | none => exact .tail _ ((List.mem_cons.mp member).resolve_left nofun)
    | some other =>
      rcases List.mem_cons.mp member with same | later
      · exact same ▸ .head _
      · exact .tail _ (ih later)

theorem registered_of_unregisterDevice (member : some x ∈ unregisterDevice t d) : some x ∈ t := by
  induction t with
  | nil => cases member
  | cons entry rest ih =>
    rw [unregisterDevice] at member
    split at member
    · exact .tail _ ((List.mem_cons.mp member).resolve_left nofun)
    · rcases List.mem_cons.mp member with same | later
      · exact same ▸ .head _
      · exact .tail _ (ih later)

theorem unregisterDevice_keeps (other : x ≠ d) (member : some x ∈ t) :
    some x ∈ unregisterDevice t d := by
  induction t with
  | nil => cases member
  | cons entry rest ih =>
    rw [unregisterDevice]
    split
    case isTrue here =>
      rcases List.mem_cons.mp member with same | later
      · exact absurd (Option.some.inj (same.trans here)) other
      · exact .tail _ later
    case isFalse =>
      rcases List.mem_cons.mp member with same | later
      · exact same ▸ .head _
      · exact .tail _ (ih later)

/-- Each driver is in the table once. -/
def Once (t : List (Option Nat)) : Prop := t.Pairwise fun a b => a = none ∨ b ≠ a

theorem Once.registerDevice (once : Once t) (absent : some d ∉ t) : Once (registerDevice t d) := by
  induction t with
  | nil => exact once
  | cons entry rest ih =>
    obtain ⟨first, later⟩ := List.pairwise_cons.mp once
    cases entry with
    | none =>
      apply List.pairwise_cons.mpr
      refine ⟨fun b member => .inr fun same => absent (.tail _ (same ▸ member)), later⟩
    | some other =>
      apply List.pairwise_cons.mpr
      refine ⟨fun b member => .inr ?_, ih later fun member => absent (.tail _ member)⟩
      rintro rfl
      rcases registered_of_registerDevice member with same | before
      · exact absent (same ▸ .head _)
      · exact ((first _ before).resolve_left nofun) rfl

theorem Once.unregisterDevice (once : Once t) :
    Once (unregisterDevice t d) ∧ some d ∉ unregisterDevice t d := by
  induction t with
  | nil => exact ⟨once, nofun⟩
  | cons entry rest ih =>
    obtain ⟨first, later⟩ := List.pairwise_cons.mp once
    obtain ⟨still, gone⟩ := ih later
    rw [Usb.unregisterDevice]
    split
    case isTrue here =>
      refine ⟨List.pairwise_cons.mpr ⟨fun _ _ => .inl rfl, later⟩, fun member => ?_⟩
      have stored := (List.mem_cons.mp member).resolve_left nofun
      rw [here] at first
      exact ((first _ stored).resolve_left nofun) rfl
    case isFalse other =>
      refine ⟨List.pairwise_cons.mpr ⟨fun b member => ?_, still⟩, fun member => ?_⟩
      · cases b with
        | none => exact (Option.eq_none_or_eq_some entry).imp_right fun ⟨_, same⟩ => same ▸ nofun
        | some x => exact first _ (registered_of_unregisterDevice member)
      · exact (List.mem_cons.mp member).elim (fun same => other same.symm) gone

end Table

section Deletion

variable {s t : USBTree} {d h i : Nat} {gone gone' : Nat → Prop}

/-- A hub has the device on record. -/
def Child (s : USBTree) (h c : Nat) : Prop := ∃ i, s.portDevice h i = some c

/-- The device and those below it. -/
def Below (s : USBTree) : Nat → Nat → Prop := Relation.ReflTransGen s.Child

/-- Children come after their parents. -/
def Ranked (s : USBTree) : Prop := ∀ h c, s.Child h c → h < c ∧ c < s.next

/-- These devices were deleted, and nothing else was done. -/
structure Removed (s t : USBTree) (gone : Nat → Prop) : Prop where
  dead : ∀ x, gone x → t.live x = false
  kept : ∀ x, ¬gone x → t.live x = s.live x
  same : t = { s with live := t.live }

theorem Removed.congr (removed : Removed s t gone) (iff : ∀ x, gone x ↔ gone' x) :
    Removed s t gone' :=
  ⟨fun x here => removed.dead x ((iff x).mpr here),
    fun x away => removed.kept x (mt (iff x).mp away),
    removed.same⟩

theorem Removed.trans {u : USBTree} (first : Removed s t gone) (second : Removed t u gone') :
    Removed s u fun x => gone x ∨ gone' x := by
  refine ⟨fun x here => ?_, fun x away => ?_, ?_⟩
  · by_cases later : gone' x
    · exact second.dead x later
    · rw [second.kept x later]
      exact first.dead x (here.resolve_right later)
  · rw [not_or] at away
    rw [second.kept x away.2, first.kept x away.1]
  · rw [second.same, first.same]

theorem Removed.portDevice_gone (removed : Removed s t gone) (here : gone h) :
    t.portDevice h i = none := by
  have none : t.bnrPorts h = none := by rw [bnrPorts, removed.dead h here]
  rw [portDevice, none]
  exact if_neg fun both => nomatch both.1

theorem Removed.portDevice_kept (removed : Removed s t gone) (away : ¬gone h) :
    t.portDevice h i = s.portDevice h i := by
  have driver : t.driver = s.driver := by rw [removed.same]
  have portDevices : t.portDevices = s.portDevices := by rw [removed.same]
  have ports : t.bnrPorts h = s.bnrPorts h := by
    rw [bnrPorts, bnrPorts, driver, removed.kept h away]
  rw [portDevice, portDevice, ports, portDevices]

theorem Removed.child (removed : Removed s t gone) {c : Nat} (child : t.Child h c) :
    s.Child h c := by
  obtain ⟨i, record⟩ := child
  by_cases here : gone h
  · rw [removed.portDevice_gone here] at record
    cases record
  · rw [removed.portDevice_kept here] at record
    exact ⟨i, record⟩

theorem Removed.ranked (removed : Removed s t gone) (ranked : s.Ranked) : t.Ranked := by
  intro h c child
  have next : t.next = s.next := by rw [removed.same]
  rw [next]
  exact ranked h c (removed.child child)

/-- What is deleted below a device while others were deleted before. -/
theorem Removed.below (removed : Removed s t gone)
    (closed : ∀ x y, gone x → s.Child x y → gone y) (x : Nat) :
    gone x ∨ t.Below d x ↔ gone x ∨ s.Below d x := by
  constructor
  · exact fun either => either.imp_right (Relation.ReflTransGen.mono (fun _ _ => removed.child) _ _)
  · rintro (before | below)
    · exact .inl before
    · induction below using Relation.ReflTransGen.head_induction_on with
      | refl => exact .inr .refl
      | @head h c child below ih =>
        rcases ih with before | later
        · exact .inl before
        · by_cases here : gone h
          · left
            exact below.rec (closed h c here child) fun _ step before => closed _ _ before step
          · right
            obtain ⟨i, record⟩ := child
            apply Relation.ReflTransGen.head ⟨i, ?_⟩ later
            rw [removed.portDevice_kept here]
            exact record

/-- A device is deleted with all that is below it. -/
theorem delete_removed (fuel : Nat) (ranked : s.Ranked) (known : d < s.next)
    (enough : s.next ≤ d + fuel) : Removed s (delete fuel s d) (s.Below d) := by
  induction fuel generalizing s d with
  | zero => omega
  | succ fuel ih =>
    have ports : ∀ (l : List Nat) (t : USBTree) (gone : Nat → Prop), Removed s t gone →
        (∀ x y, gone x → s.Child x y → gone y) →
        Removed s (l.foldl (fun t i =>
            match s.portDevice d i with
            | some child => delete fuel t child
            | none => t) t)
          fun x => gone x ∨ ∃ i ∈ l, ∃ c, s.portDevice d i = some c ∧ s.Below c x := by
      intro l
      induction l with
      | nil =>
        intro t gone removed closed
        exact removed.congr fun x => by simp
      | cons i l rest =>
        intro t gone removed closed
        rw [List.foldl_cons]
        cases record : s.portDevice d i with
        | none =>
          apply (rest t gone removed closed).congr
          intro x
          simp [record]
        | some c =>
          obtain ⟨above, inside⟩ := ranked d c ⟨i, record⟩
          have next : t.next = s.next := by rw [removed.same]
          have deleted := ih (removed.ranked ranked) (d := c) (by omega) (by omega)
          have both := (removed.trans deleted).congr (removed.below closed)
          apply (rest _ _ both ?_).congr
          · intro x
            simp [record, or_assoc]
          · intro x y here child
            exact here.imp (fun before => closed x y before child) fun below => below.tail child
    have removed := ports (List.range 6) s (fun _ => False) ⟨nofun, fun _ _ => rfl, rfl⟩ nofun
    rw [delete]
    generalize (List.range 6).foldl _ s = t at removed
    refine ⟨fun x below => ?_, fun x away => ?_, ?_⟩
    · dsimp only
      rw [Function.update_apply]
      split
      case isTrue => rfl
      case isFalse other =>
        apply removed.dead
        rcases below.cases_head with same | ⟨c, ⟨i, record⟩, below⟩
        · exact absurd same.symm other
        · have inside : i < 6 := by
            rw [portDevice] at record
            split at record
            case isTrue both => exact both.2
            case isFalse => cases record
          exact .inr ⟨i, List.mem_range.mpr inside, c, record, below⟩
    · dsimp only
      rw [Function.update_of_ne fun same => away (by rw [same]; exact .refl)]
      apply removed.kept
      rintro (none | ⟨i, _, c, record, below⟩)
      · exact none
      · exact away (.head ⟨i, record⟩ below)
    · rw [removed.same]

theorem unregister_eq (s : USBTree) (d : Nat) :
    s.unregister d = { s with registeredDevices := (s.unregister d).registeredDevices } := by
  unfold unregister
  split <;> rfl

/-- The device on record for a port is removed with all that is below it. -/
theorem removeDevice_eq (ranked : s.Ranked) (record : s.portDevice h i = some d) :
    ∃ t, Removed s t (s.Below d) ∧ s.removeDevice h i =
      { t with
        registeredDevices := (s.unregister d).registeredDevices }.setPortDevice h i none := by
  have child : (s.unregister d).Child = s.Child := by rw [unregister_eq]; rfl
  have below : (s.unregister d).Below = s.Below := by rw [Below, child]; rfl
  have next : (s.unregister d).next = s.next := by rw [unregister_eq]
  have removed := delete_removed (s := s.unregister d) (d := d) s.next
    (fun h c => by rw [child, next]; exact ranked h c)
    (by rw [next]; exact (ranked h d ⟨i, record⟩).2)
    (by rw [next]; exact Nat.le_add_left ..)
  rw [below] at removed
  have live : (s.unregister d).live = s.live := by rw [unregister_eq]
  refine ⟨{ s with live := (delete s.next (s.unregister d) d).live },
    ⟨removed.dead, fun x away => ?_, rfl⟩, ?_⟩
  · rw [← live]
    exact removed.kept x away
  · have same := removed.same
    rw [removeDevice, record]
    dsimp only
    generalize delete s.next (s.unregister d) d = u at same
    have whole : u = { s with
        live := u.live
        registeredDevices := (s.unregister d).registeredDevices } :=
      same.trans (congrArg (fun t : USBTree => { t with live := u.live }) (unregister_eq s d))
    exact congrArg (·.setPortDevice h i none) whole

end Deletion

end USBTree

end Orcos.Source.Usb
