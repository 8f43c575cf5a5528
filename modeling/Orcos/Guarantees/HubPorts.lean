import Orcos.Lib.Runs
import Orcos.Source.Usb.USBHub

/-!
# Hubs, their ports and the registered devices

Source: src/source/arch/shared/usb/USBHub.cc, `handleStatusChange`, `~USBHub`; USBDevice.cc,
`~USBDevice`; USBHostController.cc, `registerDevice`, `unregisterDevice`.

The driver of a device that is removed is taken from the table, but not the drivers below a hub
that is removed with them. The array of a hub has six places while its descriptor tells the number
of ports. A device whose port cannot be reset keeps the place of the one before.
-/
namespace Orcos.Guarantees.HubPorts
open Lib.Runs Source.Usb Source.Usb.USBTree

/-- No deleted driver is registered; a port that has not changed has the device on record that is
attached to it, or none; and the array was not left. -/
structure Consistent (s : USBTree) : Prop where
  registered : ∀ d, some d ∈ s.registeredDevices → s.live d = true ∧ s.driver d ≠ none
  ports : ∀ h i d, s.portDevice h i = some d → (s.port h i).changed = false →
    s.live d = true ∧ (s.port h i).attached = some (s.attachment d)
  inside : s.outside = false

/-- No driver is registered of a device below. -/
def Clear (s : USBTree) (d : Nat) : Prop :=
  ∀ x, s.Below d x → x ≠ d → some x ∉ s.registeredDevices

/-- A round that comes to what is attached. -/
def Reaches (s : USBTree) (h i : Nat) (a : PortAnswers) : Prop :=
  s.InLoop h i ∧ a.getPortStatus = true ∧ (s.port h i).changed = true ∧ a.clearPortFeature = true

/-- The array has the port, and what is on record for it can be removed. -/
def Replaceable (s : USBTree) (h i : Nat) : Prop :=
  i < 6 ∧ ∀ d, s.portDevice h i = some d → Clear s d

/-- A port is replaceable when it is handled, and has no device on record when it cannot be
reset. -/
def Orderly (s : USBTree) : Event → Prop
  | .handlePort h i a => Reaches s h i a →
    if (s.port h i).attached = none ∨ a.resetPort = true then Replaceable s h i
    else s.portDevice h i = none
  | _ => True

section Invariant

/-- The devices form a tree, and those with a registered driver are in it. -/
structure Tree (s : USBTree) : Prop where
  fresh : ∀ d, s.next ≤ d → s.live d = false
  child : ∀ h i c, s.portDevice h i = some c → h < c ∧ s.live c = true
  owner : ∀ h i h' i' c, s.portDevice h i = some c → s.portDevice h' i' = some c →
    h' = h ∧ i' = i
  registered : ∀ d, some d ∈ s.registeredDevices → s.live d = true ∧ s.driver d ≠ none
  once : Once s.registeredDevices
  attachment : ∀ d, s.live d = true → s.attachment d < s.attachments
  attached : ∀ h i attachment, (s.port h i).attached = some attachment → attachment < s.attachments
  inside : s.outside = false

/-- The device on record is attached to the port, or it was before the port changed. -/
def Named (s : USBTree) (h i : Nat) : Prop := ∀ c, s.portDevice h i = some c →
  if (s.port h i).changed then (s.port h i).attached ≠ some (s.attachment c)
  else (s.port h i).attached = some (s.attachment c)

structure Sound (s : USBTree) : Prop where
  tree : Tree s
  named : ∀ h i, Named s h i

variable {s t : USBTree} {d h i : Nat}

theorem sound_start : Sound start := by
  have none : ∀ h i, start.portDevice h i = none := fun h i => by
    rw [portDevice, bnrPorts]
    exact if_neg fun both => Bool.false_ne_true both.1
  refine ⟨⟨fun _ _ => rfl, fun h i c record => ?_, fun h i _ _ c record => ?_, fun d member => ?_,
    ?_, fun d live => ?_, fun h i n attached => ?_, rfl⟩, fun h i c record => ?_⟩
  · rw [none] at record
    cases record
  · rw [none] at record
    cases record
  · cases List.eq_of_mem_replicate member
  · exact List.pairwise_replicate.mpr (.inr (.inl rfl))
  · cases live
  · cases attached
  · rw [none] at record
    cases record

theorem Sound.consistent (sound : Sound s) : Consistent s := by
  refine ⟨sound.tree.registered, fun h i d record same => ?_, sound.tree.inside⟩
  have named := sound.named h i d record
  rw [same] at named
  exact ⟨(sound.tree.child h i d record).2, named⟩

theorem Tree.ranked (tree : Tree s) : s.Ranked := by
  rintro h c ⟨i, record⟩
  obtain ⟨below, live⟩ := tree.child h i c record
  refine ⟨below, Nat.lt_of_not_le fun late => ?_⟩
  rw [tree.fresh c late] at live
  cases live

theorem Tree.below_le (tree : Tree s) {x : Nat} (below : s.Below d x) : d ≤ x := by
  induction below with
  | refl => exact Nat.le_refl d
  | tail _ child ih => exact ih.trans (tree.ranked _ _ child).1.le

/-- A device that is on record or registered has been created. -/
theorem Tree.lt_next (tree : Tree s) (live : s.live d = true) : d < s.next := by
  apply Nat.lt_of_not_le
  intro late
  rw [tree.fresh d late] at live
  cases live

theorem bnrPorts_live (hub : (s.bnrPorts h).isSome = true) : s.live h = true := by
  rw [bnrPorts] at hub
  split at hub
  case h_1 live _ => exact live
  case h_2 => cases hub

/-- Only the status of a port is set. -/
theorem Tree.setStatus (tree : Tree s) {status : PortStatus}
    (attached : ∀ attachment, status.attached = some attachment → attachment < s.attachments) :
    Tree (s.setStatus h i status) := by
  refine ⟨tree.fresh, tree.child, tree.owner, tree.registered, tree.once, tree.attachment, ?_,
    tree.inside⟩
  intro h' i' attachment
  rw [port_setStatus]
  split
  · exact attached attachment
  · exact tree.attached h' i' attachment

/-- More has been attached to the ports. -/
theorem Tree.attachments (tree : Tree s) {attachments : Nat} (more : s.attachments ≤ attachments) :
    Tree { s with attachments := attachments } :=
  ⟨tree.fresh, tree.child, tree.owner, tree.registered, tree.once,
    fun d live => (tree.attachment d live).trans_le more,
    fun h i attachment attached => (tree.attached h i attachment attached).trans_le more,
    tree.inside⟩

theorem Tree.createDevice (tree : Tree s) {attachment : Nat} (known : attachment < s.attachments) :
    Tree (s.createDevice attachment) := by
  have fresh := tree.fresh s.next (Nat.le_refl _)
  have same : ∀ h i, (s.createDevice attachment).portDevice h i = s.portDevice h i :=
    fun h i => portDevice_createDevice h i fresh attachment
  have old : ∀ d, s.live d = true → d ≠ s.next := fun d live => (tree.lt_next live).ne
  refine ⟨fun d late => ?_, fun h i c record => ?_, fun h i h' i' c record record' => ?_,
    fun d member => ?_, tree.once, fun d live => ?_, tree.attached, tree.inside⟩
  · have other : d ≠ s.next := (Nat.lt_of_succ_le late).ne'
    exact (Function.update_of_ne other ..).trans (tree.fresh d (Nat.le_of_succ_le late))
  · rw [same] at record
    obtain ⟨below, live⟩ := tree.child h i c record
    exact ⟨below, (Function.update_of_ne (old c live) ..).trans live⟩
  · rw [same] at record record'
    exact tree.owner h i h' i' c record record'
  · obtain ⟨live, driver⟩ := tree.registered d member
    refine ⟨(Function.update_of_ne (old d live) ..).trans live, ?_⟩
    have kept : (s.createDevice attachment).driver d = s.driver d :=
      Function.update_of_ne (old d live) ..
    rw [kept]
    exact driver
  · unfold USBTree.createDevice at live ⊢
    dsimp only at live ⊢
    rw [Function.update_apply] at live ⊢
    split
    case isTrue => exact known
    case isFalse other =>
      rw [if_neg other] at live
      exact tree.attachment d live

/-- The driver of a device that had none. -/
theorem Tree.enumerate (tree : Tree s) (live : s.live d = true)
    (absent : some d ∉ s.registeredDevices)
    (empty : ∀ i, s.portDevices d i = none) (enumerated : Enumerated) :
    Tree (s.enumerate d enumerated) := by
  have same : ∀ h i, (s.enumerate d enumerated).portDevice h i = s.portDevice h i :=
    fun h i => portDevice_enumerate h i empty enumerated
  cases enumerated with
  | failed => exact tree
  | driver driver =>
    refine ⟨tree.fresh, fun h i c record => ?_, fun h i h' i' c record record' => ?_,
      fun x member => ?_, tree.once.registerDevice absent, tree.attachment, tree.attached,
      tree.inside⟩
    · rw [same] at record
      exact tree.child h i c record
    · rw [same] at record record'
      exact tree.owner h i h' i' c record record'
    · unfold USBTree.enumerate at member ⊢
      dsimp only at member ⊢
      rw [Function.update_apply]
      rcases registered_of_registerDevice member with rfl | before
      · exact ⟨live, by simp⟩
      · obtain ⟨alive, some⟩ := tree.registered x before
        refine ⟨alive, ?_⟩
        split
        · simp
        · exact some

/-- A device that is on record nowhere is put on record. -/
theorem Tree.setPortDevice (tree : Tree s) {c : Nat} (below : h < c) (live : s.live c = true)
    (nowhere : ∀ h' i', s.portDevice h' i' ≠ some c) : Tree (s.setPortDevice h i (some c)) := by
  have records : ∀ h' i' x, (s.setPortDevice h i (some c)).portDevice h' i' = some x →
      (h' = h ∧ i' = i ∧ x = c) ∨ (x ≠ c ∧ s.portDevice h' i' = some x) := by
    intro h' i' x record
    rw [portDevice_setPortDevice] at record
    split at record
    case isTrue here =>
      split at record
      · exact .inl ⟨here.1, here.2, (Option.some.inj record).symm⟩
      · cases record
    case isFalse => exact .inr ⟨fun same => nowhere h' i' (same ▸ record), record⟩
  refine ⟨tree.fresh, fun h' i' x record => ?_, fun h₁ i₁ h₂ i₂ x record record' => ?_,
    tree.registered, tree.once, tree.attachment, tree.attached, tree.inside⟩
  · rcases records h' i' x record with ⟨rfl, _, rfl⟩ | ⟨_, before⟩
    · exact ⟨below, live⟩
    · exact tree.child h' i' x before
  · rcases records h₁ i₁ x record with ⟨rfl, rfl, rfl⟩ | ⟨other, before⟩
    · rcases records h₂ i₂ x record' with ⟨rfl, rfl, _⟩ | ⟨other, _⟩
      · exact ⟨rfl, rfl⟩
      · exact absurd rfl other
    · rcases records h₂ i₂ x record' with ⟨_, _, same⟩ | ⟨_, before'⟩
      · exact absurd same other
      · exact tree.owner h₁ i₁ h₂ i₂ x before before'

end Invariant

section Operations

variable {s : USBTree} {d h i attachment : Nat}

/-- A device for what is attached to a port of a hub. -/
theorem Tree.attachDevice (tree : Tree s) (hub : (s.bnrPorts h).isSome = true) (inside : i < 6)
    (known : attachment < s.attachments) (enumerated : Enumerated) :
    Tree (s.attachDevice h i attachment enumerated) ∧
      ∀ h' i', (s.attachDevice h i attachment enumerated).portDevice h' i' =
        if h' = h ∧ i' = i then some s.next else s.portDevice h' i' := by
  have fresh := tree.fresh s.next (Nat.le_refl _)
  have same : ∀ h i, (s.createDevice attachment).portDevice h i = s.portDevice h i :=
    fun h i => portDevice_createDevice h i fresh attachment
  have created : (s.createDevice attachment).live s.next = true := Function.update_self ..
  have above : h < s.next := tree.lt_next (bnrPorts_live hub)
  have nowhere : ∀ h' i', (s.createDevice attachment).portDevice h' i' ≠ some s.next := by
    intro h' i' record
    rw [same] at record
    have live := (tree.child h' i' _ record).2
    rw [fresh] at live
    cases live
  have empty : ∀ i', ((s.createDevice attachment).setPortDevice h i (some s.next)).portDevices
      s.next i' = none := by
    intro i'
    have kept : ((s.createDevice attachment).setPortDevice h i (some s.next)).portDevices s.next =
        (s.createDevice attachment).portDevices s.next := Function.update_of_ne above.ne' ..
    have none : (s.createDevice attachment).portDevices s.next = fun _ => none :=
      Function.update_self ..
    rw [kept, none]
  have absent : some s.next ∉ s.registeredDevices := by
    intro member
    have live := (tree.registered _ member).1
    rw [fresh] at live
    cases live
  have recorded := (tree.createDevice known).setPortDevice (i := i) above created nowhere
  refine ⟨recorded.enumerate created absent empty enumerated, fun h' i' => ?_⟩
  rw [USBTree.attachDevice, portDevice_enumerate h' i' empty, portDevice_setPortDevice,
    bnrPorts_createDevice h fresh, same, if_pos (show _ ∧ i < 6 from ⟨hub, inside⟩)]

/-- The driver of a device is not registered any more. -/
theorem Tree.unregister (tree : Tree s) (d : Nat) :
    Tree (s.unregister d) ∧ some d ∉ (s.unregister d).registeredDevices := by
  unfold USBTree.unregister
  cases stored : s.driver d with
  | none => exact ⟨tree, fun member => (tree.registered d member).2 stored⟩
  | some driver =>
    obtain ⟨once, absent⟩ := tree.once.unregisterDevice (d := d)
    exact ⟨⟨tree.fresh, tree.child, tree.owner,
      fun x member => tree.registered x (registered_of_unregisterDevice member), once,
      tree.attachment, tree.attached, tree.inside⟩, absent⟩

theorem registered_of_unregister {x : Nat}
    (member : some x ∈ (s.unregister d).registeredDevices) : some x ∈ s.registeredDevices := by
  unfold USBTree.unregister at member
  split at member
  · exact registered_of_unregisterDevice member
  · exact member

theorem unregister_keeps {x : Nat} (other : x ≠ d) (member : some x ∈ s.registeredDevices) :
    some x ∈ (s.unregister d).registeredDevices := by
  unfold USBTree.unregister
  split
  · exact unregisterDevice_keeps other member
  · exact member

/-- What is on record after the removal. -/
theorem Tree.removeDevice_portDevice (tree : Tree s) (record : s.portDevice h i = some d)
    {h' i' c : Nat}
    (record' : (s.removeDevice h i).portDevice h' i' = some c) :
    ¬(h' = h ∧ i' = i) ∧ ¬s.Below d h' ∧ s.portDevice h' i' = some c := by
  obtain ⟨t, removed, same⟩ := removeDevice_eq tree.ranked record
  rw [same, portDevice_setPortDevice] at record'
  split at record'
  · rw [ite_self] at record'
    cases record'
  · rename_i other
    have kept : t.portDevice h' i' = some c := record'
    by_cases gone : s.Below d h'
    · rw [removed.portDevice_gone gone] at kept
      cases kept
    · rw [removed.portDevice_kept gone] at kept
      exact ⟨other, gone, kept⟩

theorem Tree.removeDevice (tree : Tree s) (record : s.portDevice h i = some d) (clear : Clear s d) :
    Tree (s.removeDevice h i) ∧ (s.removeDevice h i).bnrPorts h = s.bnrPorts h := by
  obtain ⟨unregistered, absent⟩ := tree.unregister d
  have records : ∀ h' i' c, (s.removeDevice h i).portDevice h' i' = some c →
      ¬(h' = h ∧ i' = i) ∧ ¬s.Below d h' ∧ s.portDevice h' i' = some c :=
    fun h' i' c => tree.removeDevice_portDevice record
  obtain ⟨t, removed, same⟩ := removeDevice_eq tree.ranked record
  have survives : ¬s.Below d h := fun below =>
    absurd (tree.below_le below) (Nat.not_le.mpr (tree.child h i d record).1)
  have lives : ∀ x, t.live x = true → s.live x = true := by
    intro x live
    by_cases gone : s.Below d x
    · rw [removed.dead x gone] at live
      cases live
    · rw [← removed.kept x gone]
      exact live
  rw [same] at records ⊢
  refine ⟨⟨fun x late => ?_, fun h' i' c record' => ?_, fun h₁ i₁ h₂ i₂ c record₁ record₂ => ?_,
    fun x member => ?_, unregistered.once, fun x live => ?_, ?_, ?_⟩, ?_⟩
  · have next : t.next = s.next := by rw [removed.same]
    have late : t.next ≤ x := late
    rw [next] at late
    apply Bool.eq_false_iff.mpr
    intro live
    have before := tree.fresh x late
    rw [lives x live] at before
    cases before
  · obtain ⟨other, gone, before⟩ := records h' i' c record'
    obtain ⟨below, live⟩ := tree.child h' i' c before
    refine ⟨below, (removed.kept c fun under => ?_).trans live⟩
    -- the device itself has one owner, and one below it has its owner below
    rcases under.cases_tail with here | ⟨p, above, ⟨j, child⟩⟩
    · subst here
      exact other (tree.owner h i h' i' _ record before)
    · have owner := tree.owner h' i' p j c before child
      exact gone (owner.1 ▸ above)
  · exact tree.owner h₁ i₁ h₂ i₂ c (records h₁ i₁ c record₁).2.2 (records h₂ i₂ c record₂).2.2
  · have member : some x ∈ (s.unregister d).registeredDevices := member
    obtain ⟨live, driver⟩ := tree.registered x (registered_of_unregister member)
    have other : x ≠ d := fun here => absent (here ▸ member)
    have drivers : t.driver = s.driver := by rw [removed.same]
    refine ⟨(removed.kept x fun below => ?_).trans live, ?_⟩
    · exact clear x below other (registered_of_unregister member)
    · exact (congrFun drivers x).trans_ne driver
  · have before := tree.attachment x (lives x live)
    rw [removed.same]
    exact before
  · rw [removed.same]
    exact tree.attached
  · rw [removed.same]
    exact tree.inside
  · have drivers : t.driver = s.driver := by rw [removed.same]
    have ports : t.bnrPorts h = s.bnrPorts h := by
      rw [bnrPorts, bnrPorts, drivers, removed.kept h survives]
    exact ports

/-- A driver below the device that is removed stays registered. -/
theorem Tree.left_registered (tree : Tree s) (record : s.portDevice h i = some d) {x : Nat}
    (below : s.Below d x) (other : x ≠ d) (member : some x ∈ s.registeredDevices) :
    some x ∈ (s.removeDevice h i).registeredDevices ∧ (s.removeDevice h i).live x = false := by
  obtain ⟨t, removed, same⟩ := removeDevice_eq tree.ranked record
  rw [same]
  exact ⟨unregister_keeps other member, removed.dead x below⟩

/-- The port has nothing on record any more, and the other ports are as before. -/
structure Emptied (s t : USBTree) (h i : Nat) : Prop where
  tree : Tree t
  hub : t.bnrPorts h = s.bnrPorts h
  portDevice : ∀ h' i' c, t.portDevice h' i' = some c →
    ¬(h' = h ∧ i' = i) ∧ s.portDevice h' i' = some c
  port : t.port = s.port
  attachment : t.attachment = s.attachment
  attachments : t.attachments = s.attachments

theorem Tree.emptied (tree : Tree s) (clear : ∀ d, s.portDevice h i = some d → Clear s d) :
    Emptied s (s.removeDevice h i) h i := by
  cases record : s.portDevice h i with
  | none =>
    have same : s.removeDevice h i = s := by rw [USBTree.removeDevice, record]
    rw [same]
    refine ⟨tree, rfl, fun h' i' c record' => ⟨?_, record'⟩, rfl, rfl, rfl⟩
    rintro ⟨rfl, rfl⟩
    rw [record] at record'
    cases record'
  | some d =>
    obtain ⟨after, hub⟩ := tree.removeDevice record (clear d record)
    refine ⟨after, hub, fun h' i' c record' => ?_, ?_, ?_, ?_⟩
    · obtain ⟨other, _, before⟩ := tree.removeDevice_portDevice record record'
      exact ⟨other, before⟩
    all_goals
      obtain ⟨t, removed, same⟩ := removeDevice_eq tree.ranked record
      rw [same, removed.same]
      rfl

theorem attachDevice_port (s : USBTree) (h i attachment : Nat) (enumerated : Enumerated) :
    (s.attachDevice h i attachment enumerated).port = s.port := by
  cases enumerated with
  | failed => rfl
  | driver => rfl

theorem attachDevice_attachment (s : USBTree) (h i attachment : Nat) (enumerated : Enumerated) :
    (s.attachDevice h i attachment enumerated).attachment =
      Function.update s.attachment s.next attachment := by
  cases enumerated with
  | failed => rfl
  | driver => rfl

/-- A driver stays registered, and a device that is deleted is not the new one. -/
theorem attachDevice_keeps {x : Nat} (member : some x ∈ s.registeredDevices) (old : x ≠ s.next)
    (dead : s.live x = false) (h i attachment : Nat) (enumerated : Enumerated) :
    some x ∈ (s.attachDevice h i attachment enumerated).registeredDevices ∧
      (s.attachDevice h i attachment enumerated).live x = false := by
  have still : Function.update s.live s.next true x = false :=
    (Function.update_of_ne old ..).trans dead
  cases enumerated with
  | failed => exact ⟨member, still⟩
  | driver => exact ⟨registerDevice_keeps member, still⟩

end Operations

section Rounds

variable {s : USBTree} {h i : Nat} {a : PortAnswers}

/-- The port is handled: it has not changed any more. -/
def handled (s : USBTree) (h i : Nat) : USBTree :=
  s.setStatus h i { s.port h i with changed := false }

theorem Sound.handled (sound : Sound s) : Tree (handled s h i) :=
  sound.tree.setStatus (sound.tree.attached h i)

theorem handled_port {h' i' : Nat} (other : ¬(h' = h ∧ i' = i)) :
    (handled s h i).port h' i' = s.port h' i' := by
  rw [HubPorts.handled, port_setStatus, if_neg other]

theorem handled_port_self (s : USBTree) (h i : Nat) :
    (handled s h i).port h i = { s.port h i with changed := false } := by
  rw [HubPorts.handled, port_setStatus, if_pos ⟨rfl, rfl⟩]

/-- The other ports have the devices on record that they had. -/
theorem Sound.named_emptied (sound : Sound s) {t : USBTree}
    (emptied : Emptied (HubPorts.handled s h i) t h i) (h' i' : Nat) : Named t h' i' := by
  intro c record
  obtain ⟨other, before⟩ := emptied.portDevice h' i' c record
  rw [emptied.port, emptied.attachment, handled_port other]
  exact sound.named h' i' c before

/-- The device attached to a port that was emptied. -/
theorem Sound.named_attached (sound : Sound s) {t : USBTree} {attachment : Nat}
    (emptied : Emptied (HubPorts.handled s h i) t h i) (hub : (s.bnrPorts h).isSome = true)
    (inside : i < 6) (attached : (s.port h i).attached = some attachment)
    (enumerated : Enumerated) :
    Sound (t.attachDevice h i attachment enumerated) := by
  have known : attachment < t.attachments := by
    rw [emptied.attachments]
    exact sound.tree.attached h i attachment attached
  have same : t.bnrPorts h = s.bnrPorts h := emptied.hub
  obtain ⟨tree, records⟩ :=
    emptied.tree.attachDevice (by rw [same]; exact hub) inside known enumerated
  refine ⟨tree, fun h' i' c record => ?_⟩
  rw [records] at record
  rw [attachDevice_port, attachDevice_attachment]
  split at record
  case isTrue here =>
    cases record
    rw [here.1, here.2, emptied.port, handled_port_self, Function.update_self]
    exact attached
  case isFalse =>
    have old := emptied.tree.lt_next (emptied.tree.child h' i' c record).2
    rw [Function.update_of_ne old.ne]
    exact sound.named_emptied emptied h' i' c record

theorem not_consistent {t : USBTree} {x : Nat} (member : some x ∈ t.registeredDevices)
    (dead : t.live x = false) : ¬Consistent t := by
  intro consistent
  have live := (consistent.registered x member).1
  rw [dead] at live
  cases live

/-- The array is left. -/
theorem not_consistent_outside {t : USBTree} : ¬Consistent { t with outside := true } := by
  intro consistent
  cases consistent.inside

/-- Something registered is below the device on record. -/
theorem Sound.stale (sound : Sound s) (inside : i < 6) (kept : ¬Replaceable s h i) :
    ∃ x, some x ∈ ((HubPorts.handled s h i).removeDevice h i).registeredDevices ∧
      ((HubPorts.handled s h i).removeDevice h i).live x = false ∧
      x ≠ ((HubPorts.handled s h i).removeDevice h i).next := by
  have some_ : ∃ d x, s.portDevice h i = some d ∧ s.Below d x ∧ x ≠ d ∧
      some x ∈ s.registeredDevices := by
    by_contra none
    refine kept ⟨inside, fun d record x below other member => ?_⟩
    exact none ⟨d, x, record, below, other, member⟩
  obtain ⟨d, x, record, below, other, member⟩ := some_
  have record : (HubPorts.handled s h i).portDevice h i = some d := record
  obtain ⟨registered, dead⟩ := sound.handled.left_registered record below other member
  refine ⟨x, registered, dead, ?_⟩
  have next : ((HubPorts.handled s h i).removeDevice h i).next = s.next := by
    obtain ⟨t, removed, same⟩ := removeDevice_eq sound.handled.ranked record
    rw [same, removed.same]
    rfl
  rw [next]
  exact (sound.tree.lt_next (sound.tree.registered x member).1).ne

/-- What follows the removal of the device on record keeps the tree sound, and keeps a deleted
driver registered. -/
theorem Sound.replaced (sound : Sound s) (f : USBTree → USBTree)
    (fine : ∀ t, i < 6 → Emptied (HubPorts.handled s h i) t h i → Sound (f t))
    (stale : ∀ t x, some x ∈ t.registeredDevices → t.live x = false → x ≠ t.next →
      ¬Consistent (f t)) :
    let t := if i < 6 then f ((HubPorts.handled s h i).removeDevice h i)
      else { HubPorts.handled s h i with outside := true }
    (Replaceable s h i → Sound t) ∧ (¬Replaceable s h i → ¬Consistent t) := by
  dsimp only
  split
  case isTrue inside =>
    refine ⟨fun replaceable => ?_, fun kept => ?_⟩
    · exact fine _ inside (sound.handled.emptied replaceable.2)
    · obtain ⟨x, registered, dead, old⟩ := sound.stale inside kept
      exact stale _ x registered dead old
  case isFalse outside =>
    exact ⟨fun replaceable => absurd replaceable.1 outside, fun _ => not_consistent_outside⟩

/-- A port that cannot be reset has nothing on record. -/
theorem Sound.unreset (sound : Sound s) (changed : (s.port h i).changed = true) :
    (s.portDevice h i = none → Sound (HubPorts.handled s h i)) ∧
      (s.portDevice h i ≠ none → ¬Consistent (HubPorts.handled s h i)) := by
  refine ⟨fun none => ⟨sound.handled, fun h' i' c record => ?_⟩, fun some_ consistent => ?_⟩
  · have before : s.portDevice h' i' = some c := record
    have other : ¬(h' = h ∧ i' = i) := by
      rintro ⟨rfl, rfl⟩
      rw [none] at before
      cases before
    rw [handled_port other]
    exact sound.named h' i' c before
  · obtain ⟨d, record⟩ := Option.ne_none_iff_exists'.mp some_
    have named := sound.named h i d record
    rw [if_pos changed] at named
    have attached := (consistent.ports h i d record (by rw [handled_port_self])).2
    rw [handled_port_self] at attached
    exact named attached

theorem handlePort_eq (successful : a.getPortStatus = true ∧ (s.port h i).changed = true ∧
    a.clearPortFeature = true) :
    s.handlePort h i a = match (s.port h i).attached with
      | some attachment =>
        if a.resetPort then
          if i < 6 then
            ((HubPorts.handled s h i).removeDevice h i).attachDevice h i attachment a.enumerated
          else { HubPorts.handled s h i with outside := true }
        else HubPorts.handled s h i
      | none =>
        if i < 6 then (HubPorts.handled s h i).removeDevice h i
        else { HubPorts.handled s h i with outside := true } := if_pos successful

/-- A round that comes to what is attached keeps the tree consistent exactly when it is orderly. -/
theorem Sound.handlePort (sound : Sound s) (reaches : Reaches s h i a) :
    (Orderly s (.handlePort h i a) → Sound (s.handlePort h i a)) ∧
      (¬Orderly s (.handlePort h i a) → ¬Consistent (s.handlePort h i a)) := by
  have orderly : Orderly s (.handlePort h i a) ↔
      if (s.port h i).attached = none ∨ a.resetPort = true then Replaceable s h i
      else s.portDevice h i = none :=
    ⟨fun holds => holds reaches, fun holds _ => holds⟩
  obtain ⟨⟨bnrPorts, hub, _⟩, status, changed, clear⟩ := reaches
  have hub : (s.bnrPorts h).isSome = true := by rw [hub]; rfl
  rw [orderly, handlePort_eq ⟨status, changed, clear⟩]
  cases attached : (s.port h i).attached with
  | none =>
    have replaceable : none = (none : Option Nat) ∨ a.resetPort = true := .inl rfl
    rw [if_pos replaceable]
    exact sound.replaced id (fun t _ emptied => ⟨emptied.tree, sound.named_emptied emptied⟩)
      fun t x registered dead _ => not_consistent registered dead
  | some attachment =>
    dsimp only
    cases reset : a.resetPort with
    | true =>
      have replaceable : some attachment = none ∨ true = true := .inr rfl
      rw [if_pos replaceable, if_pos rfl]
      apply sound.replaced (·.attachDevice h i attachment a.enumerated)
      · exact fun t inside emptied => sound.named_attached emptied hub inside attached a.enumerated
      · intro t x registered dead old
        obtain ⟨still, gone⟩ := attachDevice_keeps registered old dead h i attachment a.enumerated
        exact not_consistent still gone
    | false =>
      have never : ¬(some attachment = none ∨ false = true) := by simp
      rw [if_neg never, if_neg nofun]
      exact sound.unreset changed

/-- Something is attached to a port that was not there before, or nothing any more. -/
theorem Sound.changed (sound : Sound s) {attachments : Nat} (more : s.attachments ≤ attachments)
    {attached : Option Nat} (known : ∀ attachment, attached = some attachment →
      attachment < attachments)
    (new : ∀ c, s.portDevice h i = some c → attached ≠ some (s.attachment c)) :
    Sound { s.setStatus h i ⟨attached, true⟩ with attachments := attachments } := by
  refine ⟨(sound.tree.attachments more).setStatus known, fun h' i' c record => ?_⟩
  dsimp only
  rw [port_setStatus]
  split
  case isTrue here =>
    rw [here.1, here.2] at record
    exact new c record
  case isFalse => exact sound.named h' i' c record

/-- A device at a port of the controller. -/
theorem Sound.root (sound : Sound s) (enumerated : Enumerated) :
    Sound (s.step (.root enumerated)) := by
  have tree := sound.tree.attachments (Nat.le_add_right s.attachments 1)
  have created := tree.createDevice (Nat.lt_succ_self s.attachments)
  have fresh := sound.tree.fresh s.next (Nat.le_refl _)
  have empty : ∀ i, ({ s with attachments := s.attachments + 1 }.createDevice
      s.attachments).portDevices s.next i = none := by
    intro i
    have none : ({ s with attachments := s.attachments + 1 }.createDevice
      s.attachments).portDevices s.next = fun _ => none := Function.update_self ..
    rw [none]
  have absent : some s.next ∉ s.registeredDevices := by
    intro member
    have live := (sound.tree.registered _ member).1
    rw [fresh] at live
    cases live
  have after := created.enumerate (d := s.next) (Function.update_self ..) absent empty enumerated
  have same : s.step (.root enumerated) = ({ s with attachments := s.attachments + 1 }.createDevice
      s.attachments).enumerate s.next enumerated := by
    cases enumerated with
    | failed => rfl
    | driver => rfl
  rw [same]
  refine ⟨after, fun h i c record => ?_⟩
  rw [portDevice_enumerate h i empty] at record
  have record : s.portDevice h i = some c :=
    (portDevice_createDevice (s := { s with attachments := s.attachments + 1 }) h i fresh
      _).symm.trans
      record
  have old := sound.tree.lt_next (sound.tree.child h i c record).2
  have named := sound.named h i c record
  have kept : Function.update s.attachment s.next s.attachments c = s.attachment c :=
    Function.update_of_ne old.ne ..
  rw [← kept] at named
  cases enumerated with
  | failed => exact named
  | driver => exact named

/-- Each event. -/
theorem Sound.step (sound : Sound s) (event : Event) :
    (Orderly s event → Sound (s.step event)) ∧ (¬Orderly s event → ¬Consistent (s.step event)) := by
  cases event with
  | root enumerated =>
    refine ⟨fun _ => ?_, fun disorderly => absurd trivial disorderly⟩
    exact sound.root enumerated
  | attach h i =>
    refine ⟨fun _ => ?_, fun disorderly => absurd trivial disorderly⟩
    apply sound.changed (Nat.le_add_right s.attachments 1)
    · rintro _ ⟨⟩
      exact Nat.lt_succ_self _
    · intro c record same
      have old := sound.tree.attachment c (sound.tree.child h i c record).2
      rw [← Option.some.inj same] at old
      exact Nat.lt_irrefl _ old
  | detach h i =>
    refine ⟨fun _ => ?_, fun disorderly => absurd trivial disorderly⟩
    exact sound.changed (Nat.le_refl _) nofun fun c record => nofun
  | handlePort h i a =>
    by_cases reaches : Reaches s h i a
    · rw [USBTree.step, if_pos reaches.1]
      exact sound.handlePort reaches
    · have idle : s.step (.handlePort h i a) = s := by
        rw [USBTree.step]
        split
        case isTrue inLoop =>
          rw [USBTree.handlePort, if_neg fun rest => reaches ⟨inLoop, rest⟩]
        case isFalse => rfl
      rw [idle]
      exact ⟨fun _ => sound,
        fun disorderly => absurd (fun there => absurd there reaches) disorderly⟩

end Rounds

/-- A run keeps the table and the ports consistent exactly when all its steps are orderly. -/
theorem ports_consistent_iff (events : List Event) :
    Throughout step Consistent start events ↔ Admissible step Orderly start events := by
  apply throughout_iff_admissible Sound fun s sound => sound.consistent
  · intro s event sound
    refine ⟨fun orderly => ((sound.step event).1 orderly).consistent, fun consistent => ?_⟩
    exact not_not.mp fun disorderly => (sound.step event).2 disorderly consistent
  · intro s event sound consistent
    exact (sound.step event).1 (not_not.mp fun disorderly =>
      (sound.step event).2 disorderly consistent)
  · exact sound_start

section Examples

/-- Every request succeeds. -/
def answers (enumerated : Enumerated) : PortAnswers := ⟨true, true, true, enumerated⟩

/-- A hub with a device at it is attached to a hub and detached again. -/
def hubDetached : List Event := [.root (.driver (.hub 4)), .attach 0 1,
  .handlePort 0 1 (answers (.driver (.hub 4))), .attach 1 1,
    .handlePort 1 1 (answers (.driver .other)),
  .detach 0 1, .handlePort 0 1 (answers .failed)]

/-- A device is attached to the sixth port of a hub. -/
def sixthPort : List Event :=
  [.root (.driver (.hub 7)), .attach 0 6, .handlePort 0 6 (answers (.driver .other))]

/-- A device is exchanged, and the port cannot be reset. -/
def notReset : List Event := [.root (.driver (.hub 4)), .attach 0 1,
  .handlePort 0 1 (answers (.driver .other)), .detach 0 1, .attach 0 1,
  .handlePort 0 1 ⟨true, true, false, .failed⟩]

theorem ports_inconsistent : ¬Consistent (exec step start hubDetached) ∧
    ¬Consistent (exec step start sixthPort) ∧ ¬Consistent (exec step start notReset) := by
  have deleted : some 2 ∈ (exec step start hubDetached).registeredDevices ∧
      (exec step start hubDetached).live 2 = false := by decide +kernel
  have outside : (exec step start sixthPort).outside = true := by decide +kernel
  have exchanged : (exec step start notReset).portDevice 0 1 = some 1 ∧
      (exec step start notReset).port 0 1 = ⟨some 2, false⟩ ∧
      (exec step start notReset).attachment 1 = 1 := by decide +kernel
  refine ⟨not_consistent deleted.1 deleted.2, fun consistent => ?_, fun consistent => ?_⟩
  · cases outside.symm.trans consistent.inside
  · obtain ⟨record, status, old⟩ := exchanged
    have attached := (consistent.ports 0 1 1 record (by rw [status])).2
    rw [status, old] at attached
    cases attached

end Examples

end Orcos.Guarantees.HubPorts
