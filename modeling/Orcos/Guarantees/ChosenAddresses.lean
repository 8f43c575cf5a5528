import Mathlib.Data.List.Pairwise
import Orcos.Source.Hal.HatMapping
import Orcos.Source.Hal.HatCalls

/-!
# Addresses of a mapped range

Source: src/source/arch/ARM/ARMv4T/ARMv7/ARMv7HatLayer.cc, `map`, `createPT`, `unmap`.

The part behind the sections is mapped by a call whose failure nobody notices: where it meets
a section, or finds no second-level table, it stays as it was.
-/
namespace Orcos.Guarantees.Translations
open Lib.Remapping Source Source.Hal Source.Hal.HatLayer

/-- The addresses of a range go to the physical ones, and only its pages change. -/
structure Translates (s s' : HatLayer) (pid log phys size : Nat) : Prop where
  inside : ∀ k < size, s'.translate pid ((log + k) % 2 ^ 32) = some ((phys + k) % 2 ^ 32)
  outside : ∀ x < 2 ^ 32, (∀ k < extent size, x ≠ (log + k) % 2 ^ 32) →
    s'.translate pid x = s.translate pid x
  others : ∀ q ≠ pid, s'.translate q = s.translate q

/-- The page of an address is gone, and nothing else. -/
structure Untranslates (s s' : HatLayer) (pid address : Nat) : Prop where
  inside : ∀ x, s.InPage pid address x → s'.translate pid x = none
  outside : ∀ x, ¬ s.InPage pid address x → s'.translate pid x = s.translate pid x
  others : ∀ q ≠ pid, s'.translate q = s.translate q

/-- A mapping that is reported takes place, and can be taken away page by page. -/
def Mapped (platform : Platform) (s : HatLayer) (log phys size : Nat) (rights : Rights)
    (pid : Nat) : Prop :=
  ∀ s' result, s.map platform log phys size rights pid = some (s', result) → result ≠ 0 →
    Translates s s' pid log phys size ∧
      ∀ address tid currentTask, spaceOf tid currentTask = pid →
        Untranslates s' (s'.unmap address (spaceOf tid currentTask)).1 pid address

/-- The last page fits, or a section maps its addresses like this already. -/
def Reaches (s : HatLayer) (log phys size pid : Nat) : Prop :=
  s.Fits pid log size ∨
    s.translate pid ((log + lastOffset size) % 2 ^ 32) = some ((phys + lastOffset size) % 2 ^ 32)

instance (s : HatLayer) (log phys size pid : Nat) : Decidable (Reaches s log phys size pid) :=
  inferInstanceAs (Decidable (_ ∨ _))

variable {platform : Platform} {s s' : HatLayer} {log phys size pid : Nat} {rights : Rights}

theorem untranslates (sound : s.Sound) (address tid : Nat) {currentTask : Option Nat}
    (space : spaceOf tid currentTask = pid) :
    Untranslates s (s.unmap address (spaceOf tid currentTask)).1 pid address := by
  rw [space]
  have unmaps := sound.unmap_unmaps address pid
  exact ⟨unmaps.gone, unmaps.frame, fun q other => sound.unmap_other other⟩

theorem lastOffset_lt (large : 0x10000 < size) : lastOffset size < size := by
  unfold lastOffset
  omega

/-- Where a last page has no table, only a section can translate it. -/
theorem section_of_translate (sound : s.Sound) {address y : Nat}
    (full : ¬ s.Room pid (address / 0x100000)) (mapped : s.translate pid address = some y) :
    typeOf (s.first pid (address / 0x100000)) = 2 := by
  cases sound.entries pid (address / 0x100000) with
  | fault none_ =>
    rw [translate_fault none_] at mapped
    cases mapped
  | section_ type looks => exact type
  | table k known taken memory refers =>
    refine absurd ⟨memory, ?_, Or.inl ?_⟩ full
    · rw [sound.typeOf_refers refers]
      decide
    · rw [refers]
      exact Nat.succ_ne_zero _

/-- A last page that is dropped is right where its section happens to be. -/
theorem inside_last (sound : s.Sound) (drops : ¬ s.Fits pid log size)
    (logical : log % 0x100000 = 0)
    (happens : s.translate pid ((log + lastOffset size) % 2 ^ 32) =
      some ((phys + lastOffset size) % 2 ^ 32)) {k : Nat} (behind : lastOffset size ≤ k)
    (below : k < size) :
    s.translate pid ((log + k) % 2 ^ 32) = some ((phys + k) % 2 ^ 32) := by
  obtain ⟨turns, offset⟩ : ∃ turns, lastOffset size = turns * 0x100000 := ⟨_, rfl⟩
  have small : lastSize size ≤ 0x10000 := Nat.le_of_not_lt fun large => drops (Or.inl large)
  have type := section_of_translate sound (fun room => drops (Or.inr room)) happens
  have same : (log + k) % 2 ^ 32 / 0x100000 = (log + lastOffset size) % 2 ^ 32 / 0x100000 := by
    unfold lastSize at small
    omega
  rw [translate_section type] at happens
  rw [translate_section (by rw [same, type]), same]
  have address := Option.some.inj happens
  unfold sectionAddress at address ⊢
  unfold lastSize at small
  rw [Option.some.injEq]
  omega

section Pages

variable (sound : s.Sound) (given : log ≠ 0) (logical : log < 2 ^ 32) (physical : phys < 2 ^ 32)
  (bounded : size < 2 ^ 32) (alignedLog : log % pageSize size = 0)
  (alignedPhys : phys % pageSize size = 0)

include sound given logical physical bounded alignedLog alignedPhys in
/-- A mapping with a last page that fits, or is there, takes place. -/
theorem mapped_of_reaches (reaches : size ≤ 0x10000 ∨ Reaches s log phys size pid) :
    Mapped platform s log phys size rights pid := by
  intro s' result returns reported
  rw [map, if_pos given] at returns
  have after := congrArg Prod.fst (Option.some.inj returns)
  have value := congrArg Prod.snd (Option.some.inj returns)
  dsimp only at after value
  subst after
  have remaps := sound.createPT_remaps logical physical bounded alignedLog alignedPhys
    platform rights
    pid
  refine ⟨⟨?_, ?_, fun q other => sound.createPT_other log phys other⟩,
    fun address tid currentTask space => untranslates (sound.createPT log phys) address tid space⟩
  · by_cases fits : s.Fits pid log size
    · rw [if_pos fits] at remaps
      exact fun k below => remaps.maps k (Nat.lt_of_lt_of_le below (le_extent size))
    · rw [if_neg fits] at remaps
      have large : 0x10000 < size := by
        by_contra small
        have full : ¬ s.Room pid (log / 0x100000) :=
          fun room => fits ((fits_page (by omega) logical).mpr room)
        rw [sound.createPT_result, if_pos ⟨by omega, full⟩] at value
        exact reported value.symm
      have happens := (reaches.resolve_left (by omega)).resolve_left fits
      rw [pageSize_large large] at alignedLog
      intro k below
      by_cases early : k < lastOffset size
      · exact remaps.maps k early
      · rw [remaps.frame _ (Nat.mod_lt _ (by decide)) fun j inside same =>
          offsets_apart (by omega) (by omega) same.symm]
        exact inside_last sound fits alignedLog happens (Nat.le_of_not_lt early) below
  · intro x below away
    refine remaps.frame x below fun k inside => away k ?_
    split at inside
    · exact inside
    · exact Nat.lt_of_lt_of_le inside (Nat.le_add_right _ _)

include sound given logical physical bounded alignedLog alignedPhys in
/-- A last page that is dropped stays as it was. -/
theorem reaches_of_mapped (mapped : Mapped platform s log phys size rights pid) :
    size ≤ 0x10000 ∨ Reaches s log phys size pid := by
  by_cases small : size ≤ 0x10000
  · exact Or.inl small
  right
  by_cases fits : s.Fits pid log size
  · exact Or.inl fits
  right
  have remaps := sound.createPT_remaps logical physical bounded alignedLog alignedPhys
    platform rights
    pid
  rw [if_neg fits] at remaps
  have behind := lastOffset_lt (Nat.lt_of_not_le small)
  have returns : s.map platform log phys size rights pid =
      some (s.createPT platform log phys size rights pid) := by
    rw [map, if_pos given]
  have reported : (s.createPT platform log phys size rights pid).2 ≠ 0 := by
    rw [createPT_large platform (Nat.lt_of_not_le small)]
    exact given
  rw [← (mapped _ _ returns reported).1.inside (lastOffset size) behind]
  exact (remaps.frame _ (Nat.mod_lt _ (by decide)) fun k early same =>
    offsets_apart early (by omega) same.symm).symm

end Pages

/-- A mapping does what it reports exactly where its last page is not dropped. -/
theorem translations_kept (sound : s.Sound) (given : log ≠ 0) (logical : log < 2 ^ 32)
    (physical : phys < 2 ^ 32) (bounded : size < 2 ^ 32) (alignedLog : log % pageSize size = 0)
    (alignedPhys : phys % pageSize size = 0) :
    Mapped platform s log phys size rights pid ↔
      size ≤ 0x10000 ∨ Reaches s log phys size pid :=
  ⟨reaches_of_mapped sound given logical physical bounded alignedLog alignedPhys,
    mapped_of_reaches sound given logical physical bounded alignedLog alignedPhys⟩

/-- A board with its kernel at 0x80000000. -/
def board : Platform := ⟨true, 0x80000000, none, [], 0x80200000, 4⟩

def userRights : Rights := ⟨3, hatCacheWriteBack, true⟩

/-- One address space with a section at 0x40100000. -/
def withSection : HatLayer :=
  ((blank 0#32 0x80100000).createPT board 0x40100000 0x90000000 0x100000 userRights 1).1

theorem sound_withSection : withSection.Sound := (sound_blank _ (by decide)).createPT _ _

theorem translations_kept_beside :
    Mapped board withSection 0x40200000 0x90100000 0x101000 userRights 1 ↔
      0x101000 ≤ 0x10000 ∨ Reaches withSection 0x40200000 0x90100000 0x101000 1 :=
  translations_kept sound_withSection (by decide) (by decide) (by decide) (by decide) (by decide)
    (by decide)

/-- 1 MB and 4 KB before a section: the last page keeps its old translation. -/
theorem translations_lost :
    withSection.Sound ∧ 0x40000000 % pageSize 0x101000 = 0 ∧ 0x90100000 % pageSize 0x101000 = 0 ∧
      ¬ Mapped board withSection 0x40000000 0x90100000 0x101000 userRights 1 := by
  refine ⟨sound_withSection, by decide, by decide, fun mapped => ?_⟩
  have reaches := reaches_of_mapped sound_withSection (by decide) (by decide) (by decide)
    (by decide) (by decide) (by decide) mapped
  revert reaches
  decide

end Orcos.Guarantees.Translations

/-! ## Addresses that the choosing `map` returns

Source: src/source/arch/ARM/ARMv4T/ARMv7/ARMv7HatLayer.cc, `map` without a logical address.

The search is right for a size that it looks for with the granularity of its pages. Between
the release of the lock and `createPT` nobody knows of the addresses that were found.
-/
namespace Orcos.Guarantees.ChosenAddresses
open Source Source.Hal Source.Hal.HatLayer Lib.Runs Lib.Remapping

variable {τ : Type} {n : Nat}

/-- Everything but the lock. -/
structure SameTables (s s' : HatLayer) : Prop where
  pageTables : s'.pageTables = s.pageTables
  usage : s'.usage = s.usage
  freeSubPages : s'.freeSubPages = s.freeSubPages
  first : s'.first = s.first
  second : s'.second = s.second

/-- An address of the range that a call returned. -/
def Covers (a : Answer n) (x : Nat) : Prop :=
  a.result ≠ 0 ∧ a.result ≤ x ∧ x < a.result + a.request.size.toNat

/-- A call that failed changed no table; one that did not returned a free place for its pages,
where nothing returned before is still mapped; and only a search holds the lock. -/
structure Safe (s : MapCallers τ n) : Prop where
  failed : ∀ a ∈ s.answers, a.result = 0 → SameTables a.before a.after
  found : ∀ a ∈ s.answers, a.result ≠ 0 →
    a.before.Found a.request.pid a.request.size.toNat a.result
  apart : s.answers.Pairwise fun a b => a.request.pid = b.request.pid →
    ∀ x, Covers a x → Covers b x → a.before.translate a.request.pid x = none
  free : s.layer.locked = true → ∃ caller request, s.phase caller = .searching request

/-- No call of the address space is between its search and its mapping. -/
def Unclaimed (s : MapCallers τ n) (pid : Fin n) : Prop :=
  ∀ caller request a, s.phase caller = .chosen request a → request.pid ≠ pid

/-- A search is for a size that suits the tables; and nothing is looked for or mapped in an
address space while a call is between its search and its mapping there. -/
def Timely (s : MapCallers τ n) : MapStep τ n → Prop
  | .search caller => ∀ request, s.phase caller = .searching request →
      s.layer.Suits request.pid request.size.toNat ∧ Unclaimed s request.pid
  | .other (.map _ _ _ _ pid) => Unclaimed s pid
  | .other (.unmapAll pid) => Unclaimed s pid
  | _ => True

/-- What a caller has chosen stays free for it. -/
structure Steady (s : MapCallers τ n) : Prop where
  sound : s.layer.Sound
  unattributed : ∀ i < 1023, s.layer.usage i = 255
  chosen : ∀ caller request a, s.phase caller = .chosen request a →
    s.layer.Found request.pid request.size.toNat a
  alone : ∀ caller caller' request request' a a', s.phase caller = .chosen request a →
    s.phase caller' = .chosen request' a' → request.pid = request'.pid → caller = caller'
  safe : Safe s

variable {platform : Platform} {layer layer' : HatLayer} {pid q size start log phys : Nat}
  {rights : Rights}

theorem SameTables.refl (s : HatLayer) : SameTables s s := ⟨rfl, rfl, rfl, rfl, rfl⟩

/-- Addresses stay free where they stay unmapped. -/
theorem found_of_unmapped (found : layer.Found pid size start)
    (unmapped : ∀ x, layer.translate pid x = none → layer'.translate pid x = none) :
    layer'.Found pid size start :=
  ⟨found.aligned, found.above, found.below,
    fun x lower upper => unmapped x (found.unmapped x lower upper)⟩

theorem sound_relock (sound : layer.Sound) (locked : Bool) :
    ({ layer with locked := locked } : HatLayer).Sound where
  aligned := sound.aligned
  ids := sound.ids
  known := sound.known
  entries q j := by
    cases sound.entries q j with
    | fault none_ => exact .fault none_
    | section_ type looks => exact .section_ type looks
    | table k known taken memory refers => exact .table k known taken memory refers
  alone := sound.alone
  fresh := sound.fresh

/-- A mapping that fails changes nothing. -/
theorem createPT_failed (sound : layer.Sound) (given : start ≠ 0)
    (failed : (layer.createPT platform start phys size rights pid).2 = 0) :
    (layer.createPT platform start phys size rights pid).1 = layer := by
  rw [sound.createPT_result] at failed
  split at failed
  · next full =>
    rw [createPT_page platform full.1]
    cases found : layer.pageTableFor pid (start / 0x100000) with
    | none => rfl
    | some result =>
      exact absurd (sound.pageTableFor_isSome.mp (Option.isSome_of_mem found)) full.2
  · exact absurd failed given

theorem createPT_start (sound : layer.Sound)
    (mapped : (layer.createPT platform start phys size rights pid).2 ≠ 0) :
    (layer.createPT platform start phys size rights pid).2 = start := by
  rw [sound.createPT_result] at mapped ⊢
  split at mapped
  · exact absurd rfl mapped
  · next room => rw [if_neg room]

variable {s : MapCallers τ n} {caller other : τ} {request : Request n} {result : Nat}

/-- Another call changes the tables, but nothing that is chosen. -/
theorem Steady.changed (steady : Steady s) (sound : layer.Sound) (same : SameRest s.layer layer)
    (kept : ∀ other request a, s.phase other = .chosen request a →
      ∀ x, s.layer.translate request.pid x = none → layer.translate request.pid x = none) :
    Steady (s.setLayer layer) where
  sound := sound
  unattributed i below := by
    change layer.usage i = 255
    rw [same.usage, steady.unattributed i below]
  chosen other request a held :=
    found_of_unmapped (steady.chosen other request a held) (kept other request a held)
  alone := steady.alone
  safe := ⟨steady.safe.failed, steady.safe.found, steady.safe.apart, fun locked =>
    steady.safe.free (same.locked.symm.trans locked)⟩

theorem ne_of_unclaimed {pid : Fin n} (unclaimed : Unclaimed s pid) {a : Nat}
    (held : s.phase other = .chosen request a) : (request.pid : Nat) ≠ pid :=
  fun same => unclaimed other request a held (Fin.ext same)

theorem Steady.otherCall (steady : Steady s) (spaces : n ≤ 255) (call : HatCall n)
    (timely : Timely s (.other call)) : Steady (s.other platform call) := by
  cases call with
  | map log phys size rights pid =>
    unfold MapCallers.other
    dsimp only
    by_cases given : log.toNat = 0
    · rw [if_pos given]
      exact steady
    · have eq : s.layer.step platform (.map log phys size rights pid) =
          (s.layer.createPT platform log.toNat phys.toNat size.toNat rights pid).1 := by
        simp only [HatLayer.step, map, given, ne_eq, not_false_eq_true, if_true, Option.map_some,
          Option.getD_some]
      rw [if_neg given, eq]
      refine steady.changed (steady.sound.createPT _ _) (sameRest_createPT _ _ _ _ _ _ _)
        fun other request a held x none_ => ?_
      rw [steady.sound.createPT_other _ _ (ne_of_unclaimed timely held)]
      exact none_
  | unmap log pid =>
    refine steady.changed (steady.sound.unmap _ _) (sameRest_unmap _ _)
      fun other request a held x none_ => ?_
    by_cases own : (request.pid : Nat) = pid
    · rw [own] at none_ ⊢
      exact (steady.sound.unmap_unmaps _ _).none_of_none none_
    · exact (congrFun (steady.sound.unmap_other own) x).trans none_
  | unmapAll pid =>
    have space : (pid : Nat) < 255 := by omega
    have eq : s.layer.step platform (.unmapAll pid) =
        (s.layer.clearFirst pid).mapAll platform (s.layer.kernelMappings platform) pid :=
      unmapAll_eq steady.unattributed space
    unfold MapCallers.other
    dsimp only
    rw [eq]
    have cleared : SameRest s.layer (s.layer.clearFirst pid) := ⟨rfl, rfl, rfl⟩
    refine steady.changed (steady.sound.clearFirst pid).mapAll (cleared.trans sameRest_mapAll)
      fun other request a held x none_ => ?_
    have away := ne_of_unclaimed timely held
    rw [(steady.sound.clearFirst pid).mapAll_other away, clearFirst_other away]
    exact none_

theorem steady_start (between : layer.Between) :
    Steady (MapCallers.start layer : MapCallers τ n) where
  sound := between.sound
  unattributed := between.unattributed
  chosen _ _ _ held := nomatch held
  alone _ _ _ _ _ _ held := nomatch held
  safe :=
    { failed := nofun
      found := nofun
      apart := .nil
      free := fun locked => absurd (between.unlocked.symm.trans locked) (by decide) }

variable [DecidableEq τ]

theorem phase_self {phase : MapPhase n} : (s.setPhase caller phase).phase caller = phase :=
  Function.update_self ..

theorem phase_other {phase : MapPhase n} (away : other ≠ caller) :
    (s.setPhase caller phase).phase other = s.phase other := Function.update_of_ne away _ _

/-- A caller goes on, with or without the lock, and claims nothing. -/
theorem Steady.goOn (steady : Steady s) (locked : Bool) {phase : MapPhase n}
    (nothing : ∀ request a, phase ≠ .chosen request a)
    (free : locked = true → ∃ other request,
      (s.setPhase caller phase).phase other = .searching request) :
    Steady ((s.setLayer { s.layer with locked := locked }).setPhase caller phase) := by
  have before {other : τ} {request : Request n} {a : Nat}
      (held : (s.setPhase caller phase).phase other = .chosen request a) :
      s.phase other = .chosen request a := by
    by_cases own : other = caller
    · subst own
      rw [phase_self] at held
      exact absurd held (nothing request a)
    · rw [phase_other own] at held
      exact held
  refine ⟨sound_relock steady.sound locked, steady.unattributed, fun other request a held => ?_,
    fun c c' r r' a a' held held' => steady.alone c c' r r' a a' (before held) (before held'),
    ⟨steady.safe.failed, steady.safe.found, steady.safe.apart, free⟩⟩
  exact found_of_unmapped (steady.chosen other request a (before held)) fun x none_ => none_

/-- Where nothing is mapped of what is free, nothing is mapped twice. -/
theorem apart_of_found {answers : List (Answer n)} (found : ∀ a ∈ answers, a.result ≠ 0 →
    a.before.Found a.request.pid a.request.size.toNat a.result) :
    answers.Pairwise fun a b => a.request.pid = b.request.pid →
      ∀ x, Covers a x → Covers b x → a.before.translate a.request.pid x = none :=
  List.pairwise_of_forall_mem_list fun a member _ _ _ x inside _ =>
    (found a member inside.1).unmapped x inside.2.1 inside.2.2

/-- A call returns; the others keep what they have chosen. -/
theorem Steady.answer (steady : Steady s) (sound : layer.Sound)
    (unattributed : ∀ i < 1023, layer.usage i = 255)
    (kept : ∀ other request a, other ≠ caller → s.phase other = .chosen request a →
      layer.Found request.pid request.size.toNat a)
    (failed : result = 0 → SameTables s.layer layer)
    (found : result ≠ 0 → s.layer.Found request.pid request.size.toNat result)
    (free : layer.locked = true → ∃ other request, other ≠ caller ∧
      s.phase other = .searching request) :
    Steady (s.answer caller request result layer) := by
  have before {other : τ} {request' : Request n} {a : Nat}
      (held : (s.answer caller request result layer).phase other = .chosen request' a) :
      other ≠ caller ∧ s.phase other = .chosen request' a := by
    by_cases own : other = caller
    · subst own
      change (s.setPhase other .away).phase other = _ at held
      rw [phase_self] at held
      cases held
    · change (s.setPhase caller .away).phase other = _ at held
      rw [phase_other own] at held
      exact ⟨own, held⟩
  have all : ∀ a ∈ (s.answer caller request result layer).answers, a.result ≠ 0 →
      a.before.Found a.request.pid a.request.size.toNat a.result := by
    intro a member
    rcases List.mem_cons.mp member with rfl | earlier
    · exact found
    · exact steady.safe.found a earlier
  refine ⟨sound, unattributed, fun other request' a held => ?_, fun c c' r r' a a' held held' => ?_,
    ⟨fun a member => ?_, all, apart_of_found all, fun locked => ?_⟩⟩
  · exact kept other request' a (before held).1 (before held).2
  · exact steady.alone c c' r r' a a' (before held).2 (before held').2
  · rcases List.mem_cons.mp member with rfl | earlier
    · exact failed
    · exact steady.safe.failed a earlier
  · obtain ⟨other, request', away, searching⟩ := free locked
    refine ⟨other, request', ?_⟩
    change (s.setPhase caller .away).phase other = _
    rw [phase_other away]
    exact searching

/-- A search has found a place, and is alone in its address space. -/
theorem Steady.claim (steady : Steady s) {a : Nat}
    (found : s.layer.Found request.pid request.size.toNat a) (unclaimed : Unclaimed s request.pid) :
    Steady ((s.setLayer { s.layer with locked := false }).setPhase caller (.chosen request a)) := by
  have before {other : τ} {request' : Request n} {b : Nat}
      (held : (s.setPhase caller (.chosen request a)).phase other = .chosen request' b) :
      other = caller ∧ request' = request ∧ b = a ∨
        other ≠ caller ∧ s.phase other = .chosen request' b := by
    by_cases own : other = caller
    · subst own
      rw [phase_self] at held
      cases held
      exact Or.inl ⟨rfl, rfl, rfl⟩
    · rw [phase_other own] at held
      exact Or.inr ⟨own, held⟩
  refine ⟨sound_relock steady.sound false, steady.unattributed, fun other request' b held => ?_,
    fun c c' r r' b b' held held' same => ?_,
    ⟨steady.safe.failed, steady.safe.found, steady.safe.apart, nofun⟩⟩
  · rcases before held with ⟨-, rfl, rfl⟩ | ⟨-, held⟩
    · exact found_of_unmapped found fun x none_ => none_
    · exact found_of_unmapped (steady.chosen other request' b held) fun x none_ => none_
  · rcases before held with ⟨own, mine, -⟩ | ⟨-, earlier⟩
    · rcases before held' with ⟨own', -, -⟩ | ⟨-, earlier'⟩
      · exact own.trans own'.symm
      · rw [mine] at same
        exact absurd same.symm (unclaimed c' r' b' earlier')
    · rcases before held' with ⟨-, mine', -⟩ | ⟨-, earlier'⟩
      · rw [mine'] at same
        exact absurd same (unclaimed c r b earlier)
      · exact steady.alone c c' r r' b b' earlier earlier' same

theorem Steady.create (steady : Steady s) {a : Nat} (phase : s.phase caller = .chosen request a) :
    Steady (s.create platform caller request a) := by
  have found := steady.chosen caller request a phase
  have given : a ≠ 0 := by
    have above := found.above
    omega
  have same := sameRest_createPT s.layer platform a request.phys.toNat request.size.toNat
    request.rights request.pid
  unfold MapCallers.create
  refine steady.answer (steady.sound.createPT _ _) (fun i below => ?_)
    (fun other request' b away held => ?_) (fun failed => ?_) (fun mapped => ?_) (fun locked => ?_)
  · rw [same.usage, steady.unattributed i below]
  · have apart : (request'.pid : Nat) ≠ request.pid := fun pids =>
      away (steady.alone other caller request' request b a held phase (Fin.ext pids))
    refine found_of_unmapped (steady.chosen other request' b held) fun x none_ => ?_
    rw [steady.sound.createPT_other _ _ apart]
    exact none_
  · rw [createPT_failed steady.sound given failed]
    exact .refl _
  · rw [createPT_start steady.sound mapped]
    exact found
  · rw [same.locked] at locked
    obtain ⟨other, request', searching⟩ := steady.safe.free locked
    refine ⟨other, request', ?_, searching⟩
    rintro rfl
    rw [phase] at searching
    cases searching

theorem Steady.step (steady : Steady s) (spaces : n ≤ 255) (step : MapStep τ n)
    (timely : Timely s step) : Steady (s.step platform step) := by
  cases step with
  | call caller request =>
    simp only [MapCallers.step]
    split
    · next phase =>
      refine steady.goOn s.layer.locked nofun fun locked => ?_
      obtain ⟨other, request', searching⟩ := steady.safe.free locked
      refine ⟨other, request', ?_⟩
      rw [phase_other]
      · exact searching
      · rintro rfl
        rw [phase] at searching
        cases searching
    · exact steady
  | acquire caller =>
    simp only [MapCallers.step]
    split
    · next request phase =>
      split
      · exact steady
      · exact steady.goOn true nofun fun _ => ⟨caller, request, phase_self⟩
    · exact steady
  | search caller =>
    simp only [MapCallers.step]
    split
    · next request phase =>
      obtain ⟨suits, unclaimed⟩ := timely request phase
      unfold MapCallers.search
      cases found : s.layer.choose request.pid request.phys.toNat request.size.toNat with
      | none => exact absurd found steady.sound.choose_ne_none
      | some area =>
        cases area with
        | none =>
          exact steady.answer (sound_relock steady.sound false) steady.unattributed
            (fun other request' b away held =>
              found_of_unmapped (steady.chosen other request' b held) fun x none_ => none_)
            (fun _ => ⟨rfl, rfl, rfl, rfl, rfl⟩) (fun some_ => absurd rfl some_) nofun
        | some a => exact steady.claim (steady.sound.choose_found suits found) unclaimed
    · exact steady
  | create caller =>
    simp only [MapCallers.step]
    split
    · next request a phase => exact steady.create phase
    · exact steady
  | other call => exact steady.otherCall spaces call timely

/-- Calls in any interleaving return free addresses, while searches suit the tables and nothing
comes between a search and its mapping. -/
theorem choices_safe (spaces : n ≤ 255) (between : layer.Between) (steps : List (MapStep τ n))
    (timely : Admissible (MapCallers.step platform) Timely (MapCallers.start layer) steps) :
    Safe (exec (MapCallers.step platform) (MapCallers.start layer) steps) :=
  (exec_invariant Steady (fun _ step steady timely => steady.step spaces step timely) steps _
    (steady_start between) timely).safe

def board : Platform := ⟨true, 0x80000000, none, [], 0x80200000, 4⟩

/-- 1 MB for address space 1. -/
def section_ : Request 2 := ⟨0x90000000#32, 0x100000#32, ⟨3, hatCacheWriteBack, true⟩, Fin.last 1⟩

theorem between_blank : (blank 0#32 0x80100000).Between :=
  between_construct board 0#32 (by decide) 0

/-- The second caller searches when the first one has mapped. -/
def inTurn : List (MapStep Bool 2) :=
  [.call false section_, .call true section_, .acquire false, .search false, .create false,
    .acquire true, .search true, .create true]

theorem choices_safe_inTurn :
    Safe (exec (MapCallers.step board) (MapCallers.start (blank 0#32 0x80100000)) inTurn) := by
  refine choices_safe (by decide) between_blank inTurn
    ⟨trivial, trivial, trivial, ?_, trivial, trivial, ?_, trivial, trivial⟩
  · intro request searching
    cases searching
    refine ⟨?_, ?_⟩
    · rw [Suits, if_pos (by decide)]
      exact Or.inr ⟨1024, 1, by decide, by decide, by decide, fun _ _ _ => rfl⟩
    · intro caller request a held
      cases caller <;> cases held
  · intro request searching
    cases searching
    refine ⟨?_, ?_⟩
    · -- the megabyte behind the one that the first caller has mapped
      rw [Suits, if_pos (by decide)]
      refine Or.inr ⟨1025, 1, by decide, by decide, by decide, fun j low high => ?_⟩
      obtain rfl := Nat.le_antisymm (Nat.le_of_lt_succ high) low
      decide
    · intro caller request a held
      cases caller <;> cases held

/-- Both callers search before either maps. -/
def together : List (MapStep Bool 2) :=
  [.call false section_, .call true section_, .acquire false, .search false, .acquire true,
    .search true, .create false, .create true]

/-- Two calls return the same addresses. -/
theorem choices_unsafe :
    (blank 0#32 0x80100000).Between ∧
      ¬ Safe (exec (MapCallers.step board)
        (MapCallers.start (blank 0#32 0x80100000)) together) := by
  refine ⟨between_blank, fun safe => ?_⟩
  have last := List.head_mem (l := (exec (MapCallers.step board)
    (MapCallers.start (blank 0#32 0x80100000)) together).answers) (by decide)
  have found := safe.found _ last (by decide)
  have unmapped := found.unmapped 0x40000000 (by decide) (by decide)
  revert unmapped
  decide

end Orcos.Guarantees.ChosenAddresses
