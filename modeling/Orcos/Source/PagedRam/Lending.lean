import Orcos.Source.PagedRam.Ownership

/-!
# What a process has of the memory besides what it had before

A map is compared with an earlier one: it is the same but for some free pages
the process has as a whole now, and some free micropages it has now. A piece
that is allocated is added to these, and a piece that is freed taken away, in
any order; with nothing lent the two maps are equal.
-/
namespace Orcos.Source.PagedRam
open Orcos.Lib.WordBits

variable {layout : Layout} {m m' : PageMap layout} {pid n i index : Nat}
  {p p' q q' : Page} {units : Finset Nat}

namespace Page

/-- The micropages in `units` were free and are used by `pid` now. -/
structure Shared (pid : Nat) (p : Page) (units : Finset Nat) (p' : Page) : Prop where
  was : p.pid = 255 ∨ (p.pid = pid ∧ p.usesMicropages = 1)
  pid : p'.pid = pid
  used : p'.usedMicropages = p.usedMicropages + units.card
  clear : ∀ k ∈ units, k < 256 ∧ bit p.micropages k = false
  bits : ∀ k, bit p'.micropages k = (bit p.micropages k || decide (k ∈ units))

/-- The page `p` with the micropages in `units` lent to `pid` is `p'`. -/
def Lent (pid : Nat) (p : Page) (units : Finset Nat) (p' : Page) : Prop :=
  if units = ∅ then p' = p else p'.usesMicropages = 1 ∧ Shared pid p units p'

theorem lent_empty : Lent pid p ∅ p' ↔ p' = p := by
  rw [Lent, if_pos rfl]

theorem lent_of_nonempty (some : units.Nonempty) :
    Lent pid p units p' ↔ p'.usesMicropages = 1 ∧ Shared pid p units p' := by
  rw [Lent, if_neg some.ne_empty]

/-- The page out of which the next block is taken. -/
theorem Lent.opened (settled : p.Settled) (real : pid ≠ 255) (lent : Lent pid p units p')
    (grant : Grant pid n index p' q') : ∃ q, Shared pid p units q ∧ q.Taken q' n index := by
  rcases units.eq_empty_or_nonempty with rfl | some
  · obtain rfl := lent_empty.mp lent
    rcases grant with ⟨free, taken⟩ | ⟨own, uses, taken⟩
    · refine ⟨p'.markUsed pid, ⟨.inl free, rfl, ?_, by simp, by simp [markUsed]⟩, taken⟩
      have unused := (settled.whole (settled.free free)).1
      simp [markUsed, unused]
    · have split : p'.usesMicropages = 1 := by
        have := settled.flag
        omega
      exact ⟨p', ⟨.inr ⟨own, split⟩, own, by simp, by simp, by simp⟩, taken⟩
  · obtain ⟨split, shared⟩ := (lent_of_nonempty some).mp lent
    rcases grant with ⟨free, _⟩ | ⟨_, _, taken⟩
    · exact absurd (shared.pid.symm.trans free) real
    · exact ⟨p', shared, taken⟩

/-- A block that is allocated was not lent, and is now. -/
theorem Lent.take (settled : p.Settled) (real : pid ≠ 255) (positive : 0 < n)
    (lent : Lent pid p units p') (grant : Grant pid n index p' q') :
    Disjoint units (Finset.Ico index (index + n)) ∧
      Lent pid p (units ∪ Finset.Ico index (index + n)) q' := by
  obtain ⟨q, shared, taken⟩ := lent.opened settled real grant
  obtain ⟨_, inside, free⟩ := taken.block
  have before {k : Nat} (member : k ∈ Finset.Ico index (index + n)) :
      bit p.micropages k = false ∧ k ∉ units := by
    obtain ⟨low, high⟩ := Finset.mem_Ico.mp member
    simpa [shared.bits] using free k low high
  have apart : Disjoint units (Finset.Ico index (index + n)) :=
    Finset.disjoint_right.mpr fun k member => (before member).2
  have nonempty : (units ∪ Finset.Ico index (index + n)).Nonempty :=
    ⟨index, Finset.mem_union_right _ (Finset.mem_Ico.mpr ⟨Nat.le_refl index, by omega⟩)⟩
  refine ⟨apart, (lent_of_nonempty nonempty).mpr ⟨taken.uses, shared.was,
    taken.pid.trans shared.pid, ?_, fun k member => ?_, fun k => ?_⟩⟩
  · rw [Finset.card_union_of_disjoint apart, Nat.card_Ico, taken.used, shared.used]
    omega
  · rcases Finset.mem_union.mp member with old | new
    · exact shared.clear k old
    · have high := (Finset.mem_Ico.mp new).2
      exact ⟨by omega, (before new).1⟩
  · rw [taken.bits, shared.bits, Bool.or_assoc, ← Bool.decide_or]
    simp only [Finset.mem_union, Finset.mem_Ico]

/-- A block that is lent can be freed, and is lent no more. -/
theorem Lent.giveBack (settled : p.Settled) (positive : 0 < n) (lent : Lent pid p units p')
    (block : Finset.Ico index (index + n) ⊆ units) :
    p'.usesMicropages = 1 ∧ n ≤ p'.usedMicropages ∧ index + n ≤ 256 ∧
      Lent pid p (units \ Finset.Ico index (index + n)) (p'.freeSubPages index n) := by
  have first : index ∈ Finset.Ico index (index + n) :=
    Finset.mem_Ico.mpr ⟨Nat.le_refl index, by omega⟩
  have last : index + n - 1 ∈ Finset.Ico index (index + n) :=
    Finset.mem_Ico.mpr ⟨by omega, by omega⟩
  obtain ⟨split, shared⟩ := (lent_of_nonempty ⟨index, block first⟩).mp lent
  have card := Finset.card_le_card block
  have remaining := Finset.card_sdiff_of_subset block
  rw [Nat.card_Ico] at card remaining
  have used := shared.used
  have inside : index + n ≤ 256 := by
    have := (shared.clear _ (block last)).1
    omega
  refine ⟨split, by omega, inside, ?_⟩
  by_cases all : p'.usedMicropages - n = 0
  · -- nothing else of the page is in use, so it was free
    have free : p.pid = 255 := by
      rcases shared.was with free | ⟨_, wasSplit⟩
      · exact free
      · have := settled.inUse wasSplit
        omega
    have none : units \ Finset.Ico index (index + n) = ∅ := by
      rw [← Finset.card_eq_zero]
      omega
    rw [none, lent_empty, freeSubPages, if_pos all, settled.eq_unused free]
  · have bits := bit_freeSubPages all inside
    rw [freeSubPages, if_neg all] at bits ⊢
    have cleared (k : Nat) : (bit p'.micropages k && !decide (index ≤ k ∧ k < index + n)) =
        (bit p.micropages k || decide (k ∈ units \ Finset.Ico index (index + n))) := by
      rw [shared.bits]
      by_cases freed : k ∈ Finset.Ico index (index + n)
      · have clear := (shared.clear k (block freed)).2
        simp [clear, freed, Finset.mem_Ico.mp freed]
      · have kept : ¬ (index ≤ k ∧ k < index + n) := fun both => freed (Finset.mem_Ico.mpr both)
        simp [freed, kept]
    rcases (units \ Finset.Ico index (index + n)).eq_empty_or_nonempty with none | some
    · rw [none, lent_empty]
      rw [none, Finset.card_empty] at remaining
      obtain ⟨own, wasSplit⟩ : p.pid = pid ∧ p.usesMicropages = 1 := by
        refine shared.was.resolve_left fun free => ?_
        have := (settled.whole (settled.free free)).1
        omega
      have micropages : clearRange p'.micropages index n = p.micropages := by
        refine ext_bit (by rw [clearRange_length, p'.words, p.words]) fun k => ?_
        rw [bits, cleared, none]
        simp
      have counter : p'.usedMicropages - n = p.usedMicropages := by omega
      obtain ⟨_, _, _, _, _⟩ := p
      simp only [Page.mk.injEq]
      exact ⟨shared.pid.trans own.symm, split.trans wasSplit.symm, counter, micropages⟩
    · refine (lent_of_nonempty some).mpr ⟨split, shared.was, shared.pid, ?_, fun k member =>
        shared.clear k (Finset.mem_sdiff.mp member).1, fun k => ?_⟩
      · simp only
        omega
      · rw [bits, cleared]

theorem Lent.of_free (real : pid ≠ 255) (lent : Lent pid p units p') (free : p'.pid = 255) :
    units = ∅ ∧ p' = p := by
  rcases units.eq_empty_or_nonempty with rfl | some
  · exact ⟨rfl, lent_empty.mp lent⟩
  · have shared := ((lent_of_nonempty some).mp lent).2
    exact absurd (shared.pid.symm.trans free) real

end Page

/-! ### The map -/

namespace PageMap

/-- The map `m` with the pages in `pages` and the micropages `units i` of each
other page lent to `pid` is `m'`. -/
structure Lent (pid : Nat) (m : PageMap layout) (pages : Finset Nat) (units : Nat → Finset Nat)
    (m' : PageMap layout) : Prop where
  whole : ∀ i ∈ pages, ∃ p, m.pages[i]? = some p ∧ p.pid = 255 ∧
    m'.pages[i]? = some (p.markUsed pid) ∧ units i = ∅
  split : ∀ i ∉ pages, ∀ p p', m.pages[i]? = some p → m'.pages[i]? = some p' →
    p.Lent pid (units i) p'

variable {pages : Finset Nat} {units : Nat → Finset Nat}

/-- Two maps have the same page numbers. -/
theorem entry_of (m : PageMap layout) (entry : m'.pages[i]? = some p') :
    ∃ p, m.pages[i]? = some p := by
  have inside := (List.getElem?_eq_some_iff.mp entry).1
  rw [m'.complete, ← m.complete] at inside
  exact ⟨_, List.getElem?_eq_getElem inside⟩

theorem Lent.refl (pid : Nat) (m : PageMap layout) : m.Lent pid ∅ (fun _ => ∅) m where
  whole i member := absurd member (Finset.notMem_empty i)
  split i _ p p' entry entry' := by
    rw [entry, Option.some.injEq] at entry'
    exact Page.lent_empty.mpr entry'.symm

/-- With nothing lent the maps are equal. -/
theorem Lent.eq (lent : m.Lent pid ∅ (fun _ => ∅) m') : m' = m := by
  have same : m'.pages = m.pages := by
    apply List.ext_getElem (m'.complete.trans m.complete.symm)
    intro i inside' inside
    exact Page.lent_empty.mp (lent.split i (Finset.notMem_empty i) _ _
      (List.getElem?_eq_getElem inside) (List.getElem?_eq_getElem inside'))
  obtain ⟨_, _⟩ := m
  obtain ⟨_, _⟩ := m'
  subst same
  rfl

theorem getElem?_take (m : PageMap layout) (pid i j : Nat) : (m.take pid 1 i).pages[j]? =
    if j = i then (m.pages[j]?).map (·.markUsed pid) else m.pages[j]? := by
  have range : i ≤ j ∧ j ≤ i + 1 - 1 ↔ j = i := by omega
  rw [take, update, List.getElem?_mapIdx]
  simp only [range]
  by_cases here : j = i
  · simp [here]
  · simp [here]

/-- A free page is lent as a whole. -/
theorem Lent.takePage (real : pid ≠ 255) (lent : m.Lent pid pages units m')
    (free : FreeAt m'.pages i) :
    i ∉ pages ∧ m.Lent pid (insert i pages) units (m'.take pid 1 i) := by
  obtain ⟨p', entry', isFree⟩ := free
  obtain ⟨p, entry⟩ := entry_of m entry'
  have notWhole : i ∉ pages := by
    intro whole
    obtain ⟨q, _, _, isWhole, _⟩ := lent.whole i whole
    rw [entry', Option.some.injEq] at isWhole
    rw [isWhole] at isFree
    exact real isFree
  obtain ⟨none, rfl⟩ := (lent.split i notWhole p p' entry entry').of_free real isFree
  refine ⟨notWhole, fun j member => ?_, fun j other q q' old new => ?_⟩
  · rw [getElem?_take]
    rcases Finset.mem_insert.mp member with rfl | whole
    · exact ⟨p', entry, isFree, by rw [if_pos rfl, entry']; rfl, none⟩
    · have different : j ≠ i := fun same => notWhole (same ▸ whole)
      rw [if_neg different]
      exact lent.whole j whole
  · have different : j ≠ i := fun same => other (same ▸ Finset.mem_insert_self i pages)
    rw [getElem?_take, if_neg different] at new
    exact lent.split j (fun whole => other (Finset.mem_insert_of_mem whole)) q q' old new

theorem getElem?_setPage (entry : m.pages[i]? = some p) (q : Page) (j : Nat) :
    (m.setPage i q).pages[j]? = if j = i then some q else m.pages[j]? := by
  have inside := (List.getElem?_eq_some_iff.mp entry).1
  rw [setPage]
  by_cases here : j = i
  · rw [here, if_pos rfl, List.getElem?_set_self inside]
  · rw [if_neg here, List.getElem?_set_ne (Ne.symm here)]

/-- One page of the map is changed, and what is lent of it. -/
theorem Lent.setPage (lent : m.Lent pid pages units m') (split : i ∉ pages)
    (entry : m.pages[i]? = some p) (entry' : m'.pages[i]? = some p') {u : Finset Nat}
    (page : p.Lent pid u q) :
    m.Lent pid pages (Function.update units i u) (m'.setPage i q) := by
  refine ⟨fun j whole => ?_, fun j other r r' old new => ?_⟩
  · have different : j ≠ i := fun same => split (same ▸ whole)
    rw [getElem?_setPage entry', if_neg different, Function.update_of_ne different]
    exact lent.whole j whole
  · rw [getElem?_setPage entry'] at new
    by_cases here : j = i
    · subst here
      rw [entry, Option.some.injEq] at old
      rw [if_pos rfl, Option.some.injEq] at new
      rwa [Function.update_self, ← old, ← new]
    · rw [if_neg here] at new
      rw [Function.update_of_ne here]
      exact lent.split j other r r' old new

/-- A block that is allocated was not lent, and is now. -/
theorem Lent.takeBlock (settled : m.Settled) (real : pid ≠ 255) (positive : 0 < n)
    (lent : m.Lent pid pages units m') (entry' : m'.pages[i]? = some p')
    (grant : Grant pid n index p' q') :
    Disjoint (units i) (Finset.Ico index (index + n)) ∧
      m.Lent pid pages (Function.update units i (units i ∪ Finset.Ico index (index + n)))
        (m'.setPage i q') := by
  obtain ⟨p, entry⟩ := entry_of m entry'
  have split : i ∉ pages := by
    intro whole
    obtain ⟨r, _, _, isWhole, _⟩ := lent.whole i whole
    rw [entry', Option.some.injEq] at isWhole
    subst isWhole
    rcases grant with ⟨free, _⟩ | ⟨_, uses, _⟩
    · exact real free
    · exact uses rfl
  obtain ⟨apart, page⟩ := (lent.split i split p p' entry entry').take
    (settled p (List.mem_of_getElem? entry)) real positive grant
  exact ⟨apart, lent.setPage split entry entry' page⟩

/-- A page that is lent as a whole can be freed. -/
theorem Lent.giveBackPage (settled : m.Settled) (new : i ∉ pages)
    (lent : m.Lent pid (insert i pages) units m') :
    ∃ m'', freeUnits m' (i * 256) (i * 256 + 256) = (m'', cOk) ∧ m.Lent pid pages units m'' := by
  have first : i * 256 / 256 = i := Nat.mul_div_cancel i (by decide)
  have last : (i * 256 + 256 - 1) / 256 = i := by omega
  obtain ⟨p, entry, free, entry', none⟩ := lent.whole i (Finset.mem_insert_self i pages)
  refine ⟨_, if_pos (by omega), fun j whole => ?_, fun j other q q' old result => ?_⟩
  · have different : ¬ (i ≤ j ∧ j ≤ i) := fun same => new (Nat.le_antisymm same.2 same.1 ▸ whole)
    obtain ⟨q, old, isFree, isWhole, empty⟩ := lent.whole j (Finset.mem_insert_of_mem whole)
    refine ⟨q, old, isFree, ?_, empty⟩
    rw [first, last, update, List.getElem?_mapIdx, isWhole]
    simp [different]
  · rw [first, last, update, List.getElem?_mapIdx] at result
    by_cases here : j = i
    · subst here
      rw [entry, Option.some.injEq] at old
      rw [entry'] at result
      simp only [Option.map_some, Nat.le_refl, and_self, if_true, Option.some.injEq] at result
      rw [none, Page.lent_empty, ← result, ← old,
        (settled p (List.mem_of_getElem? entry)).eq_unused free]
    · have different : ¬ (i ≤ j ∧ j ≤ i) := by omega
      simp only [if_neg different, Option.map_id'] at result
      have unlent : j ∉ insert i pages := fun member =>
        (Finset.mem_insert.mp member).elim here other
      exact lent.split j unlent q q' old result

/-- A block that is lent can be freed, and is lent no more. -/
theorem Lent.giveBackBlock (settled : m.Settled) (positive : 0 < n) (small : n < 256)
    (lent : m.Lent pid pages units m') (managed : i < layout.numPages)
    (block : Finset.Ico index (index + n) ⊆ units i) :
    ∃ m'', freeUnits m' (i * 256 + index) (i * 256 + index + n) = (m'', cOk) ∧
      m.Lent pid pages (Function.update units i (units i \ Finset.Ico index (index + n))) m'' := by
  have first : index ∈ Finset.Ico index (index + n) :=
    Finset.mem_Ico.mpr ⟨Nat.le_refl index, by omega⟩
  have split : i ∉ pages := by
    intro whole
    obtain ⟨_, _, _, _, none⟩ := lent.whole i whole
    have member := block first
    rw [none] at member
    exact absurd member (Finset.notMem_empty index)
  obtain ⟨p', entry'⟩ : ∃ p', m'.pages[i]? = some p' :=
    ⟨_, List.getElem?_eq_getElem (by rw [m'.complete]; exact managed)⟩
  obtain ⟨p, entry⟩ := entry_of m entry'
  obtain ⟨uses, enough, inside, page⟩ := (lent.split i split p p' entry entry').giveBack
    (settled p (List.mem_of_getElem? entry)) positive block
  refine ⟨_, ?_, lent.setPage split entry entry' page⟩
  have number : i * 256 + index + n - (i * 256 + index) = n := by omega
  have page : (i * 256 + index) / 256 = i := by omega
  have offset : (i * 256 + index) % 256 = index := by omega
  have last : (i * 256 + index + n - 1) / 256 = i := by omega
  rw [freeUnits, number, page, offset, last, if_neg (by omega), if_neg (not_not.mpr rfl),
    freeMicropages]
  simp only [entry', if_neg (not_not.mpr uses), if_neg (Nat.not_lt.mpr enough)]

end PageMap

end Orcos.Source.PagedRam
