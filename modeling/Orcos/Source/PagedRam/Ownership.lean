import Mathlib.Algebra.Order.Group.Nat
import Mathlib.Data.Finset.Card
import Mathlib.Order.Interval.Finset.Nat
import Orcos.Source.PagedRam.Operations

/-!
# Who owns which unit

An operation either leaves the map alone or changes the owner of one range of
units. In a consistent map the owners of the units determine the whole map.
-/
namespace Orcos.Source.PagedRam
open Orcos.Lib.WordBits

variable {layout : Layout} {m m' : PageMap layout} {pid n index : Nat} {p p' : Page}

/-! ### One page -/

namespace Page

theorem owner_unused (k : Nat) : unused.owner k = none := rfl

theorem owner_free (free : p.pid = 255) (k : Nat) : p.owner k = none := if_pos free

theorem owner_markUsed (real : pid ≠ 255) (k : Nat) : (p.markUsed pid).owner k = some pid := by
  simp [owner, markUsed, real]

theorem owner_eq (p : Page) (k : Nat) : p.owner k = none ∨ p.owner k = some p.pid := by
  rw [owner]
  split
  · exact .inl rfl
  · split
    · exact .inr rfl
    · split
      · exact .inr rfl
      · exact .inl rfl

/-- In a subdivided page the bitmap decides. -/
theorem owner_split (real : p.pid ≠ 255) (split : p.usesMicropages ≠ 0) (k : Nat) :
    p.owner k = if bit p.micropages k then some p.pid else none := by
  rw [owner, if_neg real, if_neg split]

end Page

theorem Grant.owner (grant : Grant pid n index p p') (real : pid ≠ 255)
    (blank : p.pid = 255 → p.micropages = List.replicate 8 0#32) (k : Nat) :
    p'.owner k = if index ≤ k ∧ k < index + n then some pid else p.owner k := by
  rcases grant with ⟨free, taken⟩ | ⟨own, split, taken⟩
  · have isPid : p'.pid = pid := taken.pid
    rw [Page.owner_split (by rw [isPid]; exact real) (by rw [taken.uses]; decide), taken.bits,
      Page.owner_free free, isPid]
    have clear : bit (p.markUsed pid).micropages k = false := by
      rw [show (p.markUsed pid).micropages = List.replicate 8 0#32 from blank free, bit_blank]
    simp [clear]
  · have isPid : p'.pid = pid := taken.pid.trans own
    rw [Page.owner_split (by rw [isPid]; exact real) (by rw [taken.uses]; decide), taken.bits,
      Page.owner_split (by rw [own]; exact real) split, isPid, own]
    by_cases new : index ≤ k ∧ k < index + n
    · simp [new]
    · simp [new]

theorem Grant.unowned (grant : Grant pid n index p p') (real : pid ≠ 255) {k : Nat}
    (low : index ≤ k) (high : k < index + n) : p.owner k = none := by
  rcases grant with ⟨free, _⟩ | ⟨own, split, taken⟩
  · exact Page.owner_free free k
  · rw [Page.owner_split (by rw [own]; exact real) split, taken.block.2.2 k low high]
    rfl

theorem Grant.inside (grant : Grant pid n index p p') : index + n ≤ 256 := by
  rcases grant with ⟨_, taken⟩ | ⟨_, _, taken⟩
  · exact taken.block.2.1
  · exact taken.block.2.1

theorem Grant.multiple (grant : Grant pid n index p p') : n ∣ index := by
  rcases grant with ⟨_, taken⟩ | ⟨_, _, taken⟩
  · exact taken.block.1
  · exact taken.block.1

/-! ### The map -/

namespace PageMap

theorem owner_setPage {i : Nat} (entry : m.pages[i]? = some p) (p' : Page) (u : Nat) :
    (m.setPage i p').owner u = if u / 256 = i then p'.owner (u % 256) else m.owner u := by
  have inside := (List.getElem?_eq_some_iff.mp entry).1
  rw [owner, owner, setPage]
  by_cases here : u / 256 = i
  · rw [if_pos here, here, List.getElem?_set_self inside]
    rfl
  · rw [if_neg here, List.getElem?_set_ne (Ne.symm here)]

theorem owner_update (f : Nat → Page → Page) (u : Nat) :
    (m.update f).owner u = (m.pages[u / 256]?).bind fun p => (f (u / 256) p).owner (u % 256) := by
  rw [owner, update, List.getElem?_mapIdx]
  cases m.pages[u / 256]? <;> rfl

end PageMap

/-- The `len` units from `lo` on became `pid`'s, and nothing else changed. -/
structure Granted (m m' : PageMap layout) (pid lo len : Nat) : Prop where
  inside : lo + len ≤ layout.numPages * 256
  before : ∀ u, lo ≤ u → u < lo + len → m.owner u = none
  after : ∀ u, m'.owner u = if lo ≤ u ∧ u < lo + len then some pid else m.owner u

theorem Grant.granted {i : Nat} (grant : Grant pid n index p p') (entry : m.pages[i]? = some p)
    (real : pid ≠ 255) (blank : Blank m) : Granted m (m.setPage i p') pid (i * 256 + index) n := by
  have member := List.mem_of_getElem? entry
  have bound := grant.inside
  have page : i < layout.numPages := m.complete ▸ (List.getElem?_eq_some_iff.mp entry).1
  have here {u : Nat} (same : u / 256 = i) : m.owner u = p.owner (u % 256) := by
    rw [PageMap.owner, same, entry]
    rfl
  refine ⟨by omega, fun u low high => ?_, fun u => ?_⟩
  · rw [here (by omega)]
    exact grant.unowned real (by omega) (by omega)
  · rw [PageMap.owner_setPage entry]
    by_cases same : u / 256 = i
    · have range : (index ≤ u % 256 ∧ u % 256 < index + n) ↔
          (i * 256 + index ≤ u ∧ u < i * 256 + index + n) := by omega
      rw [if_pos same, grant.owner real (blank p member), here same, if_congr range rfl rfl]
    · rw [if_neg same, if_neg (by omega)]

theorem RunAt.granted {j k : Nat} (run : RunAt m.pages k j) (positive : 0 < k) (real : pid ≠ 255) :
    Granted m (m.take pid k j) pid (j * 256) (k * 256) := by
  have inside := run.inside positive
  refine ⟨by omega, fun u low high => ?_, fun u => ?_⟩
  · obtain ⟨p, entry, free⟩ := run (u / 256) (by omega) (by omega)
    rw [PageMap.owner, entry]
    exact Page.owner_free free (u % 256)
  · rw [PageMap.take, PageMap.owner_update]
    have range : (j ≤ u / 256 ∧ u / 256 ≤ j + k - 1) ↔
        (j * 256 ≤ u ∧ u < j * 256 + k * 256) := by omega
    simp only [if_congr range rfl rfl]
    by_cases new : j * 256 ≤ u ∧ u < j * 256 + k * 256
    · obtain ⟨p, entry, _⟩ := run (u / 256) (by omega) (by omega)
      simp only [if_pos new, entry, Option.bind_some]
      exact Page.owner_markUsed real (u % 256)
    · simp only [if_neg new]
      rfl

end Orcos.Source.PagedRam

/-! ## The two records of a page agree

The counter of a subdivided page is the number of bits set in its bitmap, and
the other pages are blank. Allocations keep this. A free below 1 MB keeps it
when the units it names are in use, since it lowers the counter by their number
without a look at the bitmap.
-/
namespace Orcos.Source.PagedRam
open Orcos.Lib.WordBits

variable {layout : Layout} {m m' : PageMap layout} {pid n index : Nat} {p p' : Page}

namespace Page

/-- The micropages the bitmap marks. -/
def usedUnits (p : Page) : Finset Nat :=
  (Finset.range 256).filter (fun k => bit p.micropages k = true)

/-- What every entry satisfies at all times: a page that is not subdivided is
blank, as is a free one, and a subdivided one counts some micropage. -/
structure Settled (p : Page) : Prop where
  flag : p.usesMicropages = 0 ∨ p.usesMicropages = 1
  inUse : p.usesMicropages = 1 → 0 < p.usedMicropages
  small : p.usedMicropages < 256
  whole : p.usesMicropages = 0 → p.usedMicropages = 0 ∧ p.micropages = List.replicate 8 0#32
  free : p.pid = 255 → p.usesMicropages = 0

structure Consistent (p : Page) : Prop where
  flag : p.usesMicropages = 0 ∨ p.usesMicropages = 1
  counted : p.usesMicropages = 1 → p.usedMicropages = p.usedUnits.card
  inUse : p.usesMicropages = 1 → 0 < p.usedMicropages
  small : p.usedMicropages < 256
  whole : p.usesMicropages = 0 → p.usedMicropages = 0 ∧ p.micropages = List.replicate 8 0#32
  free : p.pid = 255 → p.usesMicropages = 0

theorem mem_usedUnits {k : Nat} : k ∈ p.usedUnits ↔ k < 256 ∧ bit p.micropages k = true := by
  simp [usedUnits]

theorem usedUnits_blank (blank : p.micropages = List.replicate 8 0#32) : p.usedUnits = ∅ := by
  rw [Finset.eq_empty_iff_forall_notMem]
  intro k member
  have set := (mem_usedUnits.mp member).2
  rw [blank, bit_blank] at set
  cases set

/-- A page that is free or used as a whole. -/
theorem Consistent.of_blank (unsplit : p.usesMicropages = 0) (unused : p.usedMicropages = 0)
    (blank : p.micropages = List.replicate 8 0#32) : p.Consistent where
  flag := .inl unsplit
  counted split := by omega
  inUse split := by omega
  small := by omega
  whole _ := ⟨unused, blank⟩
  free _ := unsplit

theorem Consistent.unused : unused.Consistent := .of_blank rfl rfl rfl

theorem Consistent.settled (consistent : p.Consistent) : p.Settled :=
  ⟨consistent.flag, consistent.inUse, consistent.small, consistent.whole, consistent.free⟩

theorem Settled.eq_unused (settled : p.Settled) (free : p.pid = 255) : p = Page.unused := by
  have unsplit := settled.free free
  obtain ⟨unused, blank⟩ := settled.whole unsplit
  obtain ⟨pid, uses, used, micropages, words⟩ := p
  subst free unsplit unused blank
  rfl

theorem Consistent.eq_unused (consistent : p.Consistent) (free : p.pid = 255) :
    p = Page.unused := consistent.settled.eq_unused free

theorem Taken.counted (taken : p.Taken p' n index) (counted : p.usedMicropages = p.usedUnits.card) :
    p'.usedMicropages = p'.usedUnits.card := by
  have inside := taken.block.2.1
  have units : p'.usedUnits = p.usedUnits ∪ Finset.Ico index (index + n) := by
    ext k
    simp only [Finset.mem_union, Finset.mem_Ico, mem_usedUnits, taken.bits, Bool.or_eq_true,
      decide_eq_true_eq]
    constructor
    · rintro ⟨small, set | new⟩
      · exact .inl ⟨small, set⟩
      · exact .inr new
    · rintro (⟨small, set⟩ | new)
      · exact ⟨small, .inl set⟩
      · exact ⟨by omega, .inr new⟩
  have apart : Disjoint p.usedUnits (Finset.Ico index (index + n)) := by
    rw [Finset.disjoint_left]
    intro k member new
    rw [Finset.mem_Ico] at new
    have clear := taken.block.2.2 k new.1 new.2
    rw [(mem_usedUnits.mp member).2] at clear
    exact Bool.false_ne_true clear.symm
  rw [taken.used, units, Finset.card_union_of_disjoint apart, Nat.card_Ico, counted]
  omega

/-- A block of a page with matching records. -/
theorem Taken.consistent (taken : p.Taken p' n index) (positive : 0 < n)
    (counted : p.usedMicropages = p.usedUnits.card) (real : p.pid ≠ 255) : p'.Consistent where
  flag := .inr taken.uses
  counted _ := taken.counted counted
  inUse _ := by
    have := taken.used
    omega
  small := by
    have := taken.used
    have := taken.room
    omega
  whole unsplit := by
    rw [taken.uses] at unsplit
    cases unsplit
  free isFree := absurd (taken.pid.symm.trans isFree) real

/-- The bits after a range of a page was freed. -/
theorem bit_freeSubPages {offset num : Nat} (more : p.usedMicropages - num ≠ 0)
    (inside : offset + num ≤ 256) (k : Nat) : bit (p.freeSubPages offset num).micropages k =
      (bit p.micropages k && !decide (offset ≤ k ∧ k < offset + num)) := by
  rw [freeSubPages, if_neg more]
  exact bit_clearRange (by rw [p.words]; exact inside) k

theorem range_subset {offset num : Nat} (inside : offset + num ≤ 256)
    (set : ∀ k, offset ≤ k → k < offset + num → bit p.micropages k = true) :
    Finset.Ico offset (offset + num) ⊆ p.usedUnits := by
  intro k member
  obtain ⟨low, high⟩ := Finset.mem_Ico.mp member
  exact mem_usedUnits.mpr ⟨by omega, set k low high⟩

section FreeRange

variable {offset num : Nat} (consistent : p.Consistent) (split : p.usesMicropages = 1)
  (inside : offset + num ≤ 256)
  (set : ∀ k, offset ≤ k → k < offset + num → bit p.micropages k = true)

include consistent split inside set

/-- With the counter down to zero the range was all that was in use. -/
theorem range_all (last : p.usedMicropages - num = 0) :
    Finset.Ico offset (offset + num) = p.usedUnits := by
  refine Finset.eq_of_subset_of_card_le (range_subset inside set) ?_
  rw [← consistent.counted split, Nat.card_Ico]
  omega

theorem freeSubPages_consistent : (p.freeSubPages offset num).Consistent := by
  by_cases last : p.usedMicropages - num = 0
  · rw [freeSubPages, if_pos last]
    exact .unused
  · have isFreed : p.freeSubPages offset num = ⟨p.pid, p.usesMicropages, p.usedMicropages - num,
        clearRange p.micropages offset num, (clearRange_length _ _ _).trans p.words⟩ := by
      rw [freeSubPages, if_neg last]
    have units : (p.freeSubPages offset num).usedUnits =
        p.usedUnits \ Finset.Ico offset (offset + num) := by
      ext k
      simp only [Finset.mem_sdiff, Finset.mem_Ico, mem_usedUnits, bit_freeSubPages last inside,
        Bool.and_eq_true, Bool.not_eq_true', decide_eq_false_iff_not, and_assoc]
    have small := consistent.small
    refine ⟨by rw [isFreed]; exact .inr split, fun _ => ?_, fun _ => ?_, ?_, fun unsplit => ?_,
      fun isFree => ?_⟩
    · rw [units, Finset.card_sdiff_of_subset (range_subset inside set),
        Nat.card_Ico, ← consistent.counted split, isFreed]
      simp only
      omega
    · rw [isFreed]
      exact Nat.pos_of_ne_zero last
    · rw [isFreed]
      simp only
      omega
    · rw [isFreed] at unsplit
      simp only [split] at unsplit
      cases unsplit
    · rw [isFreed] at isFree ⊢
      exact consistent.free isFree

theorem freeSubPages_owner (k : Nat) (small : k < 256) : (p.freeSubPages offset num).owner k =
    if offset ≤ k ∧ k < offset + num then none else p.owner k := by
  have real : p.pid ≠ 255 := by
    intro isFree
    rw [consistent.free isFree] at split
    cases split
  have isSplit : p.usesMicropages ≠ 0 := by omega
  by_cases last : p.usedMicropages - num = 0
  · have all := range_all consistent split inside set last
    rw [freeSubPages, if_pos last, owner_unused, owner_split real isSplit]
    by_cases freed : offset ≤ k ∧ k < offset + num
    · rw [if_pos freed]
    · have clear : ¬ bit p.micropages k = true := by
        intro isSet
        have member := mem_usedUnits.mpr ⟨small, isSet⟩
        rw [← all, Finset.mem_Ico] at member
        exact freed member
      rw [if_neg freed, if_neg clear]
  · have pid : (p.freeSubPages offset num).pid = p.pid := by rw [freeSubPages, if_neg last]
    have uses : (p.freeSubPages offset num).usesMicropages = p.usesMicropages := by
      rw [freeSubPages, if_neg last]
    rw [owner_split (by rw [pid]; exact real) (by rw [uses]; exact isSplit),
      bit_freeSubPages last inside, owner_split real isSplit, pid]
    by_cases freed : offset ≤ k ∧ k < offset + num
    · simp [freed]
    · simp [freed]

end FreeRange

end Page

/-! ### The map -/

def Consistent (m : PageMap layout) : Prop := ∀ p ∈ m.pages, p.Consistent

theorem Consistent.blank (consistent : Consistent m) : Blank m := fun p member free =>
  ((consistent p member).whole ((consistent p member).free free)).2

theorem Consistent.allFree (layout : Layout) : Consistent (PageMap.allFree layout) := by
  intro p member
  rw [List.eq_of_mem_replicate member]
  exact .unused

theorem PageMap.forall_setPage {good : Page → Prop} (all : ∀ q ∈ m.pages, good q) {i : Nat}
    (page : good p) : ∀ q ∈ (m.setPage i p).pages, good q := by
  intro q member
  rcases List.mem_or_eq_of_mem_set member with old | rfl
  · exact all q old
  · exact page

theorem PageMap.forall_update {good : Page → Prop} {f : Nat → Page → Page}
    (pages : ∀ i p, m.pages[i]? = some p → good (f i p)) : ∀ q ∈ (m.update f).pages, good q := by
  intro q member
  obtain ⟨i, inside, rfl⟩ := List.mem_mapIdx.mp member
  exact pages i _ (List.getElem?_eq_getElem inside)

theorem Consistent.setPage (consistent : Consistent m) {i : Nat} (page : p.Consistent) :
    Consistent (m.setPage i p) := PageMap.forall_setPage consistent page

theorem Consistent.update {f : Nat → Page → Page}
    (pages : ∀ i p, m.pages[i]? = some p → (f i p).Consistent) : Consistent (m.update f) :=
  PageMap.forall_update pages

theorem Grant.consistent (grant : Grant pid n index p p') (positive : 0 < n) (real : pid ≠ 255)
    (consistent : p.Consistent) : p'.Consistent := by
  rcases grant with ⟨free, taken⟩ | ⟨own, split, taken⟩
  · obtain ⟨_, blank⟩ := consistent.whole (consistent.free free)
    refine taken.consistent positive ?_ real
    rw [Page.usedUnits_blank (p := p.markUsed pid) blank]
    rfl
  · have isSplit : p.usesMicropages = 1 := by
      have := consistent.flag
      omega
    exact taken.consistent positive (consistent.counted isSplit) (by rw [own]; exact real)

theorem Consistent.take (consistent : Consistent m) {j k : Nat} (run : RunAt m.pages k j)
    (positive : 0 < k) : Consistent (m.take pid k j) := by
  refine .update fun i p entry => ?_
  have page := consistent p (List.mem_of_getElem? entry)
  by_cases inside : j ≤ i ∧ i ≤ j + k - 1
  · obtain ⟨q, same, free⟩ := run i inside.1 (by omega)
    obtain rfl : p = q := by rw [entry] at same; exact Option.some.inj same
    rw [if_pos inside]
    exact .of_blank rfl rfl (page.whole (page.free free)).2
  · rw [if_neg inside]
    exact page

/-- The units an allocation took, from `lo` on. -/
inductive Extent (layout : Layout) (size lo : Nat) : Nat → Prop
  | small (below : size < 0x100000) (multiple : smallUnits size ∣ lo) :
      Extent layout size lo (smallUnits size)
  | whole (above : 0x100000 ≤ size) (multiple : 256 ∣ lo) :
      Extent layout size lo (wholePages size * 256)
  | short {r : Nat} (above : 0x100000 ≤ size) (multiple : 256 ∣ lo) (positive : 0 < r)
      (less : r < wholePages size) (ends : lo + r * 256 = layout.numPages * 256) :
      Extent layout size lo (r * 256)

theorem smallUnits_pos (size : Nat) : 0 < smallUnits size := by
  rw [smallUnits]
  split <;> decide

theorem wholePages_pos {size : Nat} (above : 0x100000 ≤ size) : 0 < wholePages size := by
  rw [wholePages]
  omega

/-- `alloc_physical` fails, or gives units to the process. -/
theorem allocPhysical_granted (consistent : Consistent m) (size : Nat) (real : pid ≠ 255) :
    allocPhysical m size pid = some (m, 0) ∨
      ∃ m' lo len, allocPhysical m size pid = some (m', layout.memStart + lo * 4096) ∧
        Consistent m' ∧ Granted m m' pid lo len ∧ Extent layout size lo len := by
  generalize result : allocPhysical m size pid = answer
  have outcome := allocPhysical_outcome consistent.blank size pid
  rw [result] at outcome
  cases outcome with
  | full _ _ => exact .inl rfl
  | none _ _ => exact .inl rfl
  | @block i index p p' small entry grant =>
    have page := consistent p (List.mem_of_getElem? entry)
    have multiple : smallUnits size ∣ i * 256 + index := by
      refine Nat.dvd_add (Nat.dvd_mul_left_of_dvd ?_ i) grant.multiple
      rw [smallUnits]
      split <;> decide
    exact .inr ⟨_, _, _, rfl,
      consistent.setPage (grant.consistent (smallUnits_pos size) real page),
      grant.granted entry real consistent.blank, .small small multiple⟩
  | @run j large free =>
    have positive := wholePages_pos large
    exact .inr ⟨_, _, _, rfl, consistent.take free positive, free.granted positive real,
      .whole large (Nat.dvd_mul_left 256 j)⟩
  | @short r large positive last =>
    have run : RunAt m.pages r (layout.numPages - r) := last.free
    have le := last.le
    exact .inr ⟨_, _, _, rfl, consistent.take run positive, run.granted positive real,
      .short large (Nat.dvd_mul_left 256 _) positive last.short (by omega)⟩

theorem Consistent.freeAll (consistent : Consistent m) (pid : Nat) :
    Consistent (freeAll m pid) := by
  refine .update fun i p entry => ?_
  split
  · exact .unused
  · exact consistent p (List.mem_of_getElem? entry)

/-- The units from `lo` up to but not including `hi` have no owner any more,
and nothing else changed. -/
def Released (m m' : PageMap layout) (lo hi : Nat) : Prop :=
  ∀ u, m'.owner u = if lo ≤ u ∧ u < hi then none else m.owner u

/-- From 1 MB on all pages that are touched become free. -/
theorem freeUnits_large {lo hi : Nat} (order : lo < hi) (large : 256 ≤ hi - lo) :
    ∃ m', freeUnits m lo hi = (m', cOk) ∧ (Consistent m → Consistent m') ∧
      Released m m' (lo / 256 * 256) ((hi - 1) / 256 * 256 + 256) := by
  refine ⟨_, if_pos large, fun consistent => .update fun i p entry => ?_, fun u => ?_⟩
  · split
    · exact .unused
    · exact consistent p (List.mem_of_getElem? entry)
  · have range : (lo / 256 ≤ u / 256 ∧ u / 256 ≤ (hi - 1) / 256) ↔
        (lo / 256 * 256 ≤ u ∧ u < (hi - 1) / 256 * 256 + 256) := by omega
    rw [PageMap.owner_update]
    simp only [if_congr range rfl rfl]
    by_cases freed : lo / 256 * 256 ≤ u ∧ u < (hi - 1) / 256 * 256 + 256
    · simp only [if_pos freed]
      cases m.pages[u / 256]? <;> rfl
    · simp only [if_neg freed]
      rfl

/-- A free below 1 MB is rejected or works inside one subdivided page. -/
theorem freeUnits_checks (m : PageMap layout) {lo hi : Nat} (small : hi - lo < 256) :
    freeUnits m lo hi = (m, cInvalidArgument) ∨ (freeUnits m lo hi).2 = cOk ∧
      lo / 256 = (hi - 1) / 256 ∧ ∃ p, m.pages[lo / 256]? = some p ∧ p.usesMicropages = 1 := by
  rw [freeUnits, if_neg (by omega)]
  by_cases same : lo / 256 = (hi - 1) / 256
  · rw [if_neg (not_not.mpr same), freeMicropages]
    cases entry : m.pages[lo / 256]? with
    | none => exact .inl rfl
    | some p =>
      by_cases split : p.usesMicropages = 1
      · by_cases less : p.usedMicropages < hi - lo
        · exact .inl (by simp [split, less])
        · exact .inr ⟨by simp [split, less], same, p, rfl, split⟩
      · exact .inl (if_pos split)
  · exact .inl (if_pos same)

/-- A range inside a subdivided page whose units are in use becomes free. -/
theorem freeUnits_small (consistent : Consistent m) {lo hi : Nat} (order : lo < hi)
    (small : hi - lo < 256) (same : lo / 256 = (hi - 1) / 256)
    (entry : m.pages[lo / 256]? = some p) (split : p.usesMicropages = 1)
    (used : ∀ u, lo ≤ u → u < hi → m.owner u ≠ none) :
    ∃ m', freeUnits m lo hi = (m', cOk) ∧ Consistent m' ∧ Released m m' lo hi := by
  have page := consistent p (List.mem_of_getElem? entry)
  have real : p.pid ≠ 255 := fun free => by
    rw [page.free free] at split
    cases split
  have here {u : Nat} (inPage : u / 256 = lo / 256) : m.owner u = p.owner (u % 256) := by
    rw [PageMap.owner, inPage, entry]
    rfl
  have inside : lo % 256 + (hi - lo) ≤ 256 := by omega
  have set : ∀ k, lo % 256 ≤ k → k < lo % 256 + (hi - lo) → bit p.micropages k = true := by
    intro k low high
    have inUse := used (lo / 256 * 256 + k) (by omega) (by omega)
    rw [here (by omega), Page.owner_split real (by omega)] at inUse
    have position : (lo / 256 * 256 + k) % 256 = k := by omega
    rw [position] at inUse
    by_contra clear
    rw [if_neg clear] at inUse
    exact inUse rfl
  have enough : ¬ p.usedMicropages < hi - lo := by
    have card := Finset.card_le_card (Page.range_subset inside set)
    rw [← page.counted split, Nat.card_Ico] at card
    omega
  refine ⟨m.setPage (lo / 256) (p.freeSubPages (lo % 256) (hi - lo)), ?_,
    consistent.setPage (Page.freeSubPages_consistent page split inside set), fun u => ?_⟩
  · rw [freeUnits, if_neg (by omega), if_neg (not_not.mpr same), freeMicropages]
    simp only [entry, if_neg (not_not.mpr split), if_neg enough]
  · rw [PageMap.owner_setPage entry]
    by_cases inPage : u / 256 = lo / 256
    · have range : (lo % 256 ≤ u % 256 ∧ u % 256 < lo % 256 + (hi - lo)) ↔ (lo ≤ u ∧ u < hi) := by
        omega
      rw [if_pos inPage, here inPage,
        Page.freeSubPages_owner page split inside set _ (Nat.mod_lt u (by decide)),
        if_congr range rfl rfl]
    · rw [if_neg inPage, if_neg (by omega)]

theorem PageMap.owner_freeAll (m : PageMap layout) (pid u : Nat) :
    (freeAll m pid).owner u = if m.owner u = some pid then none else m.owner u := by
  rw [Source.PagedRam.freeAll, owner_update, owner]
  cases m.pages[u / 256]? with
  | none => rfl
  | some p =>
    simp only [Option.bind_some]
    by_cases own : p.pid = pid
    · rw [if_pos own, Page.owner_unused]
      rcases p.owner_eq (u % 256) with free | used
      · simp [free]
      · simp [used, own]
    · rw [if_neg own]
      rcases p.owner_eq (u % 256) with free | used
      · simp [free]
      · simp [used, own]

end Orcos.Source.PagedRam

/-! ## What every call keeps

The counter and the bitmap of a page may differ once a free named units that
were not in use. Less holds after all calls whatever they free: a page that is
not subdivided is blank, and the counter of a subdivided one is not zero.
-/
namespace Orcos.Source.PagedRam
open Orcos.Lib.WordBits

variable {layout : Layout} {m m' : PageMap layout} {pid n index : Nat} {p p' : Page}

namespace Page

theorem Settled.unused : unused.Settled := Consistent.unused.settled

theorem Settled.markUsed (settled : p.Settled) (free : p.pid = 255) (pid : Nat) :
    (p.markUsed pid).Settled where
  flag := .inl rfl
  inUse split := absurd split (show (0 : Nat) ≠ 1 by decide)
  small := show 0 < 256 by decide
  whole _ := ⟨rfl, (settled.whole (settled.free free)).2⟩
  free _ := rfl

theorem Settled.freeSubPages (settled : p.Settled) (split : p.usesMicropages = 1)
    (offset num : Nat) : (p.freeSubPages offset num).Settled := by
  rw [Page.freeSubPages]
  by_cases last : p.usedMicropages - num = 0
  · rw [if_pos last]
    exact .unused
  · have small := settled.small
    rw [if_neg last]
    refine ⟨.inr split, fun _ => Nat.pos_of_ne_zero last, ?_, fun unsplit => ?_, settled.free⟩
    · simp only
      omega
    · simp only [split] at unsplit
      cases unsplit

end Page

theorem Grant.settled (grant : Grant pid n index p p') (positive : 0 < n) (real : pid ≠ 255) :
    p'.Settled := by
  obtain ⟨q, isPid, taken⟩ : ∃ q : Page, q.pid = pid ∧ q.Taken p' n index := by
    rcases grant with ⟨_, taken⟩ | ⟨own, _, taken⟩
    · exact ⟨p.markUsed pid, rfl, taken⟩
    · exact ⟨p, own, taken⟩
  have room := taken.room
  have used := taken.used
  refine ⟨.inr taken.uses, fun _ => by omega, by omega, fun unsplit => ?_, fun free => ?_⟩
  · rw [taken.uses] at unsplit
    cases unsplit
  · exact absurd ((taken.pid.trans isPid).symm.trans free) real

namespace PageMap

def Settled (m : PageMap layout) : Prop := ∀ p ∈ m.pages, p.Settled

theorem Settled.blank (settled : m.Settled) : Blank m := fun p member free =>
  ((settled p member).whole ((settled p member).free free)).2

theorem Settled.allFree (layout : Layout) : (allFree layout).Settled := fun p member =>
  (Consistent.allFree layout p member).settled

theorem Settled.take (settled : m.Settled) {j k : Nat} (run : RunAt m.pages k j)
    (positive : 0 < k) : (m.take pid k j).Settled := by
  refine forall_update fun i p entry => ?_
  have page := settled p (List.mem_of_getElem? entry)
  by_cases inside : j ≤ i ∧ i ≤ j + k - 1
  · obtain ⟨q, same, free⟩ := run i inside.1 (by omega)
    obtain rfl : p = q := by rw [entry] at same; exact Option.some.inj same
    rw [if_pos inside]
    exact page.markUsed free pid
  · rw [if_neg inside]
    exact page

theorem Settled.allocPhysical (settled : m.Settled) (real : pid ≠ 255) {size a : Nat}
    (result : allocPhysical m size pid = some (m', a)) : m'.Settled := by
  have outcome := allocPhysical_outcome settled.blank size pid
  rw [result] at outcome
  cases outcome with
  | full _ _ => exact settled
  | none _ _ => exact settled
  | block _ _ grant => exact forall_setPage settled (grant.settled (smallUnits_pos size) real)
  | run large free => exact settled.take free (wholePages_pos large)
  | short _ positive last => exact settled.take last.free positive

theorem Settled.freePhysical (settled : m.Settled) (start stop : Nat) :
    (freePhysical m start stop).1.Settled := by
  rcases freePhysical_cases m start stop with rejected | ⟨lo, hi, range⟩
  · rw [rejected]
    exact settled
  · rw [freePhysical_range range, freeUnits]
    split
    · refine forall_update fun i p entry => ?_
      split
      · exact .unused
      · exact settled p (List.mem_of_getElem? entry)
    · split
      · exact settled
      · rw [freeMicropages]
        cases entry : m.pages[lo / 256]? with
        | none => exact settled
        | some p =>
          have page := settled p (List.mem_of_getElem? entry)
          by_cases split : p.usesMicropages = 1
          · by_cases less : p.usedMicropages < hi - lo
            · simpa [split, less] using settled
            · have freed : (m.setPage (lo / 256) (p.freeSubPages (lo % 256) (hi - lo))).Settled :=
                forall_setPage settled (page.freeSubPages split _ _)
              simpa [split, less] using freed
          · simpa [split] using settled

theorem Settled.freeAll (settled : m.Settled) (pid : Nat) : (freeAll m pid).Settled := by
  refine forall_update fun i p entry => ?_
  split
  · exact .unused
  · exact settled p (List.mem_of_getElem? entry)

end PageMap

end Orcos.Source.PagedRam
