import Orcos.Source.PagedRam.Ownership

/-!
# Physical allocation: what a returned address stands for

The units of an allocated area were free and belong to the process afterwards
as far as the area does not exceed the range of units the search took. It does
in two cases: a size between 64 KB and 1 MB is rounded down to 64 KB, and the
search for whole pages answers the run the map ends with although it is too
short.
-/
namespace Orcos.Guarantees.PhysicalPages
open Orcos.Source.PagedRam

variable {layout : Layout} {m m' : PageMap layout} {pid size a lo len : Nat}

/-- Unit number `u` has a byte in common with the area of `size` bytes at `a`. -/
def Covers (layout : Layout) (a size u : Nat) : Prop :=
  layout.memStart + u * 4096 < a + size ∧ a < layout.memStart + (u + 1) * 4096

/-- The allocated area is managed memory, was free, is `pid`'s now, and no
unit in use changed its owner. -/
structure Allocated (m m' : PageMap layout) (size pid a : Nat) : Prop where
  low : layout.memStart ≤ a
  high : a + size ≤ layout.memStart + layout.numPages * mappingPagesize
  before : ∀ u, Covers layout a size u → m.owner u = none
  after : ∀ u, Covers layout a size u → m'.owner u = some pid
  kept : ∀ u q, m.owner u = some q → m'.owner u = some q

/-- An area at the start of the units taken is allocated iff it does not exceed them. -/
theorem allocated_iff (granted : Granted m m' pid lo len) :
    Allocated m m' size pid (layout.memStart + lo * 4096) ↔ size ≤ len * 4096 := by
  have inside := granted.inside
  constructor
  · intro allocated
    by_contra tooLong
    -- the first unit behind those taken has not changed its owner
    have covered : Covers layout (layout.memStart + lo * 4096) size (lo + len) :=
      ⟨by omega, by omega⟩
    have unchanged := granted.after (lo + len)
    rw [if_neg (by omega), allocated.before _ covered, allocated.after _ covered] at unchanged
    cases unchanged
  · intro fits
    have range {u : Nat} (covered : Covers layout (layout.memStart + lo * 4096) size u) :
        lo ≤ u ∧ u < lo + len := by
      obtain ⟨left, right⟩ := covered
      omega
    refine ⟨Nat.le_add_right _ _, ?_, fun u covered => ?_, fun u covered => ?_, fun u q used => ?_⟩
    · simp only [mappingPagesize]
      omega
    · exact granted.before u (range covered).1 (range covered).2
    · rw [granted.after, if_pos (range covered)]
    · rw [granted.after, if_neg, used]
      rintro ⟨left, right⟩
      rw [granted.before u left right] at used
      cases used

/-- When `alloc_physical` does what it promises: the size is at most 64 KB; or
it is below 1 MB and no page has room; or a long enough run of free pages
exists, or the map does not end with a free page. -/
def Served (m : PageMap layout) (size pid : Nat) : Prop :=
  size ≤ 0x10000 ∨ (size < 0x100000 ∧ ∀ p ∈ m.pages, ¬ HasRoom pid 16 p) ∨
    (0x100000 ≤ size ∧ ((∃ j, RunAt m.pages (wholePages size) j) ∨
      ¬ FreeAt m.pages (layout.numPages - 1)))

/-- Exactly then a non-zero answer is an allocated area. -/
theorem allocPhysical_allocates_iff (m : PageMap layout) (size : Nat) (blank : Blank m)
    (real : pid < 255) :
    ∃ m' a, allocPhysical m size pid = some (m', a) ∧
      ((a ≠ 0 → Allocated m m' size pid a) ↔ Served m size pid) := by
  have isPid : pid ≠ 255 := Nat.ne_of_lt real
  have nonzero (u : Nat) : layout.memStart + u * 4096 ≠ 0 := by
    have := layout.positive
    omega
  generalize result : allocPhysical m size pid = answer
  have outcome := allocPhysical_outcome blank size pid
  rw [result] at outcome
  cases outcome with
  | full small none =>
    refine ⟨m, 0, rfl, iff_of_true (fun impossible => absurd rfl impossible) ?_⟩
    by_cases exact64 : size ≤ 0x10000
    · exact .inl exact64
    · rw [smallUnits, if_neg (by omega)] at none
      exact .inr (.inl ⟨small, none⟩)
  | @block i index p p' small entry grant =>
    refine ⟨_, _, rfl, ?_⟩
    rw [imp_iff_right (nonzero _), allocated_iff (grant.granted entry isPid blank)]
    have taken := grant.hasRoom
    have member := List.mem_of_getElem? entry
    constructor
    · intro fits
      refine .inl ?_
      rw [smallUnits] at fits
      split at fits <;> omega
    · rintro (fits | ⟨_, none⟩ | ⟨large, _⟩)
      · rw [smallUnits]
        split <;> omega
      · by_cases exact64 : size ≤ 0x1000
        · rw [smallUnits, if_pos exact64]
          omega
        · rw [smallUnits, if_neg exact64] at taken
          exact absurd taken (none p member)
      · omega
  | @run j large free =>
    have pages : 0 < wholePages size ∧ size ≤ wholePages size * 256 * 4096 := by
      rw [wholePages]
      omega
    refine ⟨_, _, rfl, ?_⟩
    rw [imp_iff_right (nonzero _), allocated_iff (free.granted pages.1 isPid)]
    exact iff_of_true pages.2 (.inr (.inr ⟨large, .inl ⟨j, free⟩⟩))
  | none large last =>
    refine ⟨m, 0, rfl, iff_of_true (fun impossible => absurd rfl impossible) ?_⟩
    refine .inr (.inr ⟨large, .inr fun free => ?_⟩)
    have page := free.lt
    rw [m.complete] at page
    exact last.stops (by omega) (by simpa using free)
  | @short r large positiveRun last =>
    have run : RunAt m.pages r (layout.numPages - r) := last.free
    have le := last.le
    have tooShort := last.short
    refine ⟨_, _, rfl, ?_⟩
    rw [imp_iff_right (nonzero _), allocated_iff (run.granted positiveRun isPid)]
    refine iff_of_false (by rw [wholePages] at tooShort; omega) ?_
    rintro (small | ⟨small, _⟩ | ⟨_, ⟨j, long⟩ | used⟩)
    · omega
    · omega
    · exact last.earlier j (long.inside (Nat.lt_of_le_of_lt (Nat.zero_le r) tooShort)) long
    · exact used (run (layout.numPages - 1) (by omega) (by omega))

theorem allocPhysical_allocates_iff_two_pages :
    ∃ m' a, allocPhysical (PageMap.allFree .twoPages) 0x180000 7 = some (m', a) ∧
      ((a ≠ 0 → Allocated (PageMap.allFree .twoPages) m' 0x180000 7 a) ↔
        Served (PageMap.allFree .twoPages) 0x180000 7) :=
  allocPhysical_allocates_iff (PageMap.allFree .twoPages) 0x180000 (blank_allFree .twoPages)
    (by decide)

/-- 70 KB get 64 KB, and 2 MB get the single page of the map. -/
theorem areas_exceed_units :
    (∃ m' a, allocPhysical (PageMap.allFree .twoPages) 0x11800 7 = some (m', a) ∧ a ≠ 0 ∧
      ¬ Allocated (PageMap.allFree .twoPages) m' 0x11800 7 a) ∧
    ∃ m' a, allocPhysical (PageMap.allFree .onePage) 0x200000 7 = some (m', a) ∧ a ≠ 0 ∧
      ¬ Allocated (PageMap.allFree .onePage) m' 0x200000 7 a := by
  constructor
  · refine ⟨_, 0x100000, rfl, by decide, fun allocated => ?_⟩
    have owned := allocated.after 16 ⟨by decide, by decide⟩
    revert owned
    decide
  · refine ⟨_, 0x100000, rfl, by decide, fun allocated => ?_⟩
    have high := allocated.high
    revert high
    decide

end Orcos.Guarantees.PhysicalPages
