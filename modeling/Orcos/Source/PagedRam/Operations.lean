import Orcos.Source.PagedRam.Manager
import Orcos.Lib.Runs

/-!
# The two searches of `alloc_physical`

Below 1 MB the search changes one page, the first that is free or leaves the
process a block. From 1 MB on it ends with the first run of free pages that is
long enough, or else with the run the map ends with.
-/
namespace Orcos.Source.PagedRam
open Orcos.Lib.WordBits

variable {memStart pid page size n k i r : Nat} {pages rest : List Page} {p p' : Page}

/-- The page takes a block of `n` micropages from number `index` on for `pid`. -/
def Grant (pid n index : Nat) (p p' : Page) : Prop :=
  (p.pid = 255 ∧ (p.markUsed pid).Taken p' n index) ∨
    (p.pid = pid ∧ p.usesMicropages ≠ 0 ∧ p.Taken p' n index)

/-- The page has a block of `n` micropages for `pid`. -/
def HasRoom (pid n : Nat) (p : Page) : Prop :=
  p.pid = 255 ∨ (p.pid = pid ∧ p.usesMicropages ≠ 0 ∧ p.Fits n)

theorem Grant.hasRoom {index : Nat} (grant : Grant pid n index p p') : HasRoom pid n p := by
  rcases grant with ⟨free, _⟩ | ⟨own, uses, taken⟩
  · exact .inl free
  · exact .inr ⟨own, uses, taken.room, index, taken.block⟩

theorem bit_blank (j : Nat) : bit (List.replicate 8 0#32) j = false := by
  simp only [bit, List.getD_eq_getElem?_getD, List.getElem?_replicate]
  split <;> simp

/-- A free page has room for any block. -/
theorem markUsed_fits (size : n = 1 ∨ n = 16) (blank : p.micropages = List.replicate 8 0#32) :
    (p.markUsed pid).Fits n := by
  refine ⟨?_, 0, Nat.dvd_zero n, by omega, fun j _ _ => ?_⟩
  · simp only [Page.markUsed]
    omega
  · simp only [Page.markUsed, blank]
    exact bit_blank j

/-- The block of `n` micropages that `pid` gets next: the first free one of the
first page that has room. -/
structure FirstFit (pages : List Page) (pid n i index : Nat) (p p' : Page) : Prop where
  entry : pages[i]? = some p
  grant : Grant pid n index p p'
  earlier : ∀ j < i, ∀ q, pages[j]? = some q → ¬ HasRoom pid n q
  least : ∀ block, p.BlockFree n block → index ≤ block

theorem FirstFit.pass {index : Nat} {q : Page} (full : ¬ HasRoom pid n q)
    (later : FirstFit rest pid n i index p p') : FirstFit (q :: rest) pid n (i + 1) index p p' where
  entry := later.entry
  grant := later.grant
  earlier j before other entry := by
    cases j with
    | zero =>
      obtain rfl := Option.some.inj entry
      exact full
    | succ j => exact later.earlier j (Nat.lt_of_succ_lt_succ before) other entry
  least := later.least

theorem FirstFit.here {index : Nat} (grant : Grant pid n index p p')
    (least : ∀ block, p.BlockFree n block → index ≤ block) :
    FirstFit (p :: rest) pid n 0 index p p' where
  entry := rfl
  grant := grant
  earlier j before := absurd before (Nat.not_lt_zero j)
  least := least

/-- The search fails when no page has room, and else takes the first block that
fits. -/
theorem searchSmall_cases (pid : Nat) (positive : 0 < memStart) (size : n = 1 ∨ n = 16)
    (blank : ∀ p ∈ pages, p.pid = 255 → p.micropages = List.replicate 8 0#32) (page : Nat) :
    (searchSmall memStart pid (n * 4096) page pages = none ∧ ∀ p ∈ pages, ¬ HasRoom pid n p) ∨
      ∃ i index p p', FirstFit pages pid n i index p p' ∧
        searchSmall memStart pid (n * 4096) page pages =
          some (page + i, p', memStart + (page + i) * mappingPagesize + index * 4096) := by
  induction pages generalizing page with
  | nil => exact .inl ⟨rfl, by simp⟩
  | cons p rest ih =>
    -- the page is passed over
    have later (full : ¬ HasRoom pid n p)
        (goesOn : searchSmall memStart pid (n * 4096) page (p :: rest) =
          searchSmall memStart pid (n * 4096) (page + 1) rest) :
        (searchSmall memStart pid (n * 4096) page (p :: rest) = none ∧
          ∀ q ∈ p :: rest, ¬ HasRoom pid n q) ∨
        ∃ i index q q', FirstFit (p :: rest) pid n i index q q' ∧
          searchSmall memStart pid (n * 4096) page (p :: rest) =
            some (page + i, q', memStart + (page + i) * mappingPagesize + index * 4096) := by
      rw [goesOn]
      rcases ih (fun q member => blank q (List.mem_cons_of_mem p member)) (page + 1) with
        ⟨failed, none⟩ | ⟨i, index, q, q', fit, found⟩
      · exact .inl ⟨failed, List.forall_mem_cons.mpr ⟨full, none⟩⟩
      · refine .inr ⟨i + 1, index, q, q', fit.pass full, ?_⟩
        rw [found, Nat.add_right_comm, Nat.add_assoc]
    by_cases free : p.pid = 255
    · have fits : (p.markUsed pid).Fits n := markUsed_fits size (blank p (by simp) free)
      rcases Page.allocSubPages_cases memStart page (p.markUsed pid) size with
        ⟨_, full⟩ | ⟨p', index, result, taken, least⟩
      · exact absurd fits full
      · refine .inr ⟨0, index, p, p', .here (.inl ⟨free, taken⟩) least, ?_⟩
        rw [searchSmall, if_pos free, result]
        rfl
    · by_cases own : p.pid = pid ∧ p.usesMicropages ≠ 0
      · rcases Page.allocSubPages_cases memStart page p size with
          ⟨result, full⟩ | ⟨p', index, result, taken, least⟩
        · refine later ?_ ?_
          · rintro (isFree | ⟨_, _, fits⟩)
            · exact free isFree
            · exact full fits
          · rw [searchSmall, if_neg free, if_pos own, result]
            rfl
        · have nonzero : memStart + page * mappingPagesize + index * 4096 ≠ 0 := by omega
          refine .inr ⟨0, index, p, p', .here (.inr ⟨own.1, own.2, taken⟩) least, ?_⟩
          rw [searchSmall, if_neg free, if_pos own, result]
          simp only [if_pos nonzero]
          rfl
      · refine later ?_ ?_
        · rintro (isFree | ⟨isOwn, uses, _⟩)
          · exact free isFree
          · exact own ⟨isOwn, uses⟩
        · rw [searchSmall, if_neg free, if_neg own]

/-- The search below 1 MB, begun at number `page`, fails when no page has room,
and else changes one page. -/
def SmallOutcome (memStart pid n page : Nat) (pages : List Page)
    (result : Option (Nat × Page × Nat)) : Prop :=
  (result = none ∧ ∀ p ∈ pages, ¬ HasRoom pid n p) ∨
    ∃ i p p' index, pages[i]? = some p ∧ Grant pid n index p p' ∧
      result = some (page + i, p', memStart + (page + i) * mappingPagesize + index * 4096)

theorem searchSmall_outcome (pid : Nat) (positive : 0 < memStart) (size : n = 1 ∨ n = 16)
    (blank : ∀ p ∈ pages, p.pid = 255 → p.micropages = List.replicate 8 0#32) (page : Nat) :
    SmallOutcome memStart pid n page pages
      (searchSmall memStart pid (n * 4096) page pages) := by
  rcases searchSmall_cases pid positive size blank page with full | ⟨i, index, p, p', fit, found⟩
  · exact .inl full
  · exact .inr ⟨i, p, p', index, fit.entry, fit.grant, found⟩

/-! ### The search for a run of free pages -/

/-- Page number `i` is free. -/
def FreeAt (pages : List Page) (i : Nat) : Prop := ∃ p, pages[i]? = some p ∧ p.pid = 255

/-- The `k` pages from number `j` on are free. -/
def RunAt (pages : List Page) (k j : Nat) : Prop := ∀ t, j ≤ t → t < j + k → FreeAt pages t

theorem FreeAt.lt (free : FreeAt pages i) : i < pages.length := by
  obtain ⟨p, entry, _⟩ := free
  exact (List.getElem?_eq_some_iff.mp entry).1

/-- The pages before number `i` end with a run of `r` free pages, too short for
`k` pages, and there is no run of `k` pages before it either. -/
structure LastRun (pages : List Page) (k i r : Nat) : Prop where
  le : r ≤ i
  free : RunAt pages r (i - r)
  stops : r < i → ¬ FreeAt pages (i - r - 1)
  short : r < k
  earlier : ∀ j, j + k ≤ i → ¬ RunAt pages k j

theorem LastRun.used (last : LastRun pages k i r) (used : ¬ FreeAt pages i) :
    LastRun pages k (i + 1) 0 where
  le := Nat.zero_le _
  free t low high := by omega
  stops _ := used
  short := Nat.lt_of_le_of_lt (Nat.zero_le r) last.short
  earlier j inside run := by
    have short := last.short
    by_cases before : j + k ≤ i
    · exact last.earlier j before run
    · exact used (run i (by omega) (by omega))

theorem LastRun.extend (last : LastRun pages k i r) (free : FreeAt pages i) :
    RunAt pages (r + 1) (i - r) := by
  intro t low high
  have le := last.le
  by_cases new : t = i
  · rw [new]
    exact free
  · exact last.free t low (by omega)

theorem LastRun.next (last : LastRun pages k i r) (free : FreeAt pages i) (short : r + 1 < k) :
    LastRun pages k (i + 1) (r + 1) where
  le := Nat.succ_le_succ last.le
  free := by
    rw [Nat.add_sub_add_right]
    exact last.extend free
  stops more := by
    rw [Nat.add_sub_add_right]
    exact last.stops (by omega)
  short := short
  earlier j inside run := by
    by_cases before : j + k ≤ i
    · exact last.earlier j before run
    · have le := last.le
      exact last.stops (by omega) (run (i - r - 1) (by omega) (by omega))

/-- The variables `area_start` and `area_size` after a run of `r` pages. -/
def area (memStart i r : Nat) : Option Nat × Nat :=
  (if r = 0 then none else some (memStart + (i - r) * mappingPagesize), r * mappingPagesize)

theorem extendArea_area (memStart i r : Nat) :
    extendArea memStart i (area memStart i r).1 (area memStart i r).2 =
      (memStart + (i - r) * mappingPagesize, (r + 1) * mappingPagesize) := by
  by_cases first : r = 0
  · simp [area, extendArea, first]
  · simp [area, extendArea, first, Nat.succ_mul]

theorem searchArea_outcome (enough : ∀ r, size ≤ r * mappingPagesize ↔ k ≤ r)
    (inside : i ≤ pages.length) (split : pages.drop i = rest) (last : LastRun pages k i r) :
    (∃ j, RunAt pages k j ∧ searchArea memStart size i rest (area memStart i r).1
        (area memStart i r).2 = (some (memStart + j * mappingPagesize), k * mappingPagesize)) ∨
      ∃ r', LastRun pages k pages.length r' ∧ searchArea memStart size i rest
        (area memStart i r).1 (area memStart i r).2 = area memStart pages.length r' := by
  induction rest generalizing i r with
  | nil =>
    have all : i = pages.length := by
      have := List.drop_eq_nil_iff.mp split
      omega
    subst all
    exact .inr ⟨r, last, rfl⟩
  | cons p rest ih =>
    have more : i < pages.length := by
      by_contra beyond
      rw [List.drop_eq_nil_of_le (Nat.le_of_not_lt beyond)] at split
      cases split
    rw [List.drop_eq_getElem_cons more, List.cons.injEq] at split
    obtain ⟨entry, tail⟩ := split
    have page : pages[i]? = some p := by rw [List.getElem?_eq_getElem more, entry]
    rw [searchArea]
    by_cases free : p.pid = 255
    · have isFree : FreeAt pages i := ⟨p, page, free⟩
      rw [if_neg (not_not.mpr free)]
      simp only [extendArea_area]
      by_cases long : size ≤ (r + 1) * mappingPagesize
      · have same : r + 1 = k := by
          have := (enough (r + 1)).mp long
          have := last.short
          omega
        rw [if_pos long]
        exact .inl ⟨i - r, same ▸ last.extend isFree, by rw [same]⟩
      · have short : r + 1 < k := by
          by_contra reached
          exact long ((enough (r + 1)).mpr (Nat.le_of_not_lt reached))
        rw [if_neg long]
        have next := ih more tail (last.next isFree short)
        simpa [area] using next
    · have isUsed : ¬ FreeAt pages i := by
        rintro ⟨q, other, isFree⟩
        rw [page, Option.some.injEq] at other
        exact free (other ▸ isFree)
      rw [if_pos free]
      simpa [area] using ih more tail (last.used isUsed)

/-- The search from 1 MB on finds a run of `k` pages, or there is none and it
ends with the run the map ends with. -/
theorem searchArea_cases (memStart : Nat) (pages : List Page)
    (enough : ∀ r, size ≤ r * mappingPagesize ↔ k ≤ r) (positive : 0 < k) :
    (∃ j, RunAt pages k j ∧ searchArea memStart size 0 pages none 0 =
        (some (memStart + j * mappingPagesize), k * mappingPagesize)) ∨
      ∃ r, LastRun pages k pages.length r ∧
        searchArea memStart size 0 pages none 0 = area memStart pages.length r := by
  have start : LastRun pages k 0 0 :=
    ⟨Nat.le_refl 0, fun t _ _ => by omega, fun impossible => by omega, positive,
      fun j inside => by omega⟩
  simpa [area] using searchArea_outcome enough (Nat.zero_le _) rfl start

end Orcos.Source.PagedRam

/-! ## What the operations do to the page map

Addresses are replaced by the numbers of the 4 KB units of the managed memory:
an allocation takes a range of units for a process, a free gives a range back.
-/
namespace Orcos.Source.PagedRam
open Orcos.Lib.WordBits

variable {layout : Layout} {m m' : PageMap layout} {pid size n : Nat}

/-! ### Addresses -/

theorem pageEntry_eq {address : Nat} (low : layout.memStart ≤ address) (word : address < 2 ^ 32) :
    pageEntry layout.memStart address = (address - layout.memStart) / 0x100000 := by
  obtain ⟨c, start⟩ := layout.isAligned
  rw [pageEntry, alignFloor_eq word (n := mappingPagesize) (k := 20) rfl (by decide), wordSub]
  simp only [mappingPagesize] at *
  omega

/-- A managed unit does not begin at a higher address than the last word. -/
theorem unit_lt {u : Nat} (inside : u ≤ layout.numPages * 256) :
    layout.memStart + u * 4096 < 2 ^ 32 := by
  have bound : u * 4096 ≤ layout.numPages * 0x100000 := by omega
  exact Nat.lt_of_le_of_lt (Nat.add_le_add_left bound _) layout.fits

/-- The page of a managed unit. -/
theorem pageEntry_unit {u : Nat} (inside : u ≤ layout.numPages * 256) :
    pageEntry layout.memStart (layout.memStart + u * 4096) = u / 256 := by
  rw [pageEntry_eq (Nat.le_add_right _ _) (unit_lt inside)]
  omega

theorem alignFloor_unit {u : Nat} (inside : u ≤ layout.numPages * 256) :
    alignFloor (layout.memStart + u * 4096) mappingPagesize =
      layout.memStart + u / 256 * mappingPagesize := by
  obtain ⟨c, start⟩ := layout.isAligned
  have quotient : (mappingPagesize * c + u * 4096) / mappingPagesize = c + u / 256 := by
    rw [Nat.mul_add_div (by decide)]
    congr 1
    exact Nat.mul_div_mul_right u 256 (by decide)
  rw [alignFloor_eq (unit_lt inside) (n := mappingPagesize) (k := 20) rfl (by decide), start,
    quotient, Nat.add_mul,
    Nat.mul_comm c]

/-- The page of the last byte before a managed unit. -/
theorem pageEntry_last {u : Nat} (positive : 0 < u) (inside : u ≤ layout.numPages * 256) :
    pageEntry layout.memStart (wordSub (layout.memStart + u * 4096) 1) = (u - 1) / 256 := by
  have word : layout.memStart + u * 4096 < 2 ^ 32 := unit_lt inside
  rw [wordSub_eq (by omega) word, pageEntry_eq (by omega) (by omega)]
  omega

/-! ### Allocation -/

/-- The pages from number `j` on are used as a whole by `pid`, `k` of them. -/
def PageMap.take (m : PageMap layout) (pid k j : Nat) : PageMap layout :=
  m.update fun i p => if j ≤ i ∧ i ≤ j + k - 1 then p.markUsed pid else p

theorem markAsUsed_area {j k : Nat} (positive : 0 < k) (inside : j + k ≤ layout.numPages) :
    markAsUsed m (layout.memStart + j * mappingPagesize)
      (layout.memStart + j * mappingPagesize + k * mappingPagesize) pid =
        some (m.take pid k j) := by
  have start : layout.memStart + j * mappingPagesize = layout.memStart + (j * 256) * 4096 := by
    simp only [mappingPagesize]
    omega
  have stop : layout.memStart + j * mappingPagesize + k * mappingPagesize =
      layout.memStart + ((j + k) * 256) * 4096 := by
    simp only [mappingPagesize]
    omega
  have peStart : j * 256 / 256 = j := Nat.mul_div_cancel j (by decide)
  have peEnd : ((j + k) * 256 - 1) / 256 = j + k - 1 := by omega
  rw [stop, start, markAsUsed, pageEntry_unit (by omega), pageEntry_last (by omega) (by omega),
    peStart, peEnd, if_neg (by omega)]
  rfl

/-- The number of micropages an allocation below 1 MB takes. -/
def smallUnits (size : Nat) : Nat := if size ≤ 0x1000 then 1 else 16

theorem roundSize_small (small : size < 0x100000) : roundSize size = smallUnits size * 4096 := by
  rw [roundSize, if_pos small, smallUnits]
  split <;> rfl

/-- The number of pages an allocation from 1 MB on takes. -/
def wholePages (size : Nat) : Nat := (size + 0xfffff) / 0x100000

/-- Every answer `alloc_physical` can give. -/
inductive AllocOutcome (m : PageMap layout) (size pid : Nat) : Option (PageMap layout × Nat) → Prop
  | full (small : size < 0x100000) (none : ∀ p ∈ m.pages, ¬ HasRoom pid (smallUnits size) p) :
      AllocOutcome m size pid (some (m, 0))
  | block {i index : Nat} {p p' : Page} (small : size < 0x100000) (entry : m.pages[i]? = some p)
      (grant : Grant pid (smallUnits size) index p p') :
      AllocOutcome m size pid
        (some (m.setPage i p', layout.memStart + (i * 256 + index) * 4096))
  | run {j : Nat} (large : 0x100000 ≤ size) (free : RunAt m.pages (wholePages size) j) :
      AllocOutcome m size pid
        (some (m.take pid (wholePages size) j, layout.memStart + (j * 256) * 4096))
  | none (large : 0x100000 ≤ size) (last : LastRun m.pages (wholePages size) layout.numPages 0) :
      AllocOutcome m size pid (some (m, 0))
  | short {r : Nat} (large : 0x100000 ≤ size) (positive : 0 < r)
      (last : LastRun m.pages (wholePages size) layout.numPages r) :
      AllocOutcome m size pid (some (m.take pid r (layout.numPages - r),
        layout.memStart + ((layout.numPages - r) * 256) * 4096))

/-- Free pages have a blank bitmap. -/
def Blank (m : PageMap layout) : Prop :=
  ∀ p ∈ m.pages, p.pid = 255 → p.micropages = List.replicate 8 0#32

theorem blank_allFree (layout : Layout) : Blank (PageMap.allFree layout) := by
  intro p member _
  rw [List.eq_of_mem_replicate member]
  rfl

theorem RunAt.inside {j k : Nat} (run : RunAt m.pages k j) (positive : 0 < k) :
    j + k ≤ layout.numPages := by
  have := (run (j + k - 1) (by omega) (by omega)).lt
  have := m.complete
  omega

/-- An allocation from 1 MB on depends on which pages are free, and on nothing else. -/
theorem allocPhysical_large (large : 0x100000 ≤ size) (pid : Nat) :
    AllocOutcome m size pid (allocPhysical m size pid) := by
  have enough : ∀ r, size ≤ r * mappingPagesize ↔ wholePages size ≤ r := by
    intro r
    simp only [mappingPagesize, wholePages]
    omega
  have positive : 0 < wholePages size := by
    rw [wholePages]
    omega
  have page (j : Nat) : j * mappingPagesize = j * 256 * 4096 := by
    simp only [mappingPagesize]
    omega
  simp only [allocPhysical, roundSize, if_neg (Nat.not_lt_of_le large), if_pos large]
  rcases searchArea_cases layout.memStart m.pages enough positive with
    ⟨j, run, found⟩ | ⟨r, last, found⟩
  · simp only [found, markAsUsed_area positive (run.inside positive), Option.map_some]
    rw [page j]
    exact .run large run
  · rw [m.complete] at last found
    by_cases empty : r = 0
    · subst empty
      simp only [found, area, if_true]
      exact .none large last
    · have inside := last.le
      have ends : layout.numPages - r + r ≤ layout.numPages := by omega
      simp only [found, area, if_neg empty, Option.map_some,
        markAsUsed_area (Nat.pos_of_ne_zero empty) ends]
      rw [page (layout.numPages - r)]
      exact .short large (Nat.pos_of_ne_zero empty) last

theorem allocPhysical_outcome (blank : Blank m) (size pid : Nat) :
    AllocOutcome m size pid (allocPhysical m size pid) := by
  by_cases small : size < 0x100000
  · have isSmall : ¬ 0x100000 ≤ smallUnits size * 4096 := by
      rw [smallUnits]
      split <;> decide
    have units : smallUnits size = 1 ∨ smallUnits size = 16 := by
      rw [smallUnits]
      split <;> simp
    simp only [allocPhysical, roundSize_small small, if_neg isSmall]
    rcases searchSmall_outcome pid layout.positive units blank 0 with
      ⟨failed, none⟩ | ⟨i, p, p', index, entry, grant, found⟩
    · rw [failed]
      exact .full small none
    · have address : layout.memStart + (0 + i) * mappingPagesize + index * 4096 =
          layout.memStart + (i * 256 + index) * 4096 := by
        simp only [mappingPagesize]
        omega
      rw [found, address, Nat.zero_add]
      exact .block small entry grant
  · exact allocPhysical_large (Nat.le_of_not_lt small) pid

/-- An allocation of 4 KB or 64 KB takes the first block that fits. -/
theorem allocPhysical_small (blank : Blank m) (pid : Nat) (units : n = 1 ∨ n = 16) :
    (allocPhysical m (n * 4096) pid = some (m, 0) ∧ ∀ p ∈ m.pages, ¬ HasRoom pid n p) ∨
      ∃ i index p p', FirstFit m.pages pid n i index p p' ∧
        allocPhysical m (n * 4096) pid =
          some (m.setPage i p', layout.memStart + (i * 256 + index) * 4096) := by
  have rounded : roundSize (n * 4096) = n * 4096 := by
    rcases units with rfl | rfl <;> rfl
  have isSmall : ¬ 0x100000 ≤ n * 4096 := by omega
  simp only [allocPhysical, rounded, if_neg isSmall]
  rcases searchSmall_cases pid layout.positive units blank 0 with
    ⟨failed, none⟩ | ⟨i, index, p, p', fit, found⟩
  · rw [failed]
    exact .inl ⟨rfl, none⟩
  · have address : layout.memStart + (0 + i) * mappingPagesize + index * 4096 =
        layout.memStart + (i * 256 + index) * 4096 := by
      simp only [mappingPagesize]
      omega
    rw [found, address, Nat.zero_add]
    exact .inr ⟨i, index, p, p', fit, rfl⟩

/-- An allocation of 1 MB takes one free page, if there is one. -/
theorem allocPhysical_page (m : PageMap layout) (pid : Nat) :
    (allocPhysical m mappingPagesize pid = some (m, 0) ∧ ∀ i, ¬ FreeAt m.pages i) ∨
      ∃ i, FreeAt m.pages i ∧ allocPhysical m mappingPagesize pid =
        some (m.take pid 1 i, layout.memStart + (i * 256) * 4096) := by
  generalize result : allocPhysical m mappingPagesize pid = answer
  have outcome := allocPhysical_large (m := m) (Nat.le_refl mappingPagesize) pid
  rw [result] at outcome
  cases outcome with
  | full small _ => exact absurd small (by decide)
  | block small _ _ => exact absurd small (by decide)
  | none _ last =>
    refine .inl ⟨rfl, fun i free => ?_⟩
    have inside := free.lt
    rw [m.complete] at inside
    apply last.earlier i inside
    intro t low high
    have same : t = i := Nat.le_antisymm (Nat.le_of_lt_succ high) low
    rw [same]
    exact free
  | @run i _ free => exact .inr ⟨i, free i (Nat.le_refl i) (Nat.lt_succ_self i), rfl⟩
  | @short r _ positive last =>
    have less : r < 1 := last.short
    omega

/-! ### Freeing -/

/-- `free_physical` on the units from `lo` up to but not including `hi`. -/
def freeUnits (m : PageMap layout) (lo hi : Nat) : PageMap layout × ErrorT :=
  if 256 ≤ hi - lo then
    (m.update fun i p => if lo / 256 ≤ i ∧ i ≤ (hi - 1) / 256 then Page.unused else p, cOk)
  else if lo / 256 ≠ (hi - 1) / 256 then (m, cInvalidArgument)
  else freeMicropages m (lo / 256) (lo % 256) (hi - lo)

/-- Units `lo` to `hi` are managed, and what is left of the addresses. -/
structure FreedRange (layout : Layout) (start stop lo hi : Nat) : Prop where
  order : lo < hi
  inside : hi ≤ layout.numPages * 256
  start : alignFloor start 4096 = layout.memStart + lo * 4096
  stop : alignCeil stop 4096 = layout.memStart + hi * 4096

theorem freePhysical_range {start stop lo hi : Nat} (range : FreedRange layout start stop lo hi)
    (m : PageMap layout) : freePhysical m start stop = freeUnits m lo hi := by
  have order := range.order
  have inside := range.inside
  have page : pageEntry layout.memStart (layout.memStart + lo * 4096) = lo / 256 :=
    pageEntry_unit (by omega)
  have last : pageEntry layout.memStart (wordSub (layout.memStart + hi * 4096) 1) =
    (hi - 1) / 256 :=
    pageEntry_last (by omega) inside
  have floor : alignFloor (layout.memStart + lo * 4096) mappingPagesize =
      layout.memStart + lo / 256 * mappingPagesize := alignFloor_unit (by omega)
  have length : layout.memStart + hi * 4096 - (layout.memStart + lo * 4096) = (hi - lo) * 4096 := by
    omega
  have offset : (layout.memStart + lo * 4096 - (layout.memStart + lo / 256 * mappingPagesize)) /
      4096 = lo % 256 := by
    simp only [mappingPagesize]
    omega
  have number : (hi - lo) * 4096 / 4096 = hi - lo := Nat.mul_div_cancel _ (by decide)
  have whole : mappingPagesize ≤ (hi - lo) * 4096 ↔ 256 ≤ hi - lo := by
    simp only [mappingPagesize]
    omega
  have accepted : ¬ (layout.memStart + hi * 4096 ≤ layout.memStart + lo * 4096 ∨
      layout.memStart + lo * 4096 < layout.memStart ∨ layout.numPages ≤ (hi - 1) / 256 ∨
      layout.numPages ≤ lo / 256) := by omega
  rw [freePhysical, freeUnits, range.start, range.stop, page, last, floor, length, offset, number,
    if_neg accepted]
  exact if_congr whole rfl rfl

/-- `free_physical` rejects a range or works on managed units. -/
theorem freePhysical_cases (m : PageMap layout) (start stop : Nat) :
    freePhysical m start stop = (m, cInvalidArgument) ∨
      ∃ lo hi, FreedRange layout start stop lo hi := by
  by_cases rejected : alignCeil stop 4096 ≤ alignFloor start 4096 ∨
      alignFloor start 4096 < layout.memStart ∨
      layout.numPages ≤ pageEntry layout.memStart (wordSub (alignCeil stop 4096) 1) ∨
      layout.numPages ≤ pageEntry layout.memStart (alignFloor start 4096)
  · exact .inl (by simp only [freePhysical, if_pos rejected])
  · obtain ⟨c, base⟩ := layout.isAligned
    obtain ⟨s, startUnit⟩ := dvd_alignFloor start (k := 12) (n := 4096) rfl (by decide)
    obtain ⟨e, stopUnit⟩ := dvd_alignFloor (stop + (4096 - 1)) (k := 12) (n := 4096) rfl (by decide)
    change alignCeil stop 4096 = 4096 * e at stopUnit
    have word : alignCeil stop 4096 < 2 ^ 32 := alignFloor_lt _ _
    have last : wordSub (alignCeil stop 4096) 1 = alignCeil stop 4096 - 1 :=
      wordSub_eq (by omega) word
    have page : pageEntry layout.memStart (alignCeil stop 4096 - 1) =
        (alignCeil stop 4096 - 1 - layout.memStart) / 0x100000 := pageEntry_eq (by omega) (by omega)
    rw [last, page] at rejected
    simp only [mappingPagesize] at base
    have order : s < e := by omega
    have low : 256 * c ≤ s := by omega
    obtain ⟨lo, rfl⟩ := Nat.exists_eq_add_of_le low
    obtain ⟨hi, rfl⟩ := Nat.exists_eq_add_of_le (show 256 * c ≤ e by omega)
    have address (u : Nat) : 4096 * (256 * c + u) = layout.memStart + u * 4096 := by
      rw [base]
      omega
    rw [address] at startUnit stopUnit
    have inside : (hi * 4096 - 1) / 1048576 < layout.numPages := by
      have bytes : layout.memStart + hi * 4096 - 1 - layout.memStart = hi * 4096 - 1 := by omega
      rw [stopUnit, bytes] at rejected
      omega
    exact .inr ⟨lo, hi, by omega, by omega, startUnit, stopUnit⟩

end Orcos.Source.PagedRam

/-! ## Several callers of `alloc_physical`

Source: src/source/mem/PagedRamMemManager.cc, `alloc_physical`, `markAsUsed`.

The lock is held during the search, and below 1 MB until the block is taken. From 1 MB on it
is released behind the search, and `markAsUsed` takes it again for the pages found. A step
is such a section, or the return of a call.
-/
namespace Orcos.Source.PagedRam
open Orcos.Lib.Runs

/-- What the first section of `alloc_physical` ends with. -/
inductive Searched (layout : Layout)
  | answered (map : PageMap layout) (addr : Nat)
  | found (areaStart areaSize : Nat)

/-- The first section of `alloc_physical`. -/
def searchPhysical {layout : Layout} (m : PageMap layout) (size pid : Nat) : Searched layout :=
  if 0x100000 ≤ roundSize size then
    match searchArea layout.memStart (roundSize size) 0 m.pages none 0 with
    | (none, _) => .answered m 0
    | (some areaStart, areaSize) => .found areaStart areaSize
  else
    match searchSmall layout.memStart pid (roundSize size) 0 m.pages with
    | none => .answered m 0
    | some (page, p', addr) => .answered (m.setPage page p') addr

/-- An area of whole pages of the map. -/
def WholeArea (layout : Layout) (areaStart areaSize : Nat) : Prop :=
  ∃ j k, 0 < k ∧ j + k ≤ layout.numPages ∧
    areaStart = layout.memStart + j * mappingPagesize ∧ areaSize = k * mappingPagesize

/-- The pages of an area are free. -/
def AreaFree {layout : Layout} (m : PageMap layout) (areaStart areaSize : Nat) : Prop :=
  ∀ i, areaStart ≤ layout.memStart + i * mappingPagesize →
    layout.memStart + i * mappingPagesize < areaStart + areaSize → FreeAt m.pages i

/-- The first section is the whole call, or finds whole pages that are still to be marked. -/
theorem searchPhysical_cases {layout : Layout} (m : PageMap layout) (size pid : Nat) :
    (∃ m' a, searchPhysical m size pid = .answered m' a ∧
      allocPhysical m size pid = some (m', a)) ∨
    ∃ areaStart areaSize, searchPhysical m size pid = .found areaStart areaSize ∧
      WholeArea layout areaStart areaSize := by
  unfold searchPhysical allocPhysical
  dsimp only
  by_cases large : 0x100000 ≤ roundSize size
  · have rounded : roundSize size = size := by
      unfold roundSize at large ⊢
      split_ifs at large ⊢ <;> omega
    rw [rounded] at large ⊢
    have enough : ∀ r, size ≤ r * mappingPagesize ↔ wholePages size ≤ r := by
      intro r
      simp only [mappingPagesize, wholePages]
      omega
    have positive : 0 < wholePages size := by
      rw [wholePages]
      omega
    rw [if_pos large, if_pos large]
    rcases searchArea_cases layout.memStart m.pages enough positive with
      ⟨j, run, found⟩ | ⟨r, last, found⟩
    · rw [found]
      exact .inr ⟨_, _, rfl, j, wholePages size, positive, run.inside positive, rfl, rfl⟩
    · rw [m.complete] at last found
      rw [found]
      by_cases empty : r = 0
      · subst empty
        exact .inl ⟨m, 0, rfl, rfl⟩
      · have inside := last.le
        simp only [area, if_neg empty]
        exact .inr ⟨_, _, rfl, layout.numPages - r, r, Nat.pos_of_ne_zero empty, by omega, rfl, rfl⟩
  · rw [if_neg large, if_neg large]
    rcases searchSmall layout.memStart pid (roundSize size) 0 m.pages with _ | ⟨page, p', addr⟩
    · exact .inl ⟨_, _, rfl, rfl⟩
    · exact .inl ⟨_, _, rfl, rfl⟩

/-- The second section marks pages that are free still. -/
theorem markAsUsed_free {layout : Layout} {m : PageMap layout} {areaStart areaSize : Nat}
    (whole : WholeArea layout areaStart areaSize) (free : AreaFree m areaStart areaSize)
    (pid : Nat) : ∃ j k, 0 < k ∧ RunAt m.pages k j ∧
      markAsUsed m areaStart (areaStart + areaSize) pid = some (m.take pid k j) := by
  obtain ⟨j, k, positive, inside, rfl, rfl⟩ := whole
  refine ⟨j, k, positive, fun i low high => ?_, markAsUsed_area positive inside⟩
  have left : j * mappingPagesize ≤ i * mappingPagesize := Nat.mul_le_mul_right _ low
  have right : i * mappingPagesize < j * mappingPagesize + k * mappingPagesize := by
    rw [← Nat.add_mul]
    exact Nat.mul_lt_mul_of_pos_right high (by decide)
  refine free i (Nat.add_le_add_left left _) ?_
  rw [Nat.add_assoc]
  exact Nat.add_lt_add_left right _

/-- Where a caller is: it has found an area, or has its answer. -/
inductive Phase
  | away
  | found (size pid areaStart areaSize : Nat)
  | returning (size pid addr : Nat)
  deriving DecidableEq

/-- What a successful call returned, with the map at that time. -/
structure Area (layout : Layout) where
  addr : Nat
  size : Nat
  pid : Nat
  map : PageMap layout

/-- The page map, its callers, and what they got so far. -/
structure Callers (τ : Type) (layout : Layout) where
  map : PageMap layout
  phase : τ → Phase
  returned : List (Area layout)

inductive Section (τ : Type)
  | search (caller : τ) (size pid : Nat)
  | mark (caller : τ)
  | return_ (caller : τ)

namespace Callers

variable {τ : Type} [DecidableEq τ] {layout : Layout} (s : Callers τ layout)

def start (map : PageMap layout) : Callers τ layout := ⟨map, fun _ => .away, []⟩

def setPhase (caller : τ) (phase : Phase) : Callers τ layout :=
  { s with phase := Function.update s.phase caller phase }

def setMap (map : PageMap layout) : Callers τ layout := { s with map := map }

/-- `alloc_physical` up to the end of its first section. -/
def search (caller : τ) (size pid : Nat) : Callers τ layout :=
  if 0x100000 ≤ roundSize size then
    match searchArea layout.memStart (roundSize size) 0 s.map.pages none 0 with
    | (none, _) => s.setPhase caller (.returning size pid 0)
    | (some areaStart, areaSize) => s.setPhase caller (.found size pid areaStart areaSize)
  else
    match searchSmall layout.memStart pid (roundSize size) 0 s.map.pages with
    | none => s.setPhase caller (.returning size pid 0)
    | some (page, p', addr) =>
      (s.setMap (s.map.setPage page p')).setPhase caller (.returning size pid addr)

/-- `markAsUsed`; a region outside the map stops the kernel. -/
def mark (caller : τ) (size pid areaStart areaSize : Nat) : Callers τ layout :=
  match markAsUsed s.map areaStart (areaStart + areaSize) pid with
  | none => s
  | some m' => (s.setMap m').setPhase caller (.returning size pid areaStart)

def return_ (caller : τ) (size pid addr : Nat) : Callers τ layout :=
  { s.setPhase caller .away with
    returned := if addr ≠ 0 then ⟨addr, size, pid, s.map⟩ :: s.returned else s.returned }

def step : Section τ → Callers τ layout
  | .search caller size pid =>
    match s.phase caller with
    | .away => s.search caller size pid
    | _ => s
  | .mark caller =>
    match s.phase caller with
    | .found size pid areaStart areaSize => s.mark caller size pid areaStart areaSize
    | _ => s
  | .return_ caller =>
    match s.phase caller with
    | .returning size pid addr => s.return_ caller size pid addr
    | _ => s

variable {s} {caller : τ} {size pid a areaSize : Nat} {m' : PageMap layout}

@[simp] theorem setPhase_phase {phase : Phase} : (s.setPhase caller phase).phase caller = phase :=
  Function.update_self ..

theorem mark_eq (taken : markAsUsed s.map a (a + areaSize) pid = some m') :
    s.mark caller size pid a areaSize = (s.setMap m').setPhase caller (.returning size pid a) := by
  simp only [mark, taken]

/-- Undisturbed, the sections are the whole call. -/
theorem sections_alone (away : s.phase caller = .away)
    (result : allocPhysical s.map size pid = some (m', a)) :
    exec step s [.search caller size pid, .mark caller] =
      (s.setMap m').setPhase caller (.returning size pid a) := by
  have searched : s.step (.search caller size pid) = s.search caller size pid := by
    simp only [step, away]
  have marked (s' : Callers τ layout) (answer : s'.phase caller = .returning size pid a) :
      s'.step (.mark caller) = s' := by
    simp only [step, answer]
  simp only [exec, searched]
  unfold allocPhysical at result
  dsimp only at result
  unfold search
  by_cases large : 0x100000 ≤ roundSize size
  · rw [if_pos large] at result ⊢
    rcases found : searchArea layout.memStart (roundSize size) 0 s.map.pages none 0 with
      ⟨_ | areaStart, areaSize⟩
    · simp only [found] at result ⊢
      cases result
      rw [marked _ setPhase_phase]
      rfl
    · simp only [found] at result ⊢
      obtain ⟨m'', taken, same⟩ := Option.map_eq_some_iff.mp result
      cases same
      simp only [step, setPhase_phase]
      rw [mark_eq (s := s.setPhase caller _) taken]
      simp only [setMap, setPhase, Function.update_idem]
  · rw [if_neg large] at result ⊢
    rcases found : searchSmall layout.memStart pid (roundSize size) 0 s.map.pages with
      _ | ⟨page, p', addr⟩
    · simp only [found] at result ⊢
      cases result
      rw [marked _ setPhase_phase]
      rfl
    · simp only [found] at result ⊢
      cases result
      rw [marked _ setPhase_phase]

end Callers

end Orcos.Source.PagedRam
