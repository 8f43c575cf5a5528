import Orcos.Guarantees.ThreadDeletion
import Orcos.Source.PagedRam.LentPieces

/-!
# The stack of a thread that comes and goes

Source: src/source/process/Thread.cc, `Thread::Thread`, `Thread::~Thread`;
src/source/mem/PagedRamMemManager.cc, `alloc_physical`, `free_physical`.

The constructor asks for the stack size, which is rounded to 4 KB, 64 KB or whole pages of
1 MB, and the destructor frees the bytes of the stack size, less those that are reserved for
the stack frame. The two agree only if these end in the last 4 KB of the block, or in the
last page.
-/
namespace Orcos.Guarantees.ThreadStacks
open Source Source.PagedRam Source.Tasks ThreadDeletion

variable {layout : Layout} {m m' : PageMap layout} {reserved size pid : Nat}

/-- The 4 KB units that the destructor names. -/
def freedUnits (reserved size : Nat) : Nat := (size - reserved + 4095) / 4096

/-- There is memory for a stack, of whole pages from 1 MB on. -/
def Enough (m : PageMap layout) (size pid : Nat) : Prop :=
  if size < 0x100000 then ∃ p ∈ m.pages, HasRoom pid (smallUnits size) p
  else ∃ j, RunAt m.pages (wholePages size) j

/-- The first page with room for a block is a free one. -/
def OpensPage (m : PageMap layout) (pid n : Nat) : Prop :=
  ∃ i, FreeAt m.pages i ∧ ∀ j < i, ∀ q, m.pages[j]? = some q → ¬ HasRoom pid n q

/-- The sizes for which the destructor frees what the constructor took. Just below 1 MB it
frees a whole page, of which the constructor took 64 KB. -/
def Matching (reserved : Nat) (m : PageMap layout) (size pid : Nat) : Prop :=
  if size ≤ 0x1000 then reserved < size
  else if size < 0x100000 then
    0xf000 + reserved < size ∧ size ≤ 0x10000 + reserved ∨
      0xff000 + reserved < size ∧ OpensPage m pid 16
  else (wholePages size - 1) * 0x100000 + reserved < size ∧ 0xff000 + reserved < size

/-! ## The range that is freed -/

section Range

variable {u : Nat} (small : reserved < 0x100000) (inside : u < layout.numPages * 256)
  (room : size < 0x100000 ∨ u * 4096 + size ≤ layout.numPages * 0x100000)

include small inside room

theorem physicalEndAddr_eq : Area.physicalEndAddr reserved ⟨pid, size, layout.memStart + u * 4096⟩ =
    layout.memStart + u * 4096 + size - reserved := by
  have base := memStart_large layout
  have fits := layout.fits
  have aligned := layout.isAligned
  unfold mappingPagesize at aligned fits
  unfold Area.physicalEndAddr wordSub wordAdd
  dsimp only
  omega

variable (pid) in
/-- A stack whose end lies in the managed memory. -/
theorem freePhysical_stack (m : PageMap layout) (some_ : reserved < size)
    (ends : u + freedUnits reserved size ≤ layout.numPages * 256) :
    freePhysical m (layout.memStart + u * 4096)
      (Area.physicalEndAddr reserved ⟨pid, size, layout.memStart + u * 4096⟩) =
      freeUnits m u (u + freedUnits reserved size) := by
  have base := memStart_large layout
  have fits := layout.fits
  have aligned := layout.isAligned
  unfold mappingPagesize at aligned fits
  rw [physicalEndAddr_eq small inside room]
  unfold freedUnits at ends ⊢
  apply freePhysical_range
  refine ⟨by omega, ends, alignFloor_managed (by omega), ?_⟩
  rw [alignCeil_word (by omega), if_pos (by omega)]
  omega

variable (pid) in
/-- The destructor frees nothing, or these units. -/
theorem freePhysical_stack_cases (m : PageMap layout) :
    freePhysical m (layout.memStart + u * 4096)
        (Area.physicalEndAddr reserved ⟨pid, size, layout.memStart + u * 4096⟩) =
        (m, cInvalidArgument) ∨
      reserved < size ∧ freePhysical m (layout.memStart + u * 4096)
        (Area.physicalEndAddr reserved ⟨pid, size, layout.memStart + u * 4096⟩) =
        freeUnits m u (u + freedUnits reserved size) := by
  have base := memStart_large layout
  have fits := layout.fits
  have aligned := layout.isAligned
  unfold mappingPagesize at aligned fits
  rcases freePhysical_cases m (layout.memStart + u * 4096)
    (Area.physicalEndAddr reserved ⟨pid, size, layout.memStart + u * 4096⟩) with
    rejected | ⟨lo, hi, range⟩
  · exact .inl rejected
  · have first := range.start
    have last := range.stop
    have order := range.order
    rw [alignFloor_managed (by omega)] at first
    rw [physicalEndAddr_eq small inside room, alignCeil_word (by omega)] at last
    have behind : reserved < size := by
      split_ifs at last
      · omega
      · omega
    have ends : hi = u + freedUnits reserved size := by
      unfold freedUnits
      split_ifs at last
      · omega
      · omega
    have start : lo = u := by omega
    subst start ends
    exact .inr ⟨behind, freePhysical_range range m⟩

end Range

/-! ## Stacks below 1 MB -/

section Block

variable {n i index c : Nat} {p p' : Page}

/-- The micropages that were taken are given back. -/
theorem block_given_back (settled : m.Settled) (real : pid ≠ 255) (positive : 0 < n)
    (narrow : n < 256) (entry : m.pages[i]? = some p) (grant : Grant pid n index p p') :
    (freeUnits (m.setPage i p') (i * 256 + index) (i * 256 + index + n)).1 = m := by
  have taken := ((PageMap.Lent.refl pid m).takeBlock settled real positive entry grant).2
  have managed : i < layout.numPages := by
    have inside := (List.getElem?_eq_some_iff.mp entry).1
    rwa [m.complete] at inside
  have lentBlock : Finset.Ico index (index + n) ⊆
      Function.update (fun _ => (∅ : Finset Nat)) i (∅ ∪ Finset.Ico index (index + n)) i := by
    rw [Function.update_self, Finset.empty_union]
  obtain ⟨after, result, lent⟩ :=
    taken.giveBackBlock settled positive narrow managed lentBlock
  have nothing : Function.update (Function.update (fun _ => (∅ : Finset Nat)) i
      (∅ ∪ Finset.Ico index (index + n))) i
      (Function.update (fun _ => (∅ : Finset Nat)) i (∅ ∪ Finset.Ico index (index + n)) i \
        Finset.Ico index (index + n)) = fun _ => ∅ := by
    rw [Function.update_self, Finset.empty_union, Finset.sdiff_self, Function.update_idem,
      Function.update_eq_self_iff]
  rw [nothing] at lent
  rw [result]
  exact lent.eq

/-- The page with the block is not what it was before. -/
theorem grant_ne (settled : p.Settled) (positive : 0 < n)
    (grant : Grant pid n index p p') : p' ≠ p := by
  intro same
  have used := grant.used settled
  rw [same] at used
  omega

theorem setPage_ne (entry : m.pages[i]? = some p) {q : Page} (differs : q ≠ p) :
    m.setPage i q ≠ m := by
  intro same
  have here := PageMap.getElem?_setPage entry q i
  rw [same, entry, if_pos rfl] at here
  exact differs (Option.some.inj here).symm

/-- Fewer or more micropages than were taken leave another page. -/
theorem freeSubPages_ne (settled : p.Settled) (grant : Grant pid n index p p')
    (enough : c ≤ p'.usedMicropages) (differs : c ≠ n) (offset : Nat) :
    p'.freeSubPages offset c ≠ p := by
  intro same
  have used := grant.used settled
  by_cases last : p'.usedMicropages - c = 0
  · rw [Page.freeSubPages, if_pos last] at same
    have unused : p.usedMicropages = 0 := by
      rw [← same]
      rfl
    omega
  · rw [Page.freeSubPages, if_neg last] at same
    have left : p'.usedMicropages - c = p.usedMicropages := congrArg Page.usedMicropages same
    omega

/-- A block in a free page is the first one of the page. -/
theorem index_eq_zero (settled : p.Settled) (free : p.pid = 255) (blocks : n = 1 ∨ n = 16)
    (least : ∀ block, p.BlockFree n block → index ≤ block) : index = 0 := by
  have blank := (settled.whole (settled.free free)).2
  apply Nat.le_zero.mp
  apply least
  refine ⟨Nat.dvd_zero n, by omega, fun k _ _ => ?_⟩
  rw [blank]
  exact bit_blank k

/-- A whole page is freed: the map is what it was if the page was free. -/
theorem page_freed_iff (settled : m.Settled) (blocks : n = 1 ∨ n = 16)
    (fit : FirstFit m.pages pid n i index p p') :
    (freeUnits (m.setPage i p') (i * 256 + index) (i * 256 + index + 256)).1 = m ↔
      p.pid = 255 := by
  have page := settled p (List.mem_of_getElem? fit.entry)
  have inside := fit.grant.block.2.1
  have first : (i * 256 + index) / 256 = i := by omega
  unfold freeUnits
  rw [if_pos (by omega), first]
  constructor
  · intro same
    have here : (PageMap.update (m.setPage i p') fun j q =>
        if i ≤ j ∧ j ≤ (i * 256 + index + 256 - 1) / 256 then Page.unused else q).pages[i]? =
        some Page.unused := by
      rw [PageMap.update, List.getElem?_mapIdx, PageMap.getElem?_setPage fit.entry, if_pos rfl]
      have range : i ≤ i ∧ i ≤ (i * 256 + index + 256 - 1) / 256 := by omega
      simp only [Option.map_some, if_pos range]
    have whole : m.pages[i]? = some Page.unused := by
      rw [← here]
      exact congrArg (fun map => map.pages[i]?) same.symm
    rw [fit.entry] at whole
    rw [Option.some.inj whole]
    rfl
  · intro free
    have start := index_eq_zero page free blocks fit.least
    apply PageMap.eq_of_pages
    apply List.ext_getElem?
    intro j
    have last : (i * 256 + index + 256 - 1) / 256 = i := by omega
    dsimp only
    rw [last, PageMap.update, List.getElem?_mapIdx, PageMap.getElem?_setPage fit.entry]
    by_cases here : j = i
    · subst here
      rw [if_pos rfl, fit.entry, page.eq_unused free]
      simp
    · have outside : ¬ (i ≤ j ∧ j ≤ i) := by omega
      simp [here, outside]

/-- Other numbers of micropages are refused, or leave another map. -/
theorem some_freed_ne (settled : m.Settled) (positive : 0 < n)
    (fit : FirstFit m.pages pid n i index p p') (some_ : 0 < c) (below : c < 256)
    (differs : c ≠ n) :
    (freeUnits (m.setPage i p') (i * 256 + index) (i * 256 + index + c)).1 ≠ m := by
  have page := settled p (List.mem_of_getElem? fit.entry)
  have inside := fit.grant.block.2.1
  have first : (i * 256 + index) / 256 = i := by omega
  have offset : (i * 256 + index) % 256 = index := by omega
  have number : i * 256 + index + c - (i * 256 + index) = c := by omega
  have changed := setPage_ne fit.entry (grant_ne page positive fit.grant)
  have here : (m.setPage i p').pages[i]? = some p' := by
    rw [PageMap.getElem?_setPage fit.entry, if_pos rfl]
  unfold freeUnits freeMicropages
  rw [if_neg (by omega), first, offset, number]
  by_cases across : i ≠ (i * 256 + index + c - 1) / 256
  · rw [if_pos across]
    exact changed
  · rw [if_neg across, here]
    dsimp only
    rw [if_neg (not_not.mpr fit.grant.own.2)]
    by_cases few : p'.usedMicropages < c
    · rw [if_pos few]
      exact changed
    · rw [if_neg few]
      have other := freeSubPages_ne page fit.grant (Nat.le_of_not_lt few) differs index
      intro same
      have entry := PageMap.getElem?_setPage here (p'.freeSubPages index c) i
      dsimp only at same
      rw [same, fit.entry, if_pos rfl] at entry
      exact other (Option.some.inj entry).symm

theorem small_restored_iff (small : reserved < 0x100000) (settled : m.Settled) (real : pid ≠ 255)
    (below : size < 0x100000) (blocks : n = 1 ∨ n = 16)
    (fit : FirstFit m.pages pid n i index p p') :
    (freePhysical (m.setPage i p') (layout.memStart + (i * 256 + index) * 4096)
        (Area.physicalEndAddr reserved
          ⟨pid, size, layout.memStart + (i * 256 + index) * 4096⟩)).1 = m ↔
      reserved < size ∧ freedUnits reserved size = n ∨
        freedUnits reserved size = 256 ∧ p.pid = 255 := by
  have page := settled p (List.mem_of_getElem? fit.entry)
  have within := fit.grant.block.2.1
  have managed : i < layout.numPages := by
    have inside := (List.getElem?_eq_some_iff.mp fit.entry).1
    rwa [m.complete] at inside
  have unit : i * 256 + index < layout.numPages * 256 := by omega
  have positive : 0 < n := by omega
  have bound : freedUnits reserved size ≤ 256 := by
    unfold freedUnits
    omega
  have some_ : reserved < size ↔ 0 < freedUnits reserved size := by
    unfold freedUnits
    omega
  by_cases matching : reserved < size ∧ freedUnits reserved size = n
  · rw [freePhysical_stack _ small unit (.inl below) _ matching.1 (by omega), matching.2]
    exact iff_of_true (block_given_back settled real positive (by omega) fit.entry fit.grant)
      (.inl ⟨matching.1, rfl⟩)
  · rcases freePhysical_stack_cases pid small unit (.inl below) (m.setPage i p') with
      rejected | ⟨behind, freed⟩
    · rw [rejected]
      have changed := setPage_ne fit.entry (grant_ne page positive fit.grant)
      apply iff_of_false changed
      rintro (fits | ⟨whole, free⟩)
      · exact matching fits
      · -- the whole page lies in the memory, so that nothing is refused
        have start := index_eq_zero page free blocks fit.least
        have accepted := freePhysical_stack pid small unit (.inl below) (m.setPage i p')
          (by omega) (by omega)
        have same := (page_freed_iff settled blocks fit).mpr free
        rw [whole, rejected] at accepted
        rw [← accepted] at same
        exact changed same
    · rw [freed]
      by_cases whole : freedUnits reserved size = 256
      · rw [whole, page_freed_iff settled blocks fit]
        constructor
        · intro free
          exact .inr ⟨rfl, free⟩
        · rintro (⟨-, same⟩ | ⟨-, free⟩)
          · omega
          · exact free
      · apply iff_of_false
        · exact some_freed_ne settled positive fit (some_.mp behind) (by omega)
            fun same => matching ⟨behind, same⟩
        · rintro (fits | ⟨all, -⟩)
          · exact matching fits
          · exact whole all

/-- The allocator opens a free page. -/
theorem opensPage_iff (fit : FirstFit m.pages pid n i index p p') :
    OpensPage m pid n ↔ p.pid = 255 := by
  constructor
  · rintro ⟨j, ⟨q, entry, free⟩, earlier⟩
    rcases Nat.lt_trichotomy j i with less | same | more
    · exact absurd (.inl free) (fit.earlier j less q entry)
    · rw [same, fit.entry] at entry
      rw [Option.some.inj entry]
      exact free
    · exact absurd fit.grant.hasRoom (earlier i more p fit.entry)
  · intro free
    exact ⟨i, ⟨p, fit.entry, free⟩, fit.earlier⟩

end Block

/-! ## Stacks from 1 MB on -/

section Pages

variable {j k t : Nat}

theorem getElem?_take (m : PageMap layout) (pid : Nat) (positive : 0 < k) :
    (m.take pid k j).pages[t]? =
      if j ≤ t ∧ t < j + k then (m.pages[t]?).map (·.markUsed pid) else m.pages[t]? := by
  have range : j ≤ t ∧ t ≤ j + k - 1 ↔ j ≤ t ∧ t < j + k := by omega
  rw [PageMap.take, PageMap.update, List.getElem?_mapIdx]
  by_cases inside : j ≤ t ∧ t < j + k
  · simp only [range, if_pos inside]
  · simp only [range, if_neg inside, Option.map_id']

/-- A free page that is in use now. -/
theorem take_changes (real : pid ≠ 255) (run : RunAt m.pages k j) (low : j ≤ t)
    (high : t < j + k) {p : Page} (entry : m.pages[t]? = some p) : p.markUsed pid ≠ p := by
  intro same
  obtain ⟨q, here, free⟩ := run t low high
  rw [entry] at here
  rw [← Option.some.inj here, ← same] at free
  exact real free

/-- The pages of a run are free again when the last one is freed too. -/
theorem pages_freed_iff (settled : m.Settled) (real : pid ≠ 255) (positive : 0 < k)
    (run : RunAt m.pages k j) {c : Nat} (whole : 256 ≤ c) (below : c ≤ k * 256) :
    (freeUnits (m.take pid k j) (j * 256) (j * 256 + c)).1 = m ↔ (k - 1) * 256 < c := by
  have first : j * 256 / 256 = j := Nat.mul_div_cancel j (by decide)
  unfold freeUnits
  rw [if_pos (by omega), first]
  constructor
  · intro same
    by_contra short
    obtain ⟨p, entry, -⟩ := run (j + k - 1) (by omega) (by omega)
    have outside : ¬ (j ≤ j + k - 1 ∧ j + k - 1 ≤ (j * 256 + c - 1) / 256) := by omega
    have here := congrArg (fun map => map.pages[j + k - 1]?) same
    dsimp only at here
    rw [PageMap.update, List.getElem?_mapIdx, getElem?_take m pid positive,
      if_pos (by omega), entry] at here
    simp only [Option.map_some, if_neg outside, Option.some.injEq] at here
    exact take_changes real run (by omega) (by omega) entry here
  · intro long
    have last : (j * 256 + c - 1) / 256 = j + k - 1 := by omega
    apply PageMap.eq_of_pages
    apply List.ext_getElem?
    intro t
    dsimp only
    rw [last, PageMap.update, List.getElem?_mapIdx, getElem?_take m pid positive]
    by_cases inside : j ≤ t ∧ t < j + k
    · obtain ⟨p, entry, free⟩ := run t inside.1 inside.2
      have unused := (settled p (List.mem_of_getElem? entry)).eq_unused free
      have range : j ≤ t ∧ t ≤ j + k - 1 := by omega
      rw [if_pos inside, entry, unused]
      simp only [Option.map_some, if_pos range]
    · have range : ¬ (j ≤ t ∧ t ≤ j + k - 1) := by omega
      simp only [if_neg inside, if_neg range, Option.map_id']

/-- A part of a page that is used as a whole cannot be freed. -/
theorem part_refused (m : PageMap layout) (positive : 0 < k) (run : RunAt m.pages k j)
    {c : Nat} (some_ : 0 < c) (below : c < 256) :
    (freeUnits (m.take pid k j) (j * 256) (j * 256 + c)).1 = m.take pid k j := by
  obtain ⟨p, entry, -⟩ := run j (Nat.le_refl j) (by omega)
  have first : j * 256 / 256 = j := Nat.mul_div_cancel j (by decide)
  have last : (j * 256 + c - 1) / 256 = j := by omega
  have here : (m.take pid k j).pages[j]? = some (p.markUsed pid) := by
    rw [getElem?_take m pid positive, if_pos (by omega), entry]
    rfl
  have undivided : (p.markUsed pid).usesMicropages ≠ 1 := Nat.zero_ne_one
  unfold freeUnits freeMicropages
  rw [if_neg (by omega), first, last, if_neg (not_not.mpr rfl), here]
  dsimp only
  rw [if_pos undivided]

theorem large_restored_iff (small : reserved < 0x100000) (settled : m.Settled) (real : pid ≠ 255)
    (above : 0x100000 ≤ size) (run : RunAt m.pages (wholePages size) j) :
    (freePhysical (m.take pid (wholePages size) j) (layout.memStart + (j * 256) * 4096)
        (Area.physicalEndAddr reserved
          ⟨pid, size, layout.memStart + (j * 256) * 4096⟩)).1 = m ↔
      (wholePages size - 1) * 0x100000 + reserved < size ∧ 0xff000 + reserved < size := by
  have positive := wholePages_pos above
  have inside := run.inside positive
  have pages : wholePages size * 0x100000 < size + 0x100000 ∧
      size ≤ wholePages size * 0x100000 := by
    unfold wholePages
    omega
  have units : freedUnits reserved size ≤ wholePages size * 256 := by
    unfold freedUnits
    omega
  rw [freePhysical_stack _ small (by omega) (.inr (by omega)) _ (by omega) (by omega)]
  by_cases whole : 256 ≤ freedUnits reserved size
  · rw [pages_freed_iff settled real positive run whole units]
    unfold freedUnits at whole ⊢
    omega
  · have some_ : 0 < freedUnits reserved size := by
      unfold freedUnits
      omega
    rw [part_refused m positive run some_ (Nat.lt_of_not_le whole)]
    apply iff_of_false
    · intro same
      obtain ⟨p, entry, -⟩ := run j (Nat.le_refl j) (by omega)
      have here := getElem?_take (t := j) (j := j) m pid positive
      rw [same, if_pos (by omega), entry] at here
      exact take_changes real run (Nat.le_refl j) (by omega) entry (Option.some.inj here).symm
    · unfold freedUnits at whole
      omega

end Pages

/-! ## All stacks -/

/-- Sizes that are rounded to the same block are served alike. -/
theorem allocPhysical_rounded (below : size < 0x100000) :
    allocPhysical m size pid = allocPhysical m (smallUnits size * 4096) pid := by
  have same : roundSize (smallUnits size * 4096) = smallUnits size * 4096 := by
    unfold smallUnits
    split_ifs
    · rfl
    · rfl
  unfold allocPhysical
  rw [roundSize_small below, same]

theorem matching_small (below : size < 0x100000) (opens : Prop) :
    (reserved < size ∧ freedUnits reserved size = smallUnits size ∨
        freedUnits reserved size = 256 ∧ opens) ↔
      if size ≤ 0x1000 then reserved < size
      else 0xf000 + reserved < size ∧ size ≤ 0x10000 + reserved ∨
        0xff000 + reserved < size ∧ opens := by
  unfold freedUnits smallUnits
  split_ifs with page
  · constructor
    · rintro (⟨behind, -⟩ | ⟨whole, -⟩)
      · exact behind
      · omega
    · intro behind
      exact .inl ⟨behind, by omega⟩
  · apply or_congr
    · omega
    · exact and_congr_left fun _ => by omega

/-- A thread that is created and destroyed leaves the page map as it was exactly for the
sizes for which the destructor frees what the constructor took. -/
theorem createAndDestroy_iff (small : reserved < 0x100000) (m : PageMap layout) (size pid : Nat)
    (settled : m.Settled) (real : pid ≠ 255) (enough : Enough m size pid) :
    createAndDestroy reserved m size pid = some m ↔ Matching reserved m size pid := by
  unfold createAndDestroy Enough Matching at *
  by_cases below : size < 0x100000
  · have blocks : smallUnits size = 1 ∨ smallUnits size = 16 := by
      unfold smallUnits
      split_ifs
      · exact .inl rfl
      · exact .inr rfl
    rw [if_pos below] at enough
    obtain ⟨page, member, room⟩ := enough
    rw [allocPhysical_rounded below]
    rcases allocPhysical_small settled.blank pid blocks with
      ⟨-, full⟩ | ⟨i, index, p, p', fit, result⟩
    · exact absurd room (full page member)
    · rw [result, Option.map_some, Option.some.injEq,
        small_restored_iff small settled real below blocks fit, ← opensPage_iff fit,
        matching_small below, if_pos below]
      by_cases single : size ≤ 0x1000
      · rw [if_pos single, if_pos single]
      · have sixteen : smallUnits size = 16 := if_neg single
        rw [if_neg single, if_neg single, sixteen]
  · have above : 0x100000 ≤ size := Nat.le_of_not_lt below
    rw [if_neg below] at enough
    obtain ⟨first, free⟩ := enough
    rw [if_neg (by omega), if_neg below]
    generalize answer : allocPhysical m size pid = result
    have outcome := allocPhysical_outcome settled.blank size pid
    rw [answer] at outcome
    have fits := free.inside (wholePages_pos above)
    cases outcome with
    | full small_ _ => exact absurd small_ below
    | block small_ _ _ => exact absurd small_ below
    | run _ run =>
      rw [Option.map_some, Option.some.injEq]
      exact large_restored_iff small settled real above run
    | none _ last => exact absurd free (last.earlier first fits)
    | short _ _ last => exact absurd free (last.earlier first fits)

theorem enough_onePage {size : Nat} (below : size < 0x100000) :
    Enough (PageMap.allFree .onePage) size 1 := by
  unfold Enough
  rw [if_pos below]
  exact ⟨Page.unused, List.mem_cons_self, .inl rfl⟩

/-- A stack of 4 KB. -/
theorem createAndDestroy_iff_unit :
    createAndDestroy 12 (PageMap.allFree .onePage) 0x1000 1 =
      some (PageMap.allFree .onePage) := by
  apply (createAndDestroy_iff (by decide) (PageMap.allFree .onePage) 0x1000 1 (.allFree .onePage)
    (by decide) (enough_onePage (by decide))).mpr
  rw [Matching, if_pos (by decide)]
  decide

/-- Of the 64 KB that a stack of 8 KB takes only 8 KB are freed. -/
theorem eight_kilobytes_leak :
    ¬ ∀ (m : PageMap .onePage) (size : Nat), m.Settled → Enough m size 1 →
      createAndDestroy 12 m size 1 = some m := by
  intro all
  have restored := all (PageMap.allFree .onePage) 0x2000 (.allFree .onePage)
    (enough_onePage (by decide))
  exact absurd restored (by decide +kernel)

end Orcos.Guarantees.ThreadStacks
