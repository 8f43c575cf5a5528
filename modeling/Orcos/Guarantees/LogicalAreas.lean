import Orcos.Guarantees.PageConsistency
import Orcos.Source.PagedRam.LentPieces

/-!
# A logical area that is freed again

The length of an area tells `free_logical` where it was cut only if its last
piece stands out: a whole number of 64 KB ends with sixteen pieces of 4 KB that
are freed as one block, a whole number of 1 MB with pieces of 64 KB and 4 KB
that are freed as one page. From 2 GB on the length is negative and nothing is
freed.
-/
namespace Orcos.Guarantees.LogicalAreas
open Orcos.Lib.Runs Orcos.Lib.WordBits Orcos.Source Orcos.Source.PagedRam

variable {layout : Layout} {σ : Type}

/-- A size rounded up to pages of 4 KB. -/
def areaLength (size : Nat) : Nat := (size + 0xfff) / 0x1000 * 0x1000

/-- The pieces an area begins with, before those of 4 KB. -/
def largerPieces (size : Nat) : List Nat :=
  List.replicate ((size - 1) / 0x100000) mappingPagesize ++
    List.replicate ((size - 1) % 0x100000 / 0x10000) 0x10000

/-- The map after `alloc_physical` for each of the sizes. -/
def allocEach (m : PageMap layout) (pid : Nat) : List Nat → Option (PageMap layout)
  | [] => some m
  | size :: rest => (allocPhysical m size pid).bind fun (m', _) => allocEach m' pid rest

/-- When an area can be freed again: it is below 2 GB; and it is not a whole
number of 64 KB, or it is not one of 1 MB and the sixteen micropages that come
next after the larger pieces are free in a row. -/
def Restorable (m : PageMap layout) (size pid : Nat) : Prop :=
  areaLength size < 2 ^ 31 ∧ (¬ 0x10000 ∣ areaLength size ∨ (¬ 0x100000 ∣ areaLength size ∧
    ∃ m', allocEach m pid (largerPieces size) = some m' ∧ ∃ i index p, Row m' pid 16 i index p))

/-! ### What the calls keep -/

/-- Whatever was allocated and freed before, all entries are settled. -/
theorem exec_settled (calls : List PageConsistency.Call)
    (real : ∀ size pid, .allocPhysical size pid ∈ calls → pid < 255) :
    (exec PageConsistency.step (PageConsistency.start layout) calls).map.Settled := by
  have ok : Admissible PageConsistency.step
      (fun _ call => ∀ size pid, call = .allocPhysical size pid → pid < 255)
      (PageConsistency.start layout) calls := by
    refine admissible_of_forall _ _ _ fun call member size pid same => ?_
    subst same
    exact real size pid member
  refine exec_invariant (fun s : PageConsistency.Session layout => s.map.Settled)
    (fun s call settled small => ?_) calls _ (PageMap.Settled.allFree layout) ok
  cases call with
  | allocPhysical size pid =>
    simp only [PageConsistency.step]
    cases result : allocPhysical s.map size pid with
    | none => exact settled
    | some answer => exact settled.allocPhysical (Nat.ne_of_lt (small size pid rfl)) result
  | freePhysical first last => exact settled.freePhysical first last
  | freeAll pid => exact settled.freeAll pid

theorem allocEach_given {m m' : PageMap layout} {pid n : Nat} {ps : List Piece}
    (units : ∀ piece ∈ ps, piece.units = n) (given : Given pid m ps m') (rest : List Nat) :
    allocEach m pid (List.replicate ps.length (n * 4096) ++ rest) = allocEach m' pid rest := by
  induction given with
  | nil _ => rfl
  | cons first _ ih =>
    obtain ⟨here, later⟩ := List.forall_mem_cons.mp units
    rw [here] at first
    rw [List.length_cons, List.replicate_succ, List.cons_append, allocEach, first]
    exact ih later

/-! ### Freeing an area -/

/-- An area that was allocated: the maps after its pages, its blocks and its
single micropages, and where they are. -/
structure Area (m m₁ m₂ m' : PageMap layout) (pid size r : Nat) (translate : Nat → Nat)
    (ws bs us : List Piece) : Prop where
  settled : m.Settled
  real : pid ≠ 255
  positive : 0 < size
  cut : Cut size ws bs us
  pages : Given pid m ws m₁
  blocks : Given pid m₁ bs m₂
  singles : Given pid m₂ us m'
  start : 4096 ∣ r
  fits : r + bytes (ws ++ (bs ++ us)) < 2 ^ 32
  located : Located layout translate r (ws ++ (bs ++ us))

variable {m m₁ m₂ m' n : PageMap layout} {pid size r : Nat} {translate : Nat → Nat}
  {ws bs us : List Piece}

namespace Area

/-- The numbers of pieces and the length of the area. -/
theorem lengths (area : Area m m₁ m₂ m' pid size r translate ws bs us) :
    bytes ws = ws.length * 0x100000 ∧ bytes bs = bs.length * 0x10000 ∧
      bytes us = us.length * 0x1000 ∧ bs.length ≤ 15 ∧ 0 < us.length ∧ us.length ≤ 16 ∧
      areaLength size = bytes ws + (bytes bs + bytes us) := by
  have whole := bytes_eq area.cut.pages
  have block := bytes_eq area.cut.blocks
  have single := bytes_eq area.cut.singles
  have pageCount := area.cut.pageCount
  have blockCount := area.cut.blockCount
  have singleCount := area.cut.singleCount
  have positive := area.positive
  simp only [areaLength]
  refine ⟨by omega, by omega, by omega, by omega, by omega, by omega, by omega⟩

theorem settled₁ (area : Area m m₁ m₂ m' pid size r translate ws bs us) : m₁.Settled :=
  area.pages.settled area.real area.settled

theorem settled₂ (area : Area m m₁ m₂ m' pid size r translate ws bs us) : m₂.Settled :=
  area.blocks.settled area.real area.settled₁

theorem smalls (area : Area m m₁ m₂ m' pid size r translate ws bs us) :
    ∀ piece ∈ bs ++ us, piece.units = 1 ∨ piece.units = 16 := by
  intro piece member
  rcases List.mem_append.mp member with block | single
  · exact .inr (area.cut.blocks piece block)
  · exact .inl (area.cut.singles piece single)

theorem managed (area : Area m m₁ m₂ m' pid size r translate ws bs us) :
    ∀ piece ∈ ws ++ (bs ++ us), Managed layout piece := by
  refine Given.managed area.real (fun piece member => ?_)
    (area.pages.append (area.blocks.append area.singles)) area.settled
  rcases List.mem_append.mp member with whole | small
  · exact .inl (area.cut.pages piece whole)
  · exact .inr (area.smalls piece small)

/-- All pieces are lent. -/
theorem lent (area : Area m m₁ m₂ m' pid size r translate ws bs us) :
    m.Lent pid (pagesOf ws).toFinset (fun _ => ∅) m₁ ∧ (pagesOf ws).Nodup ∧
      (∀ piece ∈ ws, 256 ∣ piece.first) ∧ Apart (bs ++ us) ∧
      m.Lent pid (pagesOf ws).toFinset (unitsIn (bs ++ us)) m' := by
  obtain ⟨nodup, _, multiples, whole⟩ := area.pages.lent_pages area.real area.cut.pages
    area.settled (.refl pid m)
  rw [Finset.empty_union] at whole
  obtain ⟨_, apart, small⟩ := (area.blocks.append area.singles).lent area.settled area.real
    area.smalls area.settled₁ whole
  exact ⟨whole, nodup, multiples, apart, by simpa using small⟩

/-- The loops start with the length of the area, or with none. -/
theorem freeLogical_eq (area : Area m m₁ m₂ m' pid size r translate ws bs us) :
    freeLogical translate m' r (r + size) =
      match freeRounds translate m' r (if areaLength size < 2 ^ 31 then areaLength size else 0) with
      | .ok (n, _, _) => (n, cOk)
      | .error n => (n, cError) := by
  obtain ⟨q, page⟩ := area.start
  have fits := area.fits
  have positive := area.positive
  obtain ⟨_, _, _, _, _, _, total⟩ := area.lengths
  rw [bytes_append, bytes_append, ← total] at fits
  have rounded : areaLength size = (size + 4095) / 4096 * 4096 := rfl
  have floor : alignFloor r 4096 = r := by
    rw [alignFloor_eq (by omega) (n := 4096) (k := 12) rfl (by decide)]
    omega
  have ceil : alignCeil (r + size) 4096 = r + areaLength size := by
    rw [alignCeil_eq (by omega) (n := 4096) (k := 12) rfl (by decide)]
    omega
  have length : (int4 (wordSub (r + areaLength size) r)).toNat =
      if areaLength size < 2 ^ 31 then areaLength size else 0 := by
    rw [wordSub_eq (by omega) fits, Nat.add_sub_cancel_left, int4, BitVec.toInt_eq_toNat_cond,
      BitVec.toNat_ofNat, Nat.mod_eq_of_lt (by omega)]
    split <;> split <;> omega
  rw [freeLogical, if_neg (by omega), floor, ceil]
  cases answer : freeRounds translate m' r (if areaLength size < 2 ^ 31 then areaLength size else 0)
  · simp only [length, answer]
  · simp only [length, answer]

end Area

/-- A loop that has less left than one piece ends. -/
theorem freePieces_stop {mappingSize length a : Nat} (positive : 0 < mappingSize)
    (less : length < mappingSize) : freePieces translate mappingSize positive length n a =
      .ok (n, a, length) := by
  rw [freePieces, if_neg (Nat.not_le.mpr less)]

/-- The three rounds one after the other. -/
theorem freeRounds_ok {a a₁ a₂ a₃ length l₁ l₂ l₃ : Nat} {n₁ n₂ n₃ : PageMap layout}
    (first : freePieces translate mappingPagesize (by decide) length n a = .ok (n₁, a₁, l₁))
    (second : freePieces translate 0x10000 (by decide) l₁ n₁ a₁ = .ok (n₂, a₂, l₂))
    (third : freePieces translate 0x1000 (by decide) l₂ n₂ a₂ = .ok (n₃, a₃, l₃)) :
    freeRounds translate n a length = .ok (n₃, a₃, l₃) := by
  rw [freeRounds, first]
  simp only [bind, Except.bind, second, third]

theorem freeRounds_error_first {a length : Nat} {n₁ : PageMap layout}
    (first : freePieces translate mappingPagesize (by decide) length n a = .error n₁) :
    freeRounds translate n a length = .error n₁ := by
  rw [freeRounds, first]
  rfl

theorem freeRounds_error_second {a a₁ length l₁ : Nat} {n₁ n₂ : PageMap layout}
    (first : freePieces translate mappingPagesize (by decide) length n a = .ok (n₁, a₁, l₁))
    (second : freePieces translate 0x10000 (by decide) l₁ n₁ a₁ = .error n₂) :
    freeRounds translate n a length = .error n₂ := by
  rw [freeRounds, first]
  simp only [bind, Except.bind, second]

/-- Units from `u` on are freed by their physical address, wherever they end. -/
def freeSpan (n : PageMap layout) (u k : Nat) : PageMap layout × ErrorT :=
  if u + k ≤ layout.numPages * 256 then freeUnits n u (u + k) else (n, cInvalidArgument)

theorem freePhysical_span {u k : Nat} (inside : u < layout.numPages * 256) (positive : 0 < k)
    (small : k ≤ 256) : freePhysical n (layout.memStart + u * 4096)
      (wordAdd (layout.memStart + u * 4096) (k * 4096)) = freeSpan n u k := by
  rw [freeSpan]
  by_cases fits : u + k ≤ layout.numPages * 256
  · rw [if_pos fits]
    have managed : Managed layout ⟨k, u⟩ := ⟨positive, fits⟩
    exact freePhysical_piece managed n
  · rw [if_neg fits]
    obtain ⟨c, base⟩ := layout.isAligned
    have word := layout.fits
    simp only [mappingPagesize] at base word
    have stop : layout.memStart + u * 4096 + k * 4096 = layout.memStart + (u + k) * 4096 := by omega
    rw [wordAdd_eq (by omega), stop]
    rcases freePhysical_cases n (layout.memStart + u * 4096)
      (layout.memStart + (u + k) * 4096) with rejected | ⟨lo, hi, range⟩
    · exact rejected
    · have ends := range.stop
      have bound := range.inside
      rw [alignCeil_eq (by omega) (n := 4096) (k := 12) rfl (by decide)] at ends
      omega

/-- The last round over one piece, which need not be one that was given. -/
theorem freePieces_span {u k a mappingSize : Nat} (positive : 0 < mappingSize)
    (isSize : mappingSize = k * 4096) (found : translate a = layout.memStart + u * 4096)
    (inside : u < layout.numPages * 256) (small : k ≤ 256) :
    freePieces translate mappingSize positive mappingSize n a =
      if isError (freeSpan n u k).2 then .error (freeSpan n u k).1
      else .ok ((freeSpan n u k).1, wordAdd a mappingSize, 0) := by
  have nonzero : layout.memStart + u * 4096 ≠ 0 := by
    have := layout.positive
    omega
  have freed : freePhysical n (layout.memStart + u * 4096)
      (wordAdd (layout.memStart + u * 4096) mappingSize) = freeSpan n u k := by
    rw [isSize]
    exact freePhysical_span inside (by omega) small
  rw [freePieces, if_pos (Nat.le_refl _), found]
  simp only [if_neg nonzero, freed, Nat.sub_self]
  split
  · rfl
  · rw [freePieces_stop positive positive]

/-- What `free_logical` answers after its last piece. -/
def spanAnswer (n : PageMap layout) (u k : Nat) : PageMap layout × ErrorT :=
  ((freeSpan n u k).1, if isError (freeSpan n u k).2 then cError else cOk)

theorem spanAnswer_ok {u k : Nat} (answer : spanAnswer n u k = (m, cOk)) :
    ∃ error, freeUnits n u (u + k) = (m, error) ∧ isError error = false := by
  rw [spanAnswer, Prod.mk.injEq] at answer
  obtain ⟨map, error⟩ := answer
  have accepted : isError (freeSpan n u k).2 = false := by
    by_contra failed
    rw [if_pos (Bool.eq_true_of_not_eq_false failed)] at error
    exact absurd error (by decide)
  rw [freeSpan] at map accepted
  by_cases inside : u + k ≤ layout.numPages * 256
  · rw [if_pos inside] at map accepted
    exact ⟨_, Prod.ext map rfl, accepted⟩
  · rw [if_neg inside] at accepted
    exact absurd (show isError cInvalidArgument = false from accepted) (by decide)

namespace Area

/-- The pages are given back in the first round. -/
theorem free_pages (area : Area m m₁ m₂ m' pid size r translate ws bs us) (length : Nat) :
    ∃ n₁, m.Lent pid ∅ (unitsIn (bs ++ us)) n₁ ∧
      freePieces translate mappingPagesize (by decide) (bytes ws + length) m' r =
        freePieces translate mappingPagesize (by decide) length n₁ (r + bytes ws) := by
  obtain ⟨_, nodup, multiples, _, lent⟩ := area.lent
  have fits := area.fits
  rw [bytes_append] at fits
  exact freePieces_pages area.settled area.cut.pages multiples
    (fun piece member => area.managed piece (List.mem_append_left _ member)) nodup lent
    (located_append.mp area.located).1 (by omega) length

/-- The blocks are given back in the second round. -/
theorem free_blocks (area : Area m m₁ m₂ m' pid size r translate ws bs us) {n₁ : PageMap layout}
    (lent : m.Lent pid ∅ (unitsIn (bs ++ us)) n₁) (length : Nat) :
    ∃ n₂, m.Lent pid ∅ (unitsIn us) n₂ ∧
      freePieces translate 0x10000 (by decide) (bytes bs + length) n₁ (r + bytes ws) =
        freePieces translate 0x10000 (by decide) length n₂ (r + bytes ws + bytes bs) := by
  obtain ⟨_, _, _, apart, _⟩ := area.lent
  have fits := area.fits
  rw [bytes_append, bytes_append] at fits
  exact freePieces_small area.settled (.inr rfl) area.cut.blocks
    (fun piece member => area.managed piece (by simp [member])) apart lent
    (located_append.mp (located_append.mp area.located).2).1 (by omega) length (by decide)

/-- The single micropages are lent of the map the larger pieces left. -/
theorem lent_singles (area : Area m m₁ m₂ m' pid size r translate ws bs us) :
    Apart us ∧ m₂.Lent pid ∅ (unitsIn us) m' := by
  obtain ⟨_, apart, lent⟩ := area.singles.lent area.settled₂ area.real
    (fun piece member => .inl (area.cut.singles piece member)) area.settled₂ (.refl pid m₂)
  exact ⟨apart, by simpa using lent⟩

/-- The single micropages are given back in the third round. -/
theorem free_singles (area : Area m m₁ m₂ m' pid size r translate ws bs us) {n₂ : PageMap layout}
    (lent : m.Lent pid ∅ (unitsIn us) n₂) :
    freePieces translate 0x1000 (by decide) (bytes us) n₂ (r + bytes ws + bytes bs) =
      .ok (m, r + bytes ws + bytes bs + bytes us, 0) := by
  have fits := area.fits
  rw [bytes_append, bytes_append] at fits
  obtain ⟨n₃, none, result⟩ := freePieces_small area.settled (.inl rfl)
    area.cut.singles (fun piece member => area.managed piece (by simp [member]))
    (show Apart (us ++ []) by simpa using area.lent_singles.1) (by simpa using lent)
    (located_append.mp (located_append.mp area.located).2).2 (by omega) 0 (by decide)
  obtain rfl : n₃ = m := none.eq
  rw [Nat.add_zero] at result
  exact result.trans (freePieces_stop (by decide) (by decide))

/-- An area that does not end with sixteen single micropages is freed as it was
cut. -/
theorem restored_of_fewer (area : Area m m₁ m₂ m' pid size r translate ws bs us)
    (small : areaLength size < 2 ^ 31) (fewer : us.length < 16) :
    freeLogical translate m' r (r + size) = (m, cOk) := by
  obtain ⟨_, _, single, blockCount, _, _, total⟩ := area.lengths
  obtain ⟨n₁, lent₁, round₁⟩ := area.free_pages (bytes bs + bytes us)
  obtain ⟨n₂, lent₂, round₂⟩ := area.free_blocks lent₁ (bytes us)
  have round₃ := area.free_singles lent₂
  have stop₁ := round₁.trans (freePieces_stop _ (by simp only [mappingPagesize]; omega))
  have stop₂ := round₂.trans (freePieces_stop _ (by omega))
  rw [area.freeLogical_eq, if_pos small, total, freeRounds_ok stop₁ stop₂ round₃]

/-- Sixteen single micropages are freed as one block from the first one on. -/
theorem freed_as_block (area : Area m m₁ m₂ m' pid size r translate ws bs us)
    (small : areaLength size < 2 ^ 31) (fewer : bs.length < 15) {u : Piece} {rest : List Piece}
    (first : us = u :: rest) (all : us.length = 16) :
    ∃ n₂, m.Lent pid ∅ (unitsIn us) n₂ ∧
      freeLogical translate m' r (r + size) = spanAnswer n₂ u.first 16 := by
  obtain ⟨_, _, single, _, _, _, total⟩ := area.lengths
  obtain ⟨n₁, lent₁, round₁⟩ := area.free_pages (bytes bs + 0x10000)
  obtain ⟨n₂, lent₂, round₂⟩ := area.free_blocks lent₁ 0x10000
  have found := (located_append.mp (located_append.mp area.located).2).2
  rw [first] at found
  have round₃ := freePieces_span (n := n₂) (k := 16) (show 0 < 0x10000 by decide) rfl
    found.1 (area.managed u (by simp [first])).lt (by decide)
  have stop₁ := round₁.trans (freePieces_stop _ (by simp only [mappingPagesize]; omega))
  refine ⟨n₂, lent₂, ?_⟩
  have sixteen : bytes us = 0x10000 := by rw [single, all]
  rw [area.freeLogical_eq, if_pos small, total, sixteen, spanAnswer]
  cases failed : isError (freeSpan n₂ u.first 16).2 with
  | true =>
    rw [if_pos failed] at round₃
    rw [freeRounds_error_second stop₁ (round₂.trans round₃), if_pos rfl]
  | false =>
    rw [if_neg (by simp [failed])] at round₃
    rw [freeRounds_ok stop₁ (round₂.trans round₃) (freePieces_stop _ (by decide))]
    rfl

/-- Fifteen blocks and sixteen single micropages are freed as one page from the
first block on. -/
theorem freed_as_page (area : Area m m₁ m₂ m' pid size r translate ws bs us)
    (small : areaLength size < 2 ^ 31) {b : Piece} {rest : List Piece} (first : bs = b :: rest)
    (blocks : bs.length = 15) (all : us.length = 16) :
    ∃ n₁, m.Lent pid ∅ (unitsIn (bs ++ us)) n₁ ∧
      freeLogical translate m' r (r + size) = spanAnswer n₁ b.first 256 := by
  obtain ⟨_, block, single, _, _, _, total⟩ := area.lengths
  obtain ⟨n₁, lent₁, round₁⟩ := area.free_pages mappingPagesize
  have found := (located_append.mp area.located).2
  rw [first] at found
  have round₂ := freePieces_span (n := n₁) (k := 256)
    (show 0 < mappingPagesize by decide) rfl found.1 (area.managed b (by simp [first])).lt
      (by decide)
  refine ⟨n₁, lent₁, ?_⟩
  have whole : bytes bs + bytes us = mappingPagesize := by rw [block, single, blocks, all]
  rw [area.freeLogical_eq, if_pos small, total, whole, spanAnswer]
  cases failed : isError (freeSpan n₁ b.first 256).2 with
  | true =>
    rw [if_pos failed] at round₂
    rw [freeRounds_error_first (round₁.trans round₂), if_pos rfl]
  | false =>
    rw [if_neg (by simp [failed])] at round₂
    rw [freeRounds_ok (round₁.trans round₂) (freePieces_stop _ (by decide))
      (freePieces_stop _ (by decide))]
    rfl

end Area

/-! ### When the last piece is the right one -/

/-- Nothing is lent of a page that is as before. -/
theorem lent_same {i : Nat} {p : Page} {pages : Finset Nat} {units : Nat → Finset Nat}
    (lent : m.Lent pid pages units n) (entry : m.pages[i]? = some p)
    (entry' : n.pages[i]? = some p) : units i = ∅ := by
  by_cases whole : i ∈ pages
  · obtain ⟨_, _, _, _, none⟩ := lent.whole i whole
    exact none
  · have page := lent.split i whole p p entry entry'
    by_contra some
    have shared := ((Page.lent_of_nonempty (Finset.nonempty_iff_ne_empty.mpr some)).mp page).2
    have card := Finset.card_pos.mpr (Finset.nonempty_iff_ne_empty.mpr some)
    have used := shared.used
    omega

theorem page_ne_of_unitsIn {ps : List Piece} {i : Nat} (none : unitsIn ps i = ∅) :
    ∀ piece ∈ ps, 0 < piece.units → piece.first / 256 ≠ i := by
  induction ps with
  | nil => simp
  | cons piece rest ih =>
    rw [unitsIn] at none
    refine List.forall_mem_cons.mpr ⟨fun positive here => ?_, ?_⟩
    · rw [if_pos here, Finset.union_eq_empty] at none
      have member : piece.first % 256 ∈ piece.indices :=
        Finset.mem_Ico.mpr ⟨Nat.le_refl _, by omega⟩
      rw [none.1] at member
      exact absurd member (Finset.notMem_empty _)
    · split at none
      · exact ih (Finset.union_eq_empty.mp none).2
      · exact ih none

/-- Pieces of one page, counted. -/
theorem card_unitsIn {ps : List Piece} {i : Nat} (apart : Apart ps)
    (here : ∀ piece ∈ ps, piece.first / 256 = i) : (unitsIn ps i).card * 4096 = bytes ps := by
  induction ps with
  | nil => simp [unitsIn, bytes]
  | cons piece rest ih =>
    obtain ⟨alone, apart⟩ := apart
    obtain ⟨page, pages⟩ := List.forall_mem_cons.mp here
    rw [page] at alone
    rw [unitsIn, if_pos page, Finset.card_union_of_disjoint alone, bytes, Nat.add_mul,
      ih apart pages, Piece.indices, Nat.card_Ico, Nat.add_sub_cancel_left]

/-- A free below 1 MB that succeeds. -/
theorem freeUnits_accepted {lo hi : Nat} {error : ErrorT} (small : hi - lo < 256)
    (result : freeUnits n lo hi = (m, error)) (accepted : isError error = false) :
    lo / 256 = (hi - 1) / 256 ∧ ∃ q, n.pages[lo / 256]? = some q ∧ hi - lo ≤ q.usedMicropages ∧
      m = n.setPage (lo / 256) (q.freeSubPages (lo % 256) (hi - lo)) := by
  have notRejected : isError cInvalidArgument ≠ false := by decide
  rcases freeUnits_checks n small with rejected | ⟨_, same, q, entry, split⟩
  · rw [rejected, Prod.mk.injEq] at result
    exact absurd (result.2 ▸ accepted) notRejected
  · refine ⟨same, q, entry, ?_⟩
    rw [freeUnits, if_neg (by omega), if_neg (not_not.mpr same), freeMicropages] at result
    simp only [entry, if_neg (not_not.mpr split)] at result
    by_cases less : q.usedMicropages < hi - lo
    · rw [if_pos less, Prod.mk.injEq] at result
      exact absurd (result.2 ▸ accepted) notRejected
    · rw [if_neg less, Prod.mk.injEq] at result
      exact ⟨Nat.le_of_not_lt less, result.1.symm⟩

namespace Area

/-- Where all single micropages lie in one page, it had room for them and they
were free. -/
theorem singles_here (area : Area m m₁ m₂ m' pid size r translate ws bs us) {i : Nat} {p : Page}
    (entry : m₂.pages[i]? = some p) (all : (unitsIn us i).card = 16) :
    p.usedMicropages + 16 < 256 ∧ ∀ k ∈ unitsIn us i, bit p.micropages k = false := by
  have lent := area.lent_singles.2
  obtain ⟨p', entry'⟩ := PageMap.entry_of m' entry
  have some : (unitsIn us i).Nonempty := Finset.card_pos.mp (by omega)
  have shared := ((Page.lent_of_nonempty some).mp
    (lent.split i (Finset.notMem_empty i) p p' entry entry')).2
  have settled' := area.singles.settled area.real area.settled₂
  have small := (settled' p' (List.mem_of_getElem? entry')).small
  have used := shared.used
  exact ⟨by omega, fun k member => (shared.clear k member).2⟩

/-- Sixteen single micropages in a row are given back by freeing one block. -/
theorem restored_of_row (area : Area m m₁ m₂ m' pid size r translate ws bs us)
    {n₂ : PageMap layout} (lent : m.Lent pid ∅ (unitsIn us) n₂) {u : Piece} {rest : List Piece}
    (first : us = u :: rest) (all : us.length = 16) {i index : Nat} {p : Page}
    (row : Row m₂ pid 16 i index p) : spanAnswer n₂ u.first 16 = (m, cOk) := by
  obtain ⟨starts, units⟩ := Row.given area.real area.settled₂ (all ▸ row) area.cut.singles
    area.singles
  have start : u.first = i * 256 + index := starts u (by simp [first])
  have inside := row.inside
  have page : i < layout.numPages := m₂.complete ▸ (List.getElem?_eq_some_iff.mp row.entry).1
  rw [units, all] at lent
  obtain ⟨n₃, freed, none⟩ := lent.giveBackBlock (n := 16) area.settled (by decide) (by decide)
    page (by rw [Function.update_self])
  rw [Function.update_self, Finset.sdiff_self, Function.update_idem,
    Function.update_eq_self_iff.mpr rfl] at none
  obtain rfl : n₃ = m := none.eq
  rw [spanAnswer, freeSpan, start, if_pos (by omega), freed]
  rfl

/-- If freeing one block gives the single micropages back, they are in a row. -/
theorem row_of_restored (area : Area m m₁ m₂ m' pid size r translate ws bs us)
    {n₂ : PageMap layout} (lent : m.Lent pid ∅ (unitsIn us) n₂) {u : Piece} {rest : List Piece}
    (first : us = u :: rest) (all : us.length = 16)
    (restored : spanAnswer n₂ u.first 16 = (m, cOk)) :
    ∃ p, Row m₂ pid 16 (u.first / 256) (u.first % 256) p := by
  obtain ⟨error, freed, accepted⟩ := spanAnswer_ok restored
  obtain ⟨same, q, entry, enough, map⟩ := freeUnits_accepted (by omega) freed accepted
  have sixteen : u.first + 16 - u.first = 16 := Nat.add_sub_cancel_left _ _
  rw [sixteen] at enough map
  have unit := area.cut.singles u (by simp [first])
  -- the first micropage is the first free one of the first page with room
  have singles := area.singles
  rw [first] at singles
  obtain ⟨p, p', fit⟩ := singles.head_fit area.settled₂ (.inl unit)
  rw [unit] at fit
  have clear := fit.grant.block
  -- nothing is lent of the other pages, so all micropages lie in this one
  have here : ∀ piece ∈ us, piece.first / 256 = u.first / 256 := by
    intro piece member
    by_contra other
    have inside := (area.managed piece (by simp [member])).lt
    obtain ⟨r₀, old⟩ : ∃ r₀, n₂.pages[piece.first / 256]? = some r₀ :=
      ⟨_, List.getElem?_eq_getElem (by rw [n₂.complete]; omega)⟩
    have same' : m.pages[piece.first / 256]? = some r₀ := by
      rw [map, PageMap.getElem?_setPage entry, if_neg other, old]
    have none := lent_same lent same' old
    exact page_ne_of_unitsIn none piece member (by rw [area.cut.singles piece member]; decide) rfl
  have card : (unitsIn us (u.first / 256)).card = 16 := by
    have counted := card_unitsIn area.lent_singles.1 here
    have single := bytes_eq area.cut.singles
    omega
  obtain ⟨counter, free⟩ := area.singles_here fit.entry card
  have before : ∀ k < u.first % 256, bit p.micropages k = true := by
    intro k less
    by_contra isFree
    have inside := clear.2.1
    have := fit.least k ⟨Nat.one_dvd k, by omega, fun j low high => by
      obtain rfl : j = k := by omega
      exact Bool.eq_false_of_not_eq_true isFree⟩
    omega
  refine ⟨p, fit.entry, fit.grant.hasRoom, fit.earlier, counter, before, by omega, ?_⟩
  -- the page as it was before, and as it is before the last free
  have entry₀ : m.pages[u.first / 256]? = some (q.freeSubPages (u.first % 256) 16) := by
    rw [map, PageMap.getElem?_setPage entry, if_pos rfl]
  have some : (unitsIn us (u.first / 256)).Nonempty := Finset.card_pos.mp (by omega)
  have shared := ((Page.lent_of_nonempty some).mp
    (lent.split _ (Finset.notMem_empty _) _ _ entry₀ entry)).2
  by_cases last : q.usedMicropages - 16 = 0
  · -- the page was free, and is in use without gaps
    have unused : (q.freeSubPages (u.first % 256) 16).pid = 255 := by
      rw [Page.freeSubPages, if_pos last]
      rfl
    have stacked : Stacked m m₂ := by
      refine Given.stacked area.real (fun piece member => ?_) (area.pages.append area.blocks)
        area.settled (.refl area.settled)
      rcases List.mem_append.mp member with whole | block
      · exact .inl (area.cut.pages piece whole)
      · exact .inr (area.cut.blocks piece block)
    obtain ⟨c, bits⟩ := stacked _ _ p entry₀ unused fit.entry
    intro k low high
    have start := clear.2.2 _ (Nat.le_refl _) (Nat.lt_succ_self _)
    rw [bits _ (by omega)] at start
    rw [bits k (by omega)]
    exact decide_eq_false (fun less => of_decide_eq_false start (by omega))
  · -- the block is what was lent
    have within : unitsIn us (u.first / 256) ⊆
        Finset.Ico (u.first % 256) (u.first % 256 + 16) := by
      intro k member
      have isClear := (shared.clear k member).2
      rw [Page.bit_freeSubPages last (by omega), shared.bits] at isClear
      simpa [member] using isClear
    have all := Finset.eq_of_subset_of_card_le within (by rw [card, Nat.card_Ico]; omega)
    intro k low high
    exact free k (by rw [all]; exact Finset.mem_Ico.mpr ⟨low, high⟩)

/-- Freeing a page from the first block on never gives back fifteen blocks and
sixteen single micropages: they do not fit into one page. -/
theorem not_restored_of_page (area : Area m m₁ m₂ m' pid size r translate ws bs us)
    {n₁ : PageMap layout} (lent : m.Lent pid ∅ (unitsIn (bs ++ us)) n₁) {b : Piece}
    {rest : List Piece} (first : bs = b :: rest) (blocks : bs.length = 15)
    (all : us.length = 16) : spanAnswer n₁ b.first 256 ≠ (m, cOk) := by
  intro restored
  obtain ⟨error, freed, _⟩ := spanAnswer_ok restored
  rw [freeUnits, if_pos (by omega), Prod.mk.injEq] at freed
  have map := freed.1.symm
  have unit := area.cut.blocks b (by simp [first])
  have given := area.blocks
  rw [first] at given
  obtain ⟨p, p', fit⟩ := given.head_fit area.settled₁ (.inr unit)
  rw [unit] at fit
  have getElem?_m (j : Nat) : m.pages[j]? = (n₁.pages[j]?).map fun q =>
      if b.first / 256 ≤ j ∧ j ≤ (b.first + 256 - 1) / 256 then Page.unused else q := by
    rw [map]
    exact List.getElem?_mapIdx
  -- the page was free, so the first block is at its begin
  obtain ⟨p₀, entry₀⟩ := PageMap.entry_of m fit.entry
  have unused : p₀ = Page.unused := by
    have result := getElem?_m (b.first / 256)
    rw [entry₀] at result
    obtain ⟨q, _, isUnused⟩ := Option.map_eq_some_iff.mp result.symm
    rw [if_pos (by omega)] at isUnused
    exact isUnused.symm
  subst unused
  have blank : p.micropages = List.replicate 8 0#32 := by
    by_cases whole : b.first / 256 ∈ (pagesOf ws).toFinset
    · obtain ⟨q, old, _, new, _⟩ := area.lent.1.whole _ whole
      obtain rfl : Page.unused = q := Option.some.inj (entry₀.symm.trans old)
      obtain rfl : p = Page.unused.markUsed pid := Option.some.inj (fit.entry.symm.trans new)
      rfl
    · rw [Page.lent_empty.mp (area.lent.1.split _ whole _ p entry₀ fit.entry)]
      rfl
  have begins : b.first % 256 = 0 := Nat.le_zero.mp (fit.least 0 ⟨Nat.dvd_zero 16, by decide,
    fun k _ _ => by rw [blank, bit_blank]⟩)
  -- so no other page was touched, and all pieces lie in this one
  have here : ∀ piece ∈ bs ++ us, piece.first / 256 = b.first / 256 := by
    intro piece member
    by_contra other
    have inside := (area.managed piece (List.mem_append_right ws member)).lt
    obtain ⟨r₀, old⟩ : ∃ r₀, n₁.pages[piece.first / 256]? = some r₀ :=
      ⟨_, List.getElem?_eq_getElem (by rw [n₁.complete]; omega)⟩
    have same : m.pages[piece.first / 256]? = some r₀ := by
      rw [getElem?_m, old, Option.map_some, if_neg (by omega)]
    have positive : 0 < piece.units := by
      have := area.smalls piece member
      omega
    exact page_ne_of_unitsIn (lent_same lent same old) piece member positive rfl
  have card : (unitsIn (bs ++ us) (b.first / 256)).card = 256 := by
    have counted := card_unitsIn area.lent.2.2.2.1 here
    obtain ⟨_, block, single, _⟩ := area.lengths
    rw [bytes_append] at counted
    omega
  -- its counter would have to be 256
  have some : (unitsIn (bs ++ us) (b.first / 256)).Nonempty := Finset.card_pos.mp (by omega)
  have lent' := area.lent.2.2.2.2
  obtain ⟨q, entry'⟩ := PageMap.entry_of m' entry₀
  have split : b.first / 256 ∉ (pagesOf ws).toFinset := by
    intro whole
    obtain ⟨_, _, _, _, none⟩ := lent'.whole _ whole
    exact some.ne_empty none
  have shared := ((Page.lent_of_nonempty some).mp (lent'.split _ split _ q entry₀ entry')).2
  have small := (area.singles.settled area.real area.settled₂ q (List.mem_of_getElem? entry')).small
  have used := shared.used
  omega

/-- No area of 2 GB is freed. -/
theorem not_restored_of_large (area : Area m m₁ m₂ m' pid size r translate ws bs us)
    (large : ¬ areaLength size < 2 ^ 31) : freeLogical translate m' r (r + size) ≠ (m, cOk) := by
  intro restored
  have nothing : freeLogical translate m' r (r + size) = (m', cOk) := by
    rw [area.freeLogical_eq, if_neg large, freeRounds_ok (freePieces_stop _ (by decide))
      (freePieces_stop _ (by decide)) (freePieces_stop _ (by decide))]
  have same : m' = m := congrArg Prod.fst (nothing.symm.trans restored)
  -- a single micropage is still lent
  obtain ⟨_, _, _, _, some, _, _⟩ := area.lengths
  obtain ⟨u, member⟩ := List.exists_mem_of_length_pos some
  have inside := (area.managed u (by simp [member])).lt
  obtain ⟨p, entry⟩ : ∃ p, m.pages[u.first / 256]? = Option.some p :=
    ⟨_, List.getElem?_eq_getElem (by rw [m.complete]; omega)⟩
  have none := lent_same area.lent.2.2.2.2 entry (same ▸ entry)
  exact page_ne_of_unitsIn none u (by simp [member])
    (by rw [area.cut.singles u member]; decide) rfl

/-- The larger pieces leave the map the single micropages are taken from. -/
theorem allocEach_larger (area : Area m m₁ m₂ m' pid size r translate ws bs us) :
    allocEach m pid (largerPieces size) = some m₂ := by
  have pages := allocEach_given area.cut.pages area.pages
    (List.replicate bs.length 0x10000)
  have blocks := allocEach_given area.cut.blocks area.blocks []
  rw [List.append_nil] at blocks
  rw [largerPieces, ← area.cut.pageCount, ← area.cut.blockCount]
  exact pages.trans blocks

end Area

/-- An area that was allocated can be freed again, with the map as it was before,
exactly when its last pieces are freed as they were cut. -/
theorem freeLogical_restores_iff {hat : HatLayer σ} {h h' : σ} {logicalAddress : Nat}
    (settled : m.Settled) (real : pid < 255) (exact : hat.MapsExactly) (positive : 0 < size)
    (allocated : allocLogical hat m h size pid logicalAddress = some (m', h', r))
    (nonzero : r ≠ 0) :
    freeLogical (hat.getPhysicalAddress h') m' r (r + size) = (m, cOk) ↔
      Restorable m size pid := by
  have isPid : pid ≠ 255 := Nat.ne_of_lt real
  obtain ⟨ws, bs, us, m₁, m₂, cut, pages, blocks, singles, start, fits, located⟩ :=
    allocLogical_cut settled isPid exact positive allocated nonzero
  have area : Area m m₁ m₂ m' pid size r (hat.getPhysicalAddress h') ws bs us :=
    ⟨settled, isPid, positive, cut, pages, blocks, singles, start, fits, located⟩
  obtain ⟨whole, block, single, atMost, some, sixteen, total⟩ := area.lengths
  by_cases small : areaLength size < 2 ^ 31
  swap
  · exact iff_of_false (area.not_restored_of_large small) fun restorable => small restorable.1
  by_cases fewer : us.length < 16
  · have odd : ¬ 0x10000 ∣ areaLength size := by omega
    exact iff_of_true (area.restored_of_fewer small fewer) ⟨small, .inl odd⟩
  have all : us.length = 16 := by omega
  have even : 0x10000 ∣ areaLength size := by omega
  obtain ⟨u, rest, first⟩ := List.exists_cons_of_length_pos some
  by_cases fifteen : bs.length = 15
  · have page : 0x100000 ∣ areaLength size := by omega
    obtain ⟨b, others, firstBlock⟩ := List.exists_cons_of_length_pos (l := bs) (by omega)
    obtain ⟨n₁, lent, result⟩ := area.freed_as_page small firstBlock fifteen all
    rw [result]
    refine iff_of_false (area.not_restored_of_page lent firstBlock fifteen all) ?_
    rintro ⟨_, odd | ⟨notPage, _⟩⟩
    · exact odd even
    · exact notPage page
  · have notPage : ¬ 0x100000 ∣ areaLength size := by omega
    obtain ⟨n₂, lent, result⟩ := area.freed_as_block small (by omega) first all
    rw [result]
    constructor
    · intro restored
      obtain ⟨p, row⟩ := area.row_of_restored lent first all restored
      exact ⟨small, .inr ⟨notPage, m₂, area.allocEach_larger, _, _, p, row⟩⟩
    · rintro ⟨_, odd | ⟨_, m₂', larger, i, index, p, row⟩⟩
      · exact absurd even odd
      · obtain rfl : m₂ = m₂' := Option.some.inj (area.allocEach_larger.symm.trans larger)
        exact area.restored_of_row lent first all row

/-- A mapping of `size` bytes. -/
structure Mapping where
  logical : Nat
  phys : Nat
  size : Nat

/-- The address of a mapping. One for which none is asked comes behind all
others, from 1 GB on. -/
def mappingAddress (table : List Mapping) (logical : Nat) : Nat :=
  if logical = 0 then table.foldr (fun entry => max (entry.logical + entry.size)) 0x40000000
  else logical

/-- A translation by a table. -/
def tableHat : HatLayer (List Mapping) where
  map table logical phys size _ :=
    if mappingAddress table logical % 4096 = 0 ∧ mappingAddress table logical + size < 2 ^ 32 then
      (⟨mappingAddress table logical, phys, size⟩ :: table, mappingAddress table logical)
    else (table, 0)
  getPhysicalAddress table x :=
    match table.find? fun e => e.logical ≤ x && x < e.logical + e.size with
    | some e => e.phys + (x - e.logical)
    | none => 0

theorem tableHat_mapsExactly : tableHat.MapsExactly := by
  intro table logical phys size pid table' a result nonzero
  change (if _ then _ else _) = _ at result
  split at result
  · rename_i fits
    obtain ⟨rfl, rfl⟩ := Prod.mk.inj result
    refine ⟨fun asked => if_neg asked, Nat.dvd_of_mod_eq_zero fits.1, fits.2,
      fun x low high => ?_, fun x outside => ?_⟩
    · simp [tableHat, List.find?_cons_of_pos, low, high]
    · have other : (decide (mappingAddress table logical ≤ x) &&
          decide (x < mappingAddress table logical + size)) = false := by simpa using outside
      simp only [tableHat, List.find?_cons, other]
  · exact absurd (Prod.mk.inj result).2.symm nonzero

/-- 128 KB in an empty map: sixteen micropages behind a block. -/
theorem freeLogical_restores_iff_block :
    ∃ m' h' r, allocLogical tableHat (PageMap.allFree .twoPages) [] 0x20000 7 0 = some (m', h', r) ∧
      r ≠ 0 ∧ (freeLogical (tableHat.getPhysicalAddress h') m' r (r + 0x20000) =
        (PageMap.allFree .twoPages, cOk) ↔ Restorable (PageMap.allFree .twoPages) 0x20000 7) := by
  have answered : (allocLogical tableHat (PageMap.allFree .twoPages) [] 0x20000 7 0).any
      (fun answer => answer.2.2 ≠ 0) = true := by decide +kernel
  obtain ⟨⟨m', h', r⟩, result, nonzero⟩ := (Option.any_eq_true _ _).mp answered
  have nonzero : r ≠ 0 := of_decide_eq_true nonzero
  exact ⟨m', h', r, result, nonzero, freeLogical_restores_iff (PageMap.Settled.allFree _)
    (by decide) tableHat_mapsExactly (by decide) result nonzero⟩

/-- With one micropage in use, 1 MB is allocated; freeing it frees that
micropage, too. -/
theorem megabyte_frees_more :
    ∃ m a, allocPhysical (PageMap.allFree .twoPages) 0x1000 7 = some (m, a) ∧
      m.owner 0 = some 7 ∧
      (allocLogical tableHat m [] 0x100000 7 0).map (fun (m', h', r) =>
        (r, freeLogical (tableHat.getPhysicalAddress h') m' r (r + 0x100000))) =
        some (0x40000000, (PageMap.allFree .twoPages, cOk)) := by
  refine ⟨_, _, rfl, by decide, ?_⟩
  decide +kernel

end Orcos.Guarantees.LogicalAreas
