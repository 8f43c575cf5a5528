import Orcos.Source.PagedRam.Manager
import Orcos.Source.PagedRam.Ownership
import Orcos.Source.PagedRam.Lending

/-!
# The pieces of a logical area

A successful `alloc_logical` is a sequence of pieces: each was given by
`alloc_physical` in the map the ones before it left, and the translation finds
it behind them from the answered address on.
-/
namespace Orcos.Source.PagedRam

variable {layout : Layout} {σ : Type} {hat : HatLayer σ} {m m' m'' : PageMap layout}
  {h h' : σ} {pid : Nat} {s t : Request layout σ}

/-- So many units from one unit on. -/
structure Piece where
  units : Nat
  first : Nat

/-- `alloc_physical` gives the pieces one after the other. -/
inductive Given (pid : Nat) : PageMap layout → List Piece → PageMap layout → Prop
  | nil (m : PageMap layout) : Given pid m [] m
  | cons {m m' m'' : PageMap layout} {piece : Piece} {rest : List Piece}
      (first : allocPhysical m (piece.units * 4096) pid =
        some (m', layout.memStart + piece.first * 4096))
      (others : Given pid m' rest m'') : Given pid m (piece :: rest) m''

theorem Given.append {ps qs : List Piece} (left : Given pid m ps m') (right : Given pid m' qs m'') :
    Given pid m (ps ++ qs) m'' := by
  induction left with
  | nil _ => exact right
  | cons first _ ih => exact .cons first (ih right)

theorem Given.settled {ps : List Piece} (given : Given pid m ps m') (real : pid ≠ 255)
    (settled : m.Settled) : m'.Settled := by
  induction given with
  | nil _ => exact settled
  | cons first _ ih => exact ih (settled.allocPhysical real first)

/-- The bytes of the pieces. -/
def bytes : List Piece → Nat
  | [] => 0
  | piece :: rest => piece.units * 4096 + bytes rest

theorem bytes_append (ps qs : List Piece) : bytes (ps ++ qs) = bytes ps + bytes qs := by
  induction ps with
  | nil => exact (Nat.zero_add _).symm
  | cons piece rest ih => rw [List.cons_append, bytes, bytes, ih, Nat.add_assoc]

theorem bytes_eq {n : Nat} {ps : List Piece} (units : ∀ piece ∈ ps, piece.units = n) :
    bytes ps = ps.length * (n * 4096) := by
  induction ps with
  | nil => simp [bytes]
  | cons piece rest ih =>
    obtain ⟨here, later⟩ := List.forall_mem_cons.mp units
    rw [bytes, ih later, here, List.length_cons, Nat.succ_mul, Nat.add_comm]

/-- The translation finds the pieces one behind the other from address `a` on. -/
def Located (layout : Layout) (translate : Nat → Nat) : Nat → List Piece → Prop
  | _, [] => True
  | a, piece :: rest => translate a = layout.memStart + piece.first * 4096 ∧
      Located layout translate (a + piece.units * 4096) rest

theorem located_append {translate : Nat → Nat} {a : Nat} {ps qs : List Piece} :
    Located layout translate a (ps ++ qs) ↔
      Located layout translate a ps ∧ Located layout translate (a + bytes ps) qs := by
  induction ps generalizing a with
  | nil => simp [Located, bytes]
  | cons piece rest ih =>
    simp only [List.cons_append, Located, bytes, ih, and_assoc, Nat.add_assoc]

/-- One piece was allocated and mapped to logical address `a`. -/
structure Placed (hat : HatLayer σ) (pid : Nat) (s : Request layout σ) (piece : Piece) (a : Nat)
    (t : Request layout σ) : Prop where
  given : allocPhysical s.map (piece.units * 4096) pid =
    some (t.map, layout.memStart + piece.first * 4096)
  positive : 0 < piece.units
  nonzero : a ≠ 0
  asked : s.logicalAddress ≠ 0 → a = s.logicalAddress
  mapped : hat.Mapped s.hat t.hat a (layout.memStart + piece.first * 4096) (piece.units * 4096)
  next : t.logicalAddress = a + piece.units * 4096
  answer : t.retAddress = if s.logicalAddress = 0 then a else s.retAddress

/-- The pieces are placed one after the other. -/
inductive Laid (hat : HatLayer σ) (pid : Nat) :
    Request layout σ → List Piece → Request layout σ → Prop
  | nil (s : Request layout σ) : Laid hat pid s [] s
  | cons {s t s' : Request layout σ} {piece : Piece} {rest : List Piece} {a : Nat}
      (first : Placed hat pid s piece a t) (others : Laid hat pid t rest s') :
      Laid hat pid s (piece :: rest) s'

theorem Laid.given {s' : Request layout σ} {ps : List Piece} (laid : Laid hat pid s ps s') :
    Given pid s.map ps s'.map := by
  induction laid with
  | nil s => exact .nil s.map
  | cons first _ ih => exact .cons first.given ih

theorem Laid.append {s' : Request layout σ} {ps qs : List Piece} (left : Laid hat pid s ps t)
    (right : Laid hat pid t qs s') : Laid hat pid s (ps ++ qs) s' := by
  induction left with
  | nil _ => exact right
  | cons first _ ih => exact .cons first (ih right)

/-- Once the first address is known, the pieces come one behind the other, and
what is mapped before them stays. -/
theorem Laid.located {s' : Request layout σ} {ps : List Piece} (laid : Laid hat pid s ps s')
    (begun : s.logicalAddress ≠ 0) (fits : s.logicalAddress < 2 ^ 32) :
    s'.retAddress = s.retAddress ∧ s.logicalAddress + bytes ps < 2 ^ 32 ∧
      Located layout (hat.getPhysicalAddress s'.hat) s.logicalAddress ps ∧
      ∀ x < s.logicalAddress, hat.getPhysicalAddress s'.hat x = hat.getPhysicalAddress s.hat x := by
  induction laid with
  | nil s => exact ⟨rfl, fits, trivial, fun _ _ => rfl⟩
  | @cons s t s' piece rest a first _ ih =>
    obtain rfl := first.asked begun
    have next := first.next
    obtain ⟨answer, inside, later, kept⟩ := ih (by omega) (next ▸ first.mapped.fits)
    rw [next] at inside later kept
    have positive := first.positive
    refine ⟨?_, ?_, ⟨?_, later⟩, fun x below => ?_⟩
    · rw [answer, first.answer, if_neg begun]
    · rw [bytes]
      omega
    · rw [kept _ (by omega), first.mapped.inside _ (Nat.le_refl _) (by omega), Nat.sub_self,
        Nat.add_zero]
    · rw [kept x (by omega), first.mapped.outside x (by omega)]

/-- The answer is the address from which on all pieces are found. -/
theorem Laid.answer {s' : Request layout σ} {ps : List Piece} (laid : Laid hat pid s ps s')
    (initial : s.retAddress = s.logicalAddress) (some : ps ≠ []) :
    s'.retAddress ≠ 0 ∧ 4096 ∣ s'.retAddress ∧ s'.retAddress + bytes ps < 2 ^ 32 ∧
      Located layout (hat.getPhysicalAddress s'.hat) s'.retAddress ps := by
  cases laid with
  | nil _ => exact absurd rfl some
  | @cons _ t _ piece rest a first later =>
    have positive := first.positive
    have next := first.next
    have begun : t.retAddress = a := by
      rw [first.answer]
      split
      · rfl
      · rename_i asked
        rw [initial, first.asked asked]
    obtain ⟨answer, inside, located, kept⟩ := later.located (by omega) (next ▸ first.mapped.fits)
    rw [next] at inside located kept
    rw [answer, begun]
    refine ⟨first.nonzero, first.mapped.page, ?_, ?_, located⟩
    · rw [bytes]
      omega
    · rw [kept a (by omega), first.mapped.inside a (Nat.le_refl a) (by omega), Nat.sub_self,
        Nat.add_zero]

/-! ### The loops of `alloc_logical` -/

theorem allocPhysical_address (blank : Blank m) {size a : Nat}
    (result : allocPhysical m size pid = some (m', a)) (nonzero : a ≠ 0) :
    ∃ u, a = layout.memStart + u * 4096 := by
  have outcome := allocPhysical_outcome blank size pid
  rw [result] at outcome
  cases outcome with
  | full _ _ => exact absurd rfl nonzero
  | none _ _ => exact absurd rfl nonzero
  | block _ _ _ => exact ⟨_, rfl⟩
  | run _ _ => exact ⟨_, rfl⟩
  | short _ _ _ => exact ⟨_, rfl⟩

theorem mapPiece_placed (settled : s.map.Settled) (exact : hat.MapsExactly) {n : Nat}
    (positive : 0 < n) (result : mapPiece hat pid (n * 4096) s = .ok t) :
    ∃ piece a, piece.units = n ∧ Placed hat pid s piece a t := by
  rw [mapPiece] at result
  split at result
  · cases result
  · rename_i map physAddr given
    by_cases full : physAddr = 0
    · simp [full] at result
    · obtain ⟨u, rfl⟩ := allocPhysical_address settled.blank given full
      rw [if_neg full] at result
      generalize mapping : hat.map s.hat s.logicalAddress (layout.memStart + u * 4096) (n * 4096)
        pid = answer at result
      obtain ⟨h', a⟩ := answer
      by_cases failed : a = 0
      · simp [failed] at result
      · simp only [if_neg failed, Except.ok.injEq] at result
        obtain ⟨asked, mapped⟩ := exact _ _ _ _ _ _ _ mapping failed
        subst result
        refine ⟨⟨n, u⟩, a, rfl, given, positive, failed, asked, mapped, ?_, rfl⟩
        have start : (if s.logicalAddress = 0 then a else s.logicalAddress) = a := by
          split
          · rfl
          · rename_i nonzero
            exact (asked nonzero).symm
        simp only [start]
        exact wordAdd_eq mapped.fits

/-- A loop places pieces until no more than the bound is left. -/
theorem mapPieces_laid (real : pid ≠ 255) (exact : hat.MapsExactly) {n bound : Nat}
    (units : 0 < n) (positive : 0 < n * 4096) {size : Nat} (settled : s.map.Settled)
    {left : Nat} (result : mapPieces hat pid (n * 4096) bound positive size s = .ok (left, t)) :
    ∃ ps, Laid hat pid s ps t ∧ (∀ piece ∈ ps, piece.units = n) ∧ left ≤ bound ∧
      left = size - bytes ps ∧
      (ps ≠ [] → bound < size ∧ bound + bytes ps < size + n * 4096) := by
  induction size using Nat.strong_induction_on generalizing s with
  | _ size ih =>
    rw [mapPieces] at result
    by_cases more : bound < size
    · rw [if_pos more] at result
      cases placing : mapPiece hat pid (n * 4096) s with
      | error failure => simp [placing] at result
      | ok s₁ =>
        simp only [placing] at result
        obtain ⟨piece, a, isUnits, placed⟩ := mapPiece_placed settled exact units placing
        obtain ⟨ps, laid, sizes, enough, rest, last⟩ := ih (size - n * 4096) (by omega)
          (settled.allocPhysical real placed.given) result
        refine ⟨piece :: ps, .cons placed laid, List.forall_mem_cons.mpr ⟨isUnits, sizes⟩, enough,
          ?_, fun _ => ?_⟩
        · rw [bytes, rest, isUnits]
          omega
        · rw [bytes, isUnits]
          refine ⟨more, ?_⟩
          by_cases none : ps = []
          · rw [none, bytes]
            omega
          · have := last none
            omega
    · simp only [if_neg more, Except.ok.injEq, Prod.mk.injEq] at result
      obtain ⟨rfl, rfl⟩ := result
      exact ⟨[], .nil s, by simp, Nat.le_of_not_lt more, rfl,
        fun impossible => absurd rfl impossible⟩

/-- How `alloc_logical` cuts a size into pieces: no piece is larger than what
is left, and the last one is a micropage. -/
structure Cut (size : Nat) (ws bs us : List Piece) : Prop where
  pages : ∀ piece ∈ ws, piece.units = 256
  blocks : ∀ piece ∈ bs, piece.units = 16
  singles : ∀ piece ∈ us, piece.units = 1
  pageCount : ws.length = (size - 1) / 0x100000
  blockCount : bs.length = (size - 1) % 0x100000 / 0x10000
  singleCount : us.length = (size - 1) % 0x10000 / 0x1000 + 1

/-- The loops use up the size. -/
theorem mapArea_laid (settled : s.map.Settled) (real : pid ≠ 255) (exact : hat.MapsExactly)
    {size left : Nat} (positive : 0 < size) (result : mapArea hat pid size s = .ok (left, t)) :
    left = 0 ∧ ∃ ws bs us s₁ s₂, Cut size ws bs us ∧ Laid hat pid s ws s₁ ∧
      Laid hat pid s₁ bs s₂ ∧ Laid hat pid s₂ us t := by
  rw [mapArea] at result
  cases first : mapPieces hat pid mappingPagesize mappingPagesize (by decide) size s with
  | error failure => simp [first, bind, Except.bind] at result
  | ok answer₁ =>
    obtain ⟨left₁, s₁⟩ := answer₁
    obtain ⟨ws, laid₁, pages, atMost₁, rest₁, last₁⟩ :=
      mapPieces_laid (n := 256) real exact (by decide) _ settled first
    have settled₁ := laid₁.given.settled real settled
    cases second : mapPieces hat pid 0x10000 0x10000 (by decide) left₁ s₁ with
    | error failure => simp [first, second, bind, Except.bind] at result
    | ok answer₂ =>
      obtain ⟨left₂, s₂⟩ := answer₂
      obtain ⟨bs, laid₂, blocks, atMost₂, rest₂, last₂⟩ :=
        mapPieces_laid (n := 16) real exact (by decide) _ settled₁ second
      have settled₂ := laid₂.given.settled real settled₁
      have third : mapPieces hat pid 0x1000 0 (by decide) left₂ s₂ = .ok (left, t) := by
        simpa [first, second, bind, Except.bind] using result
      obtain ⟨us, laid₃, singles, atMost₃, rest₃, last₃⟩ :=
        mapPieces_laid (n := 1) real exact (by decide) _ settled₂ third
      have bytes₁ := bytes_eq pages
      have bytes₂ := bytes_eq blocks
      have bytes₃ := bytes_eq singles
      simp only [mappingPagesize, ← List.length_pos_iff_ne_nil] at *
      exact ⟨by omega, ws, bs, us, s₁, s₂,
        ⟨pages, blocks, singles, by omega, by omega, by omega⟩, laid₁, laid₂, laid₃⟩

/-- A successful `alloc_logical` cut the area into pieces that are given to the
process and found from the answered address on. -/
theorem allocLogical_cut (settled : m.Settled) (real : pid ≠ 255) (exact : hat.MapsExactly)
    {size logicalAddress r : Nat} (positive : 0 < size)
    (result : allocLogical hat m h size pid logicalAddress = some (m', h', r)) (nonzero : r ≠ 0) :
    ∃ ws bs us m₁ m₂, Cut size ws bs us ∧ Given pid m ws m₁ ∧ Given pid m₁ bs m₂ ∧
      Given pid m₂ us m' ∧ 4096 ∣ r ∧ r + bytes (ws ++ (bs ++ us)) < 2 ^ 32 ∧
      Located layout (hat.getPhysicalAddress h') r (ws ++ (bs ++ us)) := by
  rw [allocLogical] at result
  split at result
  · rename_i left t mapping
    obtain ⟨_, ws, bs, us, s₁, s₂, cut, laid₁, laid₂, laid₃⟩ :=
      mapArea_laid (s := ⟨m, h, logicalAddress, logicalAddress⟩) settled real exact positive mapping
    have some : ws ++ (bs ++ us) ≠ [] := by
      have := cut.singleCount
      rw [← List.length_pos_iff_ne_nil]
      simp only [List.length_append]
      omega
    obtain ⟨_, page, fits, located⟩ := (laid₁.append (laid₂.append laid₃)).answer rfl some
    simp only [Option.some.injEq, Prod.mk.injEq] at result
    obtain ⟨rfl, rfl, rfl⟩ := result
    exact ⟨ws, bs, us, _, _, cut, laid₁.given, laid₂.given, laid₃.given, page, fits, located⟩
  · simp only [Option.some.injEq, Prod.mk.injEq] at result
    exact absurd result.2.2.symm nonzero
  · cases result

end Orcos.Source.PagedRam

/-! ## Pieces are lent and given back

What `alloc_physical` gave piece by piece is lent, and one round of
`free_logical` over the same pieces gives it back.
-/
namespace Orcos.Source.PagedRam
open Orcos.Lib.WordBits

variable {layout : Layout} {m m' m'' : PageMap layout} {pid n : Nat} {piece : Piece}
  {ps qs : List Piece}

/-- The micropages of the piece within its page. -/
def Piece.indices (piece : Piece) : Finset Nat :=
  Finset.Ico (piece.first % 256) (piece.first % 256 + piece.units)

/-- The micropages of page number `i` in pieces below 1 MB. -/
def unitsIn : List Piece → Nat → Finset Nat
  | [], _ => ∅
  | piece :: rest, i =>
    if piece.first / 256 = i then piece.indices ∪ unitsIn rest i else unitsIn rest i

/-- No micropage is in two of the pieces. -/
def Apart : List Piece → Prop
  | [] => True
  | piece :: rest => Disjoint piece.indices (unitsIn rest (piece.first / 256)) ∧ Apart rest

/-- The pages of pieces of 1 MB. -/
def pagesOf (ps : List Piece) : List Nat := ps.map (·.first / 256)

/-! ### Allocation -/

/-- A piece below 1 MB is the first block that fits. -/
theorem given_small (settled : m.Settled) (units : piece.units = 1 ∨ piece.units = 16)
    (given : allocPhysical m (piece.units * 4096) pid =
      some (m', layout.memStart + piece.first * 4096)) :
    ∃ p p', FirstFit m.pages pid piece.units (piece.first / 256) (piece.first % 256) p p' ∧
      m' = m.setPage (piece.first / 256) p' := by
  have positive := layout.positive
  rcases allocPhysical_small settled.blank pid units with
    ⟨failed, _⟩ | ⟨i, index, p, p', fit, found⟩
  · rw [given, Option.some.injEq, Prod.mk.injEq] at failed
    omega
  · rw [given, Option.some.injEq, Prod.mk.injEq] at found
    obtain ⟨rfl, address⟩ := found
    have inside := fit.grant.inside
    have page : piece.first / 256 = i := by omega
    have offset : piece.first % 256 = index := by omega
    rw [page, offset]
    exact ⟨p, p', fit, rfl⟩

/-- The first piece is the first block that fits. -/
theorem Given.head_fit {rest : List Piece} (given : Given pid m (piece :: rest) m')
    (settled : m.Settled) (units : piece.units = 1 ∨ piece.units = 16) :
    ∃ p p', FirstFit m.pages pid piece.units (piece.first / 256) (piece.first % 256) p p' := by
  cases given with
  | cons first _ =>
    obtain ⟨p, p', fit, _⟩ := given_small settled units first
    exact ⟨p, p', fit⟩

/-- A piece of 1 MB is a free page. -/
theorem given_page (units : piece.units = 256)
    (given : allocPhysical m (piece.units * 4096) pid =
      some (m', layout.memStart + piece.first * 4096)) :
    256 ∣ piece.first ∧ FreeAt m.pages (piece.first / 256) ∧
      m' = m.take pid 1 (piece.first / 256) := by
  have positive := layout.positive
  rw [units] at given
  change allocPhysical m mappingPagesize pid = _ at given
  rcases allocPhysical_page m pid with ⟨failed, _⟩ | ⟨i, free, found⟩
  · rw [given, Option.some.injEq, Prod.mk.injEq] at failed
    omega
  · rw [given, Option.some.injEq, Prod.mk.injEq] at found
    obtain ⟨rfl, address⟩ := found
    have page : piece.first / 256 = i := by omega
    rw [page]
    exact ⟨⟨i, by omega⟩, free, rfl⟩

/-- The piece consists of managed units. -/
def Managed (layout : Layout) (piece : Piece) : Prop :=
  0 < piece.units ∧ piece.first + piece.units ≤ layout.numPages * 256

theorem Managed.lt (managed : Managed layout piece) : piece.first < layout.numPages * 256 := by
  obtain ⟨positive, inside⟩ := managed
  omega

theorem FirstFit.managed {p p' : Page} (units : piece.units = 1 ∨ piece.units = 16)
    (fit : FirstFit m.pages pid piece.units (piece.first / 256) (piece.first % 256) p p') :
    Managed layout piece := by
  have inside := fit.grant.inside
  have page := (List.getElem?_eq_some_iff.mp fit.entry).1
  have complete := m.complete
  exact ⟨by omega, by omega⟩

theorem Given.managed (real : pid ≠ 255)
    (units : ∀ piece ∈ ps, piece.units = 256 ∨ piece.units = 1 ∨ piece.units = 16)
    (given : Given pid m ps m') (settled : m.Settled) : ∀ piece ∈ ps, Managed layout piece := by
  induction given with
  | nil _ => exact fun piece member => absurd member (List.not_mem_nil)
  | @cons m m' m'' piece rest first _ ih =>
    obtain ⟨size, sizes⟩ := List.forall_mem_cons.mp units
    refine List.forall_mem_cons.mpr ⟨?_, ih sizes (settled.allocPhysical real first)⟩
    rcases size with whole | small
    · obtain ⟨multiple, free, _⟩ := given_page whole first
      have page := free.lt
      have complete := m.complete
      exact ⟨by omega, by omega⟩
    · obtain ⟨p, p', fit, _⟩ := given_small settled small first
      exact fit.managed small

/-- Pieces below 1 MB that are allocated were not lent, and are now. -/
theorem Given.lent {pages : Finset Nat} {units : Nat → Finset Nat} (base : m.Settled)
    (real : pid ≠ 255) (small : ∀ piece ∈ ps, piece.units = 1 ∨ piece.units = 16)
    (given : Given pid m' ps m'') (settled : m'.Settled) (lent : m.Lent pid pages units m') :
    (∀ i, Disjoint (units i) (unitsIn ps i)) ∧ Apart ps ∧
      m.Lent pid pages (fun i => units i ∪ unitsIn ps i) m'' := by
  induction given generalizing units with
  | nil _ => exact ⟨fun i => Finset.disjoint_empty_right _, trivial, by simpa [unitsIn] using lent⟩
  | @cons m' m₁ m'' piece rest first _ ih =>
    obtain ⟨size, sizes⟩ := List.forall_mem_cons.mp small
    obtain ⟨p, p', fit, rfl⟩ := given_small settled size first
    obtain ⟨new, taken⟩ := lent.takeBlock base real (by omega) fit.entry fit.grant
    obtain ⟨apart, rest, later⟩ := ih sizes (settled.allocPhysical real first) taken
    have here := apart (piece.first / 256)
    rw [Function.update_self, Finset.disjoint_union_left] at here
    refine ⟨fun i => ?_, ⟨here.2, rest⟩, ?_⟩
    · by_cases same : piece.first / 256 = i
      · subst same
        rw [unitsIn, if_pos rfl]
        exact Finset.disjoint_union_right.mpr ⟨new, here.1⟩
      · have other := apart i
        rw [Function.update_of_ne (Ne.symm same)] at other
        rwa [unitsIn, if_neg same]
    · convert later using 2 with i
      by_cases same : piece.first / 256 = i
      · subst same
        rw [unitsIn, if_pos rfl, Function.update_self, Finset.union_assoc]
        rfl
      · rw [unitsIn, if_neg same, Function.update_of_ne (Ne.symm same)]

/-- Pages that are allocated were not lent, and are now. -/
theorem Given.lent_pages {pages : Finset Nat} {units : Nat → Finset Nat} (real : pid ≠ 255)
    (whole : ∀ piece ∈ ps, piece.units = 256) (given : Given pid m' ps m'') (settled : m'.Settled)
    (lent : m.Lent pid pages units m') :
    (pagesOf ps).Nodup ∧ (∀ i ∈ pagesOf ps, i ∉ pages) ∧ (∀ piece ∈ ps, 256 ∣ piece.first) ∧
      m.Lent pid (pages ∪ (pagesOf ps).toFinset) units m'' := by
  induction given generalizing pages with
  | nil _ => exact ⟨List.nodup_nil, by simp [pagesOf], by simp, by simpa [pagesOf] using lent⟩
  | @cons m' m₁ m'' piece rest first _ ih =>
    obtain ⟨size, sizes⟩ := List.forall_mem_cons.mp whole
    obtain ⟨multiple, free, rfl⟩ := given_page size first
    obtain ⟨new, taken⟩ := lent.takePage real free
    obtain ⟨nodup, later, multiples, all⟩ := ih sizes (settled.allocPhysical real first) taken
    have distinct : piece.first / 256 ∉ pagesOf rest := fun member =>
      later _ member (Finset.mem_insert_self _ pages)
    refine ⟨List.nodup_cons.mpr ⟨distinct, nodup⟩, ?_,
      List.forall_mem_cons.mpr ⟨multiple, multiples⟩, ?_⟩
    · exact List.forall_mem_cons.mpr ⟨new, fun i member => fun old =>
        later i member (Finset.mem_insert_of_mem old)⟩
    · rw [pagesOf, List.map_cons, List.toFinset_cons, Finset.union_insert, ← Finset.insert_union]
      exact all

/-! ### Freeing -/

theorem alignFloor_managed {u : Nat} (inside : u ≤ layout.numPages * 256) :
    alignFloor (layout.memStart + u * 4096) 4096 = layout.memStart + u * 4096 := by
  obtain ⟨c, start⟩ := layout.isAligned
  rw [alignFloor_eq (unit_lt inside) (n := 4096) (k := 12) rfl (by decide)]
  simp only [mappingPagesize] at start
  omega

theorem alignCeil_managed {u : Nat} (inside : u ≤ layout.numPages * 256) :
    alignCeil (layout.memStart + u * 4096) 4096 = layout.memStart + u * 4096 := by
  have word := unit_lt inside
  obtain ⟨c, start⟩ := layout.isAligned
  simp only [mappingPagesize] at start
  rw [alignCeil_eq (by omega) (n := 4096) (k := 12) rfl (by decide)]
  omega

/-- A piece is freed by its physical address. -/
theorem freePhysical_piece (managed : Managed layout piece) (m : PageMap layout) :
    freePhysical m (layout.memStart + piece.first * 4096)
      (wordAdd (layout.memStart + piece.first * 4096) (piece.units * 4096)) =
      freeUnits m piece.first (piece.first + piece.units) := by
  obtain ⟨positive, inside⟩ := managed
  have word := unit_lt inside
  have stop : layout.memStart + piece.first * 4096 + piece.units * 4096 =
      layout.memStart + (piece.first + piece.units) * 4096 := by omega
  rw [wordAdd_eq (by omega), stop]
  exact freePhysical_range ⟨by omega, inside, alignFloor_managed (by omega),
    alignCeil_managed inside⟩ m

/-- A loop over pieces of which each can be freed frees them all and goes on
with what is left of the length. -/
theorem freePieces_pieces {translate : Nat → Nat} {owed : List Piece → PageMap layout → Prop}
    (positive : 0 < n * 4096)
    (step : ∀ piece rest m, owed (piece :: rest) m → ∃ m',
      freeUnits m piece.first (piece.first + piece.units) = (m', cOk) ∧ owed rest m')
    (units : ∀ piece ∈ ps, piece.units = n) (managed : ∀ piece ∈ ps, Managed layout piece)
    {a : Nat} (located : Located layout translate a ps) (fits : a + bytes ps < 2 ^ 32)
    (length : Nat) (owes : owed ps m) :
    ∃ m', owed [] m' ∧ freePieces translate (n * 4096) positive (bytes ps + length) m a =
      freePieces translate (n * 4096) positive length m' (a + bytes ps) := by
  induction ps generalizing m a with
  | nil => exact ⟨m, owes, by simp [bytes]⟩
  | cons piece rest ih =>
    obtain ⟨size, sizes⟩ := List.forall_mem_cons.mp units
    obtain ⟨inside, insides⟩ := List.forall_mem_cons.mp managed
    obtain ⟨here, later⟩ := located
    obtain ⟨m₁, freed, owes₁⟩ := step piece rest m owes
    rw [bytes, size] at fits
    rw [size] at later
    have next : wordAdd a (n * 4096) = a + n * 4096 :=
      wordAdd_eq (Nat.lt_of_le_of_lt (by omega) fits)
    obtain ⟨m', done, result⟩ := ih sizes insides later (by omega) owes₁
    refine ⟨m', done, ?_⟩
    have nonzero : layout.memStart + piece.first * 4096 ≠ 0 := by
      have := layout.positive
      omega
    have call := freePhysical_piece inside m
    rw [freed, size] at call
    rw [bytes, size, freePieces, if_pos (by omega), here]
    simp only [if_neg nonzero, call, show isError cOk = false by decide, Bool.false_eq_true,
      if_false]
    rw [Nat.add_assoc (n * 4096), Nat.add_sub_cancel_left, next, result, Nat.add_assoc]

/-- The pages are given back. -/
theorem freePieces_pages {translate : Nat → Nat} {units : Nat → Finset Nat} (base : m.Settled)
    (whole : ∀ piece ∈ ps, piece.units = 256) (multiples : ∀ piece ∈ ps, 256 ∣ piece.first)
    (managed : ∀ piece ∈ ps, Managed layout piece) (nodup : (pagesOf ps).Nodup)
    (lent : m.Lent pid (pagesOf ps).toFinset units m') {a : Nat}
    (located : Located layout translate a ps) (fits : a + bytes ps < 2 ^ 32) (length : Nat) :
    ∃ m'', m.Lent pid ∅ units m'' ∧
      freePieces translate mappingPagesize (by decide) (bytes ps + length) m' a =
        freePieces translate mappingPagesize (by decide) length m'' (a + bytes ps) := by
  let owed (ps : List Piece) (m' : PageMap layout) : Prop :=
    (∀ piece ∈ ps, piece.units = 256) ∧ (∀ piece ∈ ps, 256 ∣ piece.first) ∧ (pagesOf ps).Nodup ∧
      m.Lent pid (pagesOf ps).toFinset units m'
  have step (piece : Piece) (rest : List Piece) (m₁ : PageMap layout)
      (owes : owed (piece :: rest) m₁) : ∃ m₂,
      freeUnits m₁ piece.first (piece.first + piece.units) = (m₂, cOk) ∧ owed rest m₂ := by
    obtain ⟨whole, multiples, nodup, lent⟩ := owes
    obtain ⟨distinct, others⟩ := List.nodup_cons.mp nodup
    have multiple := multiples piece (by simp)
    rw [pagesOf, List.map_cons, List.toFinset_cons] at lent
    obtain ⟨m₂, freed, less⟩ := lent.giveBackPage base (by simpa [pagesOf] using distinct)
    have first : piece.first / 256 * 256 = piece.first := Nat.div_mul_cancel multiple
    rw [first] at freed
    rw [whole piece (by simp)]
    exact ⟨m₂, freed, fun q member => whole q (by simp [member]),
      fun q member => multiples q (by simp [member]), others, less⟩
  obtain ⟨m'', ⟨_, _, _, done⟩, result⟩ := freePieces_pieces (by decide) step whole managed located
    fits length ⟨whole, multiples, nodup, lent⟩
  exact ⟨m'', by simpa [pagesOf] using done, result⟩

/-- The first of the pieces are given back. -/
theorem freePieces_small {translate : Nat → Nat} (base : m.Settled) (size : n = 1 ∨ n = 16)
    (units : ∀ piece ∈ ps, piece.units = n) (managed : ∀ piece ∈ ps, Managed layout piece)
    (apart : Apart (ps ++ qs)) (lent : m.Lent pid ∅ (unitsIn (ps ++ qs)) m') {a : Nat}
    (located : Located layout translate a ps) (fits : a + bytes ps < 2 ^ 32) (length : Nat)
    (positive : 0 < n * 4096) :
    ∃ m'', m.Lent pid ∅ (unitsIn qs) m'' ∧
      freePieces translate (n * 4096) positive (bytes ps + length) m' a =
        freePieces translate (n * 4096) positive length m'' (a + bytes ps) := by
  let owed (ps : List Piece) (m' : PageMap layout) : Prop :=
    (∀ piece ∈ ps, piece.units = n) ∧ (∀ piece ∈ ps, Managed layout piece) ∧ Apart (ps ++ qs) ∧
      m.Lent pid ∅ (unitsIn (ps ++ qs)) m'
  have step (piece : Piece) (rest : List Piece) (m₁ : PageMap layout)
      (owes : owed (piece :: rest) m₁) : ∃ m₂,
      freeUnits m₁ piece.first (piece.first + piece.units) = (m₂, cOk) ∧ owed rest m₂ := by
    obtain ⟨units, managed, ⟨alone, apart⟩, lent⟩ := owes
    obtain ⟨unit, units⟩ := List.forall_mem_cons.mp units
    obtain ⟨inside, managed⟩ := List.forall_mem_cons.mp managed
    have inPage : piece.first / 256 < layout.numPages := by
      have := inside.lt
      omega
    have block : Finset.Ico (piece.first % 256) (piece.first % 256 + piece.units) ⊆
        unitsIn (piece :: rest ++ qs) (piece.first / 256) := by
      rw [List.cons_append, unitsIn, if_pos rfl]
      exact Finset.subset_union_left
    obtain ⟨m₂, freed, less⟩ := lent.giveBackBlock base inside.1 (by omega) inPage block
    rw [Nat.div_add_mod'] at freed
    refine ⟨m₂, freed, units, managed, apart, ?_⟩
    convert less using 1
    funext i
    by_cases same : piece.first / 256 = i
    · subst same
      rw [Function.update_self, List.cons_append, unitsIn, if_pos rfl]
      exact (Finset.union_sdiff_cancel_left alone).symm
    · rw [Function.update_of_ne (Ne.symm same), List.cons_append, unitsIn, if_neg same]
  obtain ⟨m'', ⟨_, _, _, done⟩, result⟩ := freePieces_pieces positive step units managed located
    fits length ⟨units, managed, apart, lent⟩
  exact ⟨m'', done, result⟩

end Orcos.Source.PagedRam

/-! ## Where blocks come to lie

Single micropages come from the first page with room for one, the first free
one first; blocks of 64 KB fill a page that was free without gaps.
-/
namespace Orcos.Source.PagedRam
open Orcos.Lib.WordBits

variable {layout : Layout} {m m' m'' : PageMap layout} {pid n i index : Nat} {p p' : Page}
  {ps : List Piece}

theorem Grant.block (grant : Grant pid n index p p') : p.BlockFree n index := by
  rcases grant with ⟨_, taken⟩ | ⟨_, _, taken⟩
  · exact taken.block
  · exact taken.block

theorem Grant.bits (grant : Grant pid n index p p') (k : Nat) : bit p'.micropages k =
    (bit p.micropages k || decide (index ≤ k ∧ k < index + n)) := by
  rcases grant with ⟨_, taken⟩ | ⟨_, _, taken⟩
  · exact taken.bits k
  · exact taken.bits k

/-- The counter of a free page is zero, also before it is opened. -/
theorem Grant.used (grant : Grant pid n index p p') (settled : p.Settled) :
    p'.usedMicropages = p.usedMicropages + n := by
  rcases grant with ⟨free, taken⟩ | ⟨_, _, taken⟩
  · have unused := (settled.whole (settled.free free)).1
    rw [taken.used, unused]
    rfl
  · exact taken.used

theorem Grant.own (grant : Grant pid n index p p') : p'.pid = pid ∧ p'.usesMicropages = 1 := by
  rcases grant with ⟨_, taken⟩ | ⟨own, _, taken⟩
  · exact ⟨taken.pid, taken.uses⟩
  · exact ⟨taken.pid.trans own, taken.uses⟩

/-! ### Micropages in a row -/

/-- The first page with room for a micropage has its first free one at `index`
and `n` free ones in a row from there on, and its counter has room for them. -/
structure Row (m : PageMap layout) (pid n i index : Nat) (p : Page) : Prop where
  entry : m.pages[i]? = some p
  room : HasRoom pid 1 p
  earlier : ∀ j < i, ∀ q, m.pages[j]? = some q → ¬ HasRoom pid 1 q
  counter : p.usedMicropages + n < 256
  before : ∀ k < index, bit p.micropages k = true
  inside : index + n ≤ 256
  free : ∀ k, index ≤ k → k < index + n → bit p.micropages k = false

/-- The first of them is taken next. -/
theorem Row.first {j first : Nat} {q q' : Page} (row : Row m pid (n + 1) i index p)
    (fit : FirstFit m.pages pid 1 j first q q') : j = i ∧ first = index ∧ q = p := by
  have sameEntry : j = i := by
    rcases Nat.lt_trichotomy j i with less | same | more
    · exact absurd fit.grant.hasRoom (row.earlier j less q fit.entry)
    · exact same
    · exact absurd row.room (fit.earlier i more p row.entry)
  subst sameEntry
  obtain rfl : q = p := Option.some.inj (fit.entry.symm.trans row.entry)
  have inside := row.inside
  have free := row.free index (Nat.le_refl index) (by omega)
  have atMost : first ≤ index :=
    fit.least index ⟨Nat.one_dvd index, by omega, fun k low high => by
      obtain rfl : k = index := by omega
      exact free⟩
  have atLeast : ¬ first < index := by
    intro less
    have set := row.before first less
    rw [fit.grant.block.2.2 first (Nat.le_refl first) (Nat.lt_succ_self first)] at set
    cases set
  exact ⟨rfl, by omega, rfl⟩

/-- The others stay in a row. -/
theorem Row.next (row : Row m pid (n + 1) i index p) (settled : p.Settled) (more : 0 < n)
    (grant : Grant pid 1 index p p') : Row (m.setPage i p') pid n i (index + 1) p' := by
  have inside := row.inside
  have counter := row.counter
  have used := grant.used settled
  obtain ⟨own, split⟩ := grant.own
  have entry := PageMap.getElem?_setPage row.entry p'
  have free (k : Nat) (low : index + 1 ≤ k) (high : k < index + 1 + n) :
      bit p'.micropages k = false := by
    rw [grant.bits, row.free k (by omega) (by omega)]
    simp only [Bool.false_or, decide_eq_false_iff_not]
    omega
  refine ⟨by rw [entry, if_pos rfl], .inr ⟨own, by omega, by omega, index + 1,
    Nat.one_dvd _, by omega, fun k low high => free k low (by omega)⟩, fun j less q other => ?_,
    by omega, fun k less => ?_, by omega, free⟩
  · rw [entry, if_neg (by omega)] at other
    exact row.earlier j less q other
  · rw [grant.bits]
    by_cases new : k = index
    · simp [new]
    · simp [row.before k (by omega)]

/-- As many single micropages as are in a row are taken from it. -/
theorem Row.given (real : pid ≠ 255) (settled : m.Settled) (row : Row m pid ps.length i index p)
    (singles : ∀ piece ∈ ps, piece.units = 1) (given : Given pid m ps m') :
    (∀ piece ∈ ps.head?, piece.first = i * 256 + index) ∧
      unitsIn ps = Function.update (fun _ => ∅) i (Finset.Ico index (index + ps.length)) := by
  induction given generalizing index p with
  | nil _ => exact ⟨by simp, by simp [unitsIn]⟩
  | @cons m m₁ m' piece rest first others ih =>
    obtain ⟨single, singles⟩ := List.forall_mem_cons.mp singles
    obtain ⟨q, q', fit, rfl⟩ := given_small settled (.inl single) first
    rw [single] at fit
    obtain ⟨page, offset, rfl⟩ := row.first fit
    have start : piece.first = i * 256 + index := by omega
    have tail : unitsIn rest = Function.update (fun _ => ∅) i
        (Finset.Ico (index + 1) (index + 1 + rest.length)) := by
      cases others with
      | nil _ => simp [unitsIn]
      | @cons _ _ _ piece' rest' _ _ =>
        have kept := settled.allocPhysical real first
        have page' := settled q (List.mem_of_getElem? fit.entry)
        rw [page] at ih kept
        rw [offset] at fit
        exact (ih kept (row.next page' (Nat.succ_pos _) fit.grant) singles).2
    refine ⟨by simp [start], ?_⟩
    funext j
    rw [unitsIn, tail, Piece.indices, page, offset, single, List.length_cons]
    by_cases here : i = j
    · subst here
      rw [if_pos rfl, Function.update_self, Function.update_self,
        Finset.Ico_union_Ico_eq_Ico (by omega) (by omega), Nat.add_assoc, Nat.add_comm 1]
    · rw [if_neg here, Function.update_of_ne (Ne.symm here), Function.update_of_ne (Ne.symm here)]

/-! ### Blocks fill a page -/

/-- The pages that were free in `m` are in use from their begin on without gaps. -/
def Stacked (m m' : PageMap layout) : Prop :=
  ∀ (i : Nat) (p p' : Page), m.pages[i]? = some p → p.pid = 255 → m'.pages[i]? = some p' →
    ∃ c, ∀ k < 256, bit p'.micropages k = decide (k < 16 * c)

theorem Stacked.refl (settled : m.Settled) : Stacked m m := by
  intro i p p' entry free entry'
  obtain rfl : p = p' := Option.some.inj (entry.symm.trans entry')
  refine ⟨0, fun k _ => ?_⟩
  rw [settled.blank p (List.mem_of_getElem? entry) free, bit_blank]
  simp

/-- Pages and blocks of 64 KB leave no gaps. -/
theorem Given.stacked (real : pid ≠ 255)
    (sizes : ∀ piece ∈ ps, piece.units = 256 ∨ piece.units = 16) (given : Given pid m' ps m'')
    (settled : m'.Settled) (stacked : Stacked m m') : Stacked m m'' := by
  induction given with
  | nil _ => exact stacked
  | @cons m' m₁ m'' piece rest first _ ih =>
    obtain ⟨size, sizes⟩ := List.forall_mem_cons.mp sizes
    refine ih sizes (settled.allocPhysical real first) fun i p q entry free new => ?_
    rcases size with whole | block
    · obtain ⟨_, _, rfl⟩ := given_page whole first
      rw [PageMap.getElem?_take] at new
      split at new
      · obtain ⟨p', old, rfl⟩ := Option.map_eq_some_iff.mp new
        exact stacked i p p' entry free old
      · exact stacked i p q entry free new
    · obtain ⟨p', p'', fit, rfl⟩ := given_small settled (.inr block) first
      rw [PageMap.getElem?_setPage fit.entry] at new
      split at new
      · rename_i here
        subst here
        obtain rfl := Option.some.inj new
        obtain ⟨c, bits⟩ := stacked _ p p' entry free fit.entry
        obtain ⟨multiple, inside, clear⟩ := fit.grant.block
        rw [block] at multiple inside clear
        -- the block is the next one
        have behind : ¬ piece.first % 256 < 16 * c := by
          have := clear _ (Nat.le_refl _) (by omega)
          rw [bits _ (by omega)] at this
          exact of_decide_eq_false this
        have next : piece.first % 256 ≤ 16 * c := by
          refine fit.least (16 * c) ?_
          rw [block]
          refine ⟨Nat.dvd_mul_right 16 c, by omega, fun k low high => ?_⟩
          rw [bits k (by omega)]
          exact decide_eq_false (by omega)
        refine ⟨c + 1, fun k small => ?_⟩
        rw [fit.grant.bits, bits k small, block, ← Bool.decide_or]
        exact decide_eq_decide.mpr (by omega)
      · exact stacked i p q entry free new

end Orcos.Source.PagedRam
