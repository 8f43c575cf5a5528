import Orcos.Source.SequentialFit.Heap

/-!
# Memory that was freed

Source: src/source/mem/SequentialFitMemManager.cc, `alloc`, `split`, `free`, `merge`.

`merge` returns before it joins a chunk with its neighbours. So the cuts an allocation makes
stay, and the heap serves all its requests again only when no allocation has cut it.
-/
namespace Orcos.Guarantees.HeapReuse
open Orcos.Lib.ByteMemory Orcos.Source Orcos.Source.SequentialFit

section Specification

variable (seg : Segment) (memLastFit : Bool)

/-- The allocations one after the other, and the addresses of those that succeed. -/
def allocAll : MemResource → List Nat → MemResource × List Nat
  | r, [] => (r, [])
  | r, size :: sizes =>
    let answer := alloc seg memLastFit r size
    let rest := allocAll answer.1 sizes
    (rest.1, if answer.2 = 0 then rest.2 else answer.2 :: rest.2)

/-- The frees one after the other. -/
def freeAll (r : MemResource) (addrs : List Nat) : MemResource :=
  addrs.foldl (fun r addr => (freeChunk seg memLastFit r addr).1) r

/-- The request is answered with an address. -/
def Succeeds (r : MemResource) (size : Nat) : Prop := (alloc seg memLastFit r size).2 ≠ 0

/-- The chunk of the heap that is built first. -/
def firstChunk (occupied : Bool) : Chunk := ⟨seg.base, seg.memSegSize - 32, occupied⟩

/-- The first of the allocations that can succeed takes the first chunk as a whole. -/
def Uncut (sizes : List Nat) : Prop :=
  ∀ size, sizes.find? (fun size => size + safetyBuffer ≤ seg.memSegSize - 32) = some size →
    ¬(firstChunk seg false).Splits (size + safetyBuffer)

end Specification

section Requests

variable {seg : Segment} {memLastFit : Bool} {r : MemResource} {c : Chunk} {chunks : List Chunk}

theorem allocated (inv : HeapInv seg r chunks) : r.lastAllocated ≠ 0 := by
  obtain ⟨c, member, last⟩ := inv.last
  rw [← last]
  exact Nat.ne_of_gt (inv.addr_pos member)

variable (memLastFit) in
/-- The search finds nothing, or a chunk of the heap that fits. -/
theorem search_cases (inv : HeapInv seg r chunks) (size : Nat) :
    findFitting r.memory size seg.memSegSize (lookupStart memLastFit r) = 0 ∨
      ∃ c ∈ chunks, c.Fits size ∧
        findFitting r.memory size seg.memSegSize (lookupStart memLastFit r) = c.addr := by
  obtain ⟨skipped, rest, cut, start⟩ := inv.lookupStart_mem memLastFit
  have linked : Linked r.memory (lastOf 0 skipped) rest 0 :=
    (linked_append.mp (cut ▸ inv.linked)).2
  have real : ∀ c ∈ rest, c.addr ≠ 0 := fun c member =>
    Nat.ne_of_gt (inv.addr_pos (cut ▸ List.mem_append_right skipped member))
  have enough : rest.length ≤ seg.memSegSize := by
    have := inv.length_le
    rw [cut, List.length_append] at this
    omega
  rw [← start]
  rcases findFitting_spec size linked real enough with
    ⟨failed, _⟩ | ⟨before, c, after, found, fits, _, address⟩
  · exact .inl failed
  · have member : c ∈ chunks := by
      rw [cut, found]
      simp
    exact .inr ⟨c, member, fits, address⟩

/-- A request succeeds when the search finds a chunk. -/
theorem succeeds_iff (inv : HeapInv seg r chunks) (size : Nat) :
    Succeeds seg memLastFit r size ↔ findFitting r.memory (wordAdd size safetyBuffer)
      seg.memSegSize (lookupStart memLastFit r) ≠ 0 := by
  have build : buildFirstChunk seg r = r := if_neg (allocated inv)
  rw [Succeeds, alloc, build, getFittingChunk]
  rcases search_cases memLastFit inv (wordAdd size safetyBuffer) with
    failed | ⟨c, member, _, address⟩
  · rw [failed]
    exact iff_of_false (fun ne => ne rfl) fun ne => ne rfl
  · rw [address]
    have address_ne : c.addr ≠ 0 := Nat.ne_of_gt (inv.addr_pos member)
    have payload : wordAdd c.addr headerSize = c.addr + headerSize := by
      have high := (inv.tiled.bounds member).2
      have inside := seg.inside
      apply wordAdd_eq
      simp only [Chunk.next, Segment.top, headerSize] at high ⊢
      omega
    apply iff_of_true _ address_ne
    rw [if_neg address_ne]
    dsimp only
    rw [if_pos address_ne, payload]
    simp only [headerSize]
    omega

/-- A heap of a single chunk, free or not. -/
def Whole (seg : Segment) (r : MemResource) (occupied : Bool) : Prop :=
  HeapInv seg r [firstChunk seg occupied]

/-- A heap of at least two chunks. -/
def Cut (seg : Segment) (r : MemResource) : Prop :=
  ∃ chunks, HeapInv seg r chunks ∧ 2 ≤ chunks.length

theorem Whole.lookupStart {occupied : Bool} (whole : Whole seg r occupied) :
    lookupStart memLastFit r = seg.base := by
  obtain ⟨c, member, last⟩ := whole.last
  rw [List.mem_singleton.mp member] at last
  have inside := seg.inside
  have large := seg.large
  cases memLastFit with
  | false => exact whole.first
  | true =>
    rw [SequentialFit.lookupStart, if_pos rfl, ← last]
    by_cases earlier : r.firstFreed < (firstChunk seg occupied).addr
    · rw [if_pos earlier]
      rcases whole.freed with none_ | ⟨c, member, freed⟩
      · simp only [firstChunk, Segment.base, headerSize] at earlier
        omega
      · rw [List.mem_singleton.mp member] at freed
        exact freed.symm
    · rw [if_neg earlier]
      rfl

variable (memLastFit) in
theorem Whole.succeeds_iff {occupied : Bool} (whole : Whole seg r occupied) (size : Nat) :
    Succeeds seg memLastFit r size ↔
      occupied = false ∧ wordAdd size safetyBuffer ≤ seg.memSegSize - 32 := by
  rw [HeapReuse.succeeds_iff whole, whole.lookupStart]
  have positive := seg.base_pos
  have search := findFitting_spec (wordAdd size safetyBuffer) whole.linked
    (fun c member => Nat.ne_of_gt (whole.addr_pos member)) whole.length_le
  have start : firstOf [firstChunk seg occupied] 0 = seg.base := rfl
  rw [start] at search
  rcases search with ⟨failed, unfit⟩ | ⟨before, c, after, found, fits, _, address⟩
  · rw [failed]
    exact iff_of_false (fun ne => ne rfl) (unfit _ (List.mem_singleton_self _))
  · have member : c ∈ [firstChunk seg occupied] := by rw [found]; simp
    have same := List.mem_singleton.mp member
    subst same
    rw [address]
    exact iff_of_true (Nat.ne_of_gt positive) fits

/-- No chunk of a heap that is cut has room for a request of the whole heap. -/
theorem Cut.refuses (cut : Cut seg r) {size : Nat}
    (whole : wordAdd size safetyBuffer = seg.memSegSize - 32) :
    ¬Succeeds seg memLastFit r size := by
  obtain ⟨chunks, inv, two⟩ := cut
  rw [succeeds_iff inv, not_not, whole]
  apply (search_cases _ inv _).resolve_right
  rintro ⟨c, member, fits, -⟩
  obtain ⟨xs, ys, rfl⟩ := List.append_of_mem member
  have here := inv.at_split rfl
  have own := here.bounds
  have enough : seg.memSegSize - 32 ≤ c.size := fits.2
  -- another chunk lies in front of this one or behind it, and has a header too
  have other : (∃ d, d ∈ xs) ∨ ∃ d, d ∈ ys := by
    rw [List.length_append, List.length_cons] at two
    cases xs with
    | nil =>
      cases ys with
      | nil => simp at two
      | cons d ys => exact .inr ⟨d, by simp⟩
    | cons d xs => exact .inl ⟨d, by simp⟩
  rcases other with ⟨d, front⟩ | ⟨d, back⟩
  · have apart := here.before front
    have low := (inv.tiled.bounds (c := d) (by simp [front])).1
    simp only [Chunk.next, Segment.base, Segment.top, headerSize] at *
    omega
  · have apart := here.behind back
    have high := (inv.tiled.bounds (c := d) (by simp [back])).2
    simp only [Chunk.next, Segment.base, Segment.top, headerSize] at *
    omega

end Requests

section Runs

variable {seg : Segment} {memLastFit : Bool} {r : MemResource} {sizes addrs : List Nat}

theorem Cut.alloc (cut : Cut seg r) {size : Nat} (unwrapped : size + safetyBuffer < 2 ^ 32) :
    Cut seg (SequentialFit.alloc seg memLastFit r size).1 := by
  obtain ⟨chunks, inv, two⟩ := cut
  rcases alloc_spec inv memLastFit unwrapped with
    failed | ⟨xs, c, ys, r', rfl, _, result, kept, _⟩
  · rw [failed]
    exact ⟨chunks, inv, two⟩
  · rw [result]
    obtain ⟨more, taken, _⟩ := taken_eq c (size + safetyBuffer)
    refine ⟨_, kept, ?_⟩
    rw [taken]
    simp only [List.length_append, List.length_cons] at two ⊢
    omega

theorem Cut.free (cut : Cut seg r) (addr : Nat) : Cut seg (freeChunk seg memLastFit r addr).1 := by
  obtain ⟨chunks, inv, two⟩ := cut
  rcases free_spec inv memLastFit addr with
    rejected | ⟨xs, c, ys, r', rfl, _, _, result, kept, _⟩
  · rw [rejected]
    exact ⟨chunks, inv, two⟩
  · rw [result]
    refine ⟨_, kept, ?_⟩
    simpa using two

theorem Cut.allocAll (cut : Cut seg r) (unwrapped : ∀ size ∈ sizes, size + safetyBuffer < 2 ^ 32) :
    Cut seg (HeapReuse.allocAll seg memLastFit r sizes).1 := by
  induction sizes generalizing r with
  | nil => exact cut
  | cons size sizes ih =>
    exact ih (cut.alloc (unwrapped size (by simp))) fun later member =>
      unwrapped later (by simp [member])

theorem Cut.freeAll (cut : Cut seg r) (addrs : List Nat) :
    Cut seg (HeapReuse.freeAll seg memLastFit r addrs) := by
  induction addrs generalizing r with
  | nil => exact cut
  | cons addr addrs ih => exact ih (cut.free addr)

/-- The payload of the first chunk. -/
def firstPayload (seg : Segment) : Nat := (firstChunk seg false).payload

variable (memLastFit) in
theorem Whole.alloc_refused {occupied : Bool} (whole : Whole seg r occupied) {size : Nat}
    (unwrapped : size + safetyBuffer < 2 ^ 32)
    (refused : ¬(occupied = false ∧ size + safetyBuffer ≤ seg.memSegSize - 32)) :
    SequentialFit.alloc seg memLastFit r size = (r, 0) := by
  apply (alloc_spec whole memLastFit unwrapped).resolve_right
  rintro ⟨xs, c, ys, r', split, fits, -⟩
  have member : c ∈ [firstChunk seg occupied] := by
    rw [split]
    simp
  rw [List.mem_singleton.mp member] at fits
  exact refused fits

variable (memLastFit) in
/-- The only chunk is taken: as a whole, or the heap is cut. -/
theorem Whole.alloc_taken (whole : Whole seg r false) {size : Nat}
    (unwrapped : size + safetyBuffer < 2 ^ 32)
    (enough : size + safetyBuffer ≤ seg.memSegSize - 32) :
    ∃ r', SequentialFit.alloc seg memLastFit r size = (r', firstPayload seg) ∧
      if (firstChunk seg false).Splits (size + safetyBuffer) then Cut seg r'
      else Whole seg r' true := by
  rcases alloc_spec whole memLastFit unwrapped with
    failed | ⟨xs, c, ys, r', split, _, result, kept, _⟩
  · have succeeds := (whole.succeeds_iff memLastFit size).mpr
      ⟨rfl, by rw [wordAdd_eq unwrapped]; exact enough⟩
    rw [Succeeds, failed] at succeeds
    exact absurd rfl succeeds
  · obtain ⟨rfl, rest⟩ : xs = [] ∧ firstChunk seg false :: [] = c :: ys := by
      cases xs with
      | nil => exact ⟨rfl, split⟩
      | cons d xs => simp at split
    cases rest
    refine ⟨r', result, ?_⟩
    by_cases splits : (firstChunk seg false).Splits (size + safetyBuffer)
    · rw [if_pos splits]
      rw [Chunk.taken, if_pos splits] at kept
      exact ⟨_, kept, Nat.le_refl 2⟩
    · rw [if_neg splits]
      rw [Chunk.taken, if_neg splits] at kept
      exact kept

theorem Whole.allocAll_occupied (whole : Whole seg r true)
    (unwrapped : ∀ size ∈ sizes, size + safetyBuffer < 2 ^ 32) :
    allocAll seg memLastFit r sizes = (r, []) := by
  induction sizes with
  | nil => rfl
  | cons size sizes ih =>
    have refused := whole.alloc_refused memLastFit (unwrapped size (by simp))
      (fun fits => absurd fits.1 (by decide))
    rw [allocAll, refused, ih fun later member => unwrapped later (by simp [member])]
    rfl

variable (memLastFit) in
/-- All allocations on a heap with one free chunk: none succeeds, or only one, or the heap is
cut. -/
theorem Whole.allocAll_cases (whole : Whole seg r false)
    (unwrapped : ∀ size ∈ sizes, size + safetyBuffer < 2 ^ 32) :
    (Uncut seg sizes → allocAll seg memLastFit r sizes = (r, []) ∨
      ∃ r', allocAll seg memLastFit r sizes = (r', [firstPayload seg]) ∧ Whole seg r' true) ∧
    (¬Uncut seg sizes → Cut seg (allocAll seg memLastFit r sizes).1) := by
  induction sizes with
  | nil => exact ⟨fun _ => .inl rfl, fun cut => absurd (fun size found => by cases found) cut⟩
  | cons size sizes ih =>
    have own := unwrapped size (by simp)
    have later : ∀ size ∈ sizes, size + safetyBuffer < 2 ^ 32 := fun later member =>
      unwrapped later (by simp [member])
    by_cases enough : size + safetyBuffer ≤ seg.memSegSize - 32
    · obtain ⟨r', result, taken⟩ := whole.alloc_taken memLastFit own enough
      have uncut : Uncut seg (size :: sizes) ↔
        ¬(firstChunk seg false).Splits (size + safetyBuffer) := by
        simp [Uncut, enough]
      have positive : firstPayload seg ≠ 0 := by
        simp only [firstPayload, Chunk.payload, headerSize]
        omega
      rw [uncut, not_not]
      by_cases splits : (firstChunk seg false).Splits (size + safetyBuffer)
      · rw [if_pos splits] at taken
        refine ⟨fun whole => absurd splits whole, fun _ => ?_⟩
        rw [allocAll, result]
        exact taken.allocAll later
      · rw [if_neg splits] at taken
        refine ⟨fun _ => .inr ⟨r', ?_, taken⟩, fun cut => absurd cut splits⟩
        rw [allocAll, result]
        dsimp only
        rw [taken.allocAll_occupied later, if_neg positive]
    · have refused := whole.alloc_refused memLastFit own fun fits => enough fits.2
      have uncut : Uncut seg (size :: sizes) ↔ Uncut seg sizes := by
        simp [Uncut, enough]
      rw [uncut, allocAll, refused]
      exact ih later

theorem Whole.free (whole : Whole seg r true) :
    Whole seg (freeChunk seg memLastFit r (firstPayload seg)).1 false := by
  have inside := seg.inside
  have large := seg.large
  have chunk : wordSub (firstPayload seg) headerSize = seg.base := by
    rw [firstPayload, Chunk.payload, wordSub_eq (by omega)]
    · exact Nat.add_sub_cancel ..
    · simp only [firstChunk, Segment.base, headerSize]
      omega
  have valid : isValidChunkAddress seg r (wordSub (firstPayload seg) headerSize) = true := by
    have base_ne : seg.base ≠ 0 := Nat.ne_of_gt seg.base_pos
    have fuel : ∃ n, seg.memSegSize = n + 1 := ⟨seg.memSegSize - 1, by omega⟩
    obtain ⟨n, fuel⟩ := fuel
    rw [chunk, isValidChunkAddress, whole.first, Bool.and_eq_true]
    constructor
    · rw [containsAddr, wordAdd_eq (by omega)]
      apply decide_eq_true
      simp only [Segment.base, headerSize]
      omega
    · rw [fuel, scanFor, if_neg base_ne, if_pos rfl]
  rcases free_spec whole memLastFit (firstPayload seg) with
    rejected | ⟨xs, c, ys, r', split, _, _, result, kept, _⟩
  · rw [freeChunk, if_pos valid] at rejected
    have codes : cOk = cNoValidChunkAddress := congrArg Prod.snd rejected
    exact absurd codes (by decide)
  · obtain ⟨rfl, rest⟩ : xs = [] ∧ firstChunk seg true :: [] = c :: ys := by
      cases xs with
      | nil => exact ⟨rfl, split⟩
      | cons d xs => simp at split
    cases rest
    rw [result]
    exact kept

theorem freeAll_free (whole : Whole seg r true) (all : addrs.Perm [firstPayload seg]) :
    Whole seg (freeAll seg memLastFit r addrs) false := by
  rw [List.perm_singleton.mp all]
  exact whole.free

/-- The heap is built by the first allocation, whatever its size. -/
theorem allocAll_buildFirstChunk (size : Nat) (sizes : List Nat) :
    allocAll seg memLastFit (buildFirstChunk seg r) (size :: sizes) =
      allocAll seg memLastFit r (size :: sizes) := by
  simp only [allocAll, alloc_buildFirstChunk]

theorem succeeds_buildFirstChunk (size : Nat) :
    Succeeds seg memLastFit (buildFirstChunk seg r) size ↔ Succeeds seg memLastFit r size := by
  simp only [Succeeds, alloc_buildFirstChunk]

end Runs

section Reuse

variable (seg : Segment) (memLastFit : Bool) (memory : Memory) (sizes addrs : List Nat)

/-- Every request that succeeds on the heap in its first state succeeds on the heap after the
allocations and the frees. -/
def Reusable : Prop :=
  ∀ size < 2 ^ 32, Succeeds seg memLastFit (fresh memory) size →
    Succeeds seg memLastFit
      (freeAll seg memLastFit (allocAll seg memLastFit (fresh memory) sizes).1 addrs) size

variable {seg memLastFit memory sizes addrs}

theorem fresh_whole : Whole seg (buildFirstChunk seg (fresh memory)) false :=
  (buildFirstChunk_inv seg rfl).1

variable (memLastFit memory) in
theorem fresh_succeeds_iff (size : Nat) : Succeeds seg memLastFit (fresh memory) size ↔
    wordAdd size safetyBuffer ≤ seg.memSegSize - 32 := by
  rw [← succeeds_buildFirstChunk, fresh_whole.succeeds_iff]
  exact and_iff_right rfl

theorem reusable_of_whole
    (whole : Whole seg
      (freeAll seg memLastFit (allocAll seg memLastFit (fresh memory) sizes).1 addrs) false) :
    Reusable seg memLastFit memory sizes addrs := by
  intro size _ succeeds
  exact (whole.succeeds_iff _ size).mpr ⟨rfl, (fresh_succeeds_iff _ _ size).mp succeeds⟩

/-- The whole heap is a request that a heap which was cut does not serve again. -/
theorem not_reusable_of_cut {first : Nat} (large : (firstChunk seg false).Splits first)
    (cut : Cut seg (allocAll seg memLastFit (fresh memory) sizes).1) :
    ¬Reusable seg memLastFit memory sizes addrs := by
  intro reusable
  have inside := seg.inside
  have total : 32 + 24 < seg.memSegSize - 32 := by
    simp only [Chunk.Splits, firstChunk, minimumPayload, headerSize] at large
    omega
  have whole : wordAdd (seg.memSegSize - 32 - safetyBuffer) safetyBuffer = seg.memSegSize - 32 := by
    rw [wordAdd_eq (by simp only [safetyBuffer]; omega)]
    simp only [safetyBuffer]
    omega
  have once := (fresh_succeeds_iff memLastFit memory _).mpr
    (Nat.le_of_eq whole)
  exact (cut.freeAll addrs).refuses whole (reusable _ (by omega) once)

/-- After all that was allocated is freed, in any order, the heap serves the requests it served
first, exactly when the allocations have not cut it. -/
theorem freed_heap_reusable_iff (seg : Segment) (memLastFit : Bool) (memory : Memory)
    (sizes addrs : List Nat) (unwrapped : ∀ size ∈ sizes, size + safetyBuffer < 2 ^ 32)
    (all : addrs.Perm (allocAll seg memLastFit (fresh memory) sizes).2) :
    Reusable seg memLastFit memory sizes addrs ↔ Uncut seg sizes := by
  cases sizes with
  | nil =>
    rw [List.perm_nil.mp all]
    exact iff_of_true (fun _ _ succeeds => succeeds) fun size found => by cases found
  | cons size sizes =>
    have built : Whole seg (buildFirstChunk seg (fresh memory)) false := fresh_whole
    have runs := built.allocAll_cases memLastFit unwrapped
    rw [allocAll_buildFirstChunk] at runs
    by_cases uncut : Uncut seg (size :: sizes)
    · apply iff_of_true _ uncut
      apply reusable_of_whole
      rcases runs.1 uncut with none_ | ⟨r', one, whole⟩
      · rw [none_] at all ⊢
        rw [List.perm_nil.mp all]
        exact built
      · rw [one] at all ⊢
        exact freeAll_free whole all
    · apply iff_of_false _ uncut
      obtain ⟨first, splits⟩ : ∃ first, (firstChunk seg false).Splits first := by
        by_contra never
        exact uncut fun size _ splits => never ⟨_, splits⟩
      exact not_reusable_of_cut splits (runs.2 uncut)

/-- 516 bytes from 0x3000 on. -/
def tinySegment : Segment := ⟨0x3000, 516, by decide, by decide, by decide, by decide⟩

theorem freed_heap_reusable_large :
    Reusable tinySegment true (fun _ => 0) [500, 450, 4] [0x3020] ↔
    Uncut tinySegment [500, 450, 4] :=
  freed_heap_reusable_iff tinySegment true (fun _ => 0) [500, 450, 4] [0x3020] (by decide)
    (by decide +kernel)

/-- After an allocation of 100 bytes is freed the heap no longer serves 468. -/
theorem freed_heap_not_reusable :
    ¬Reusable tinySegment true (fun _ => 0) [100] [0x3020] := by
  have splits : (firstChunk tinySegment false).Splits 116 := by decide
  apply not_reusable_of_cut splits
  have built : Whole tinySegment (buildFirstChunk tinySegment (fresh fun _ => 0)) false :=
    fresh_whole
  have unwrapped : ∀ size ∈ [100], size + safetyBuffer < 2 ^ 32 := by decide
  have runs := built.allocAll_cases true unwrapped
  rw [allocAll_buildFirstChunk] at runs
  exact runs.2 fun uncut => uncut 100 (by decide) (by decide)

end Reuse

end Orcos.Guarantees.HeapReuse
