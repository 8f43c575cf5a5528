import Mathlib.Algebra.BigOperators.Group.List.Basic
import Orcos.Lib.Runs
import Orcos.Source.SequentialFit.Heap

/-!
# Runs of the sequential-fit memory manager

As long as no requested size overflows when the safety buffer is added, the
chunk list tiles the segment, whatever is freed. If frees also name occupied
chunks only, the counter is the sum of the occupied payloads.
-/
namespace Orcos.Guarantees.SequentialHeap
open Orcos.Lib.Runs Orcos.Lib.ByteMemory Orcos.Source Orcos.Source.SequentialFit

inductive Call where
  | alloc (size : Nat)
  | free (addr : Nat)
  deriving DecidableEq

/-- The heap, and for each payload address the size last requested there. -/
structure Session where
  heap : MemResource
  requested : Nat → Nat

section Runs

variable (seg : Segment) (memLastFit : Bool)

def step (s : Session) : Call → Session
  | .alloc size =>
    let answer := alloc seg memLastFit s.heap size
    ⟨answer.1, if answer.2 = 0 then s.requested else Function.update s.requested answer.2 size⟩
  | .free addr => ⟨(freeChunk seg memLastFit s.heap addr).1, s.requested⟩

/-- A segment nothing was allocated in. -/
def start (memory : Memory) : Session := ⟨SequentialFit.fresh memory, fun _ => 0⟩

/-- Adding the safety buffer to the requested size does not overflow. -/
def Unwrapped : Call → Prop
  | .alloc size => size + safetyBuffer < 2 ^ 32
  | .free _ => True

/-- The chunk list tiles the segment. The headers of `chunks` are in memory,
linked both ways, the first at `firstAddr`. -/
structure TilesSegment (s : Session) (chunks : List Chunk) : Prop where
  linked : Linked s.heap.memory 0 chunks 0
  first : firstOf chunks 0 = s.heap.firstAddr
  tiled : Tiled s.heap.firstAddr chunks (seg.startAddr + seg.memSegSize)
  apart : chunks.Pairwise fun c d => c.payload + c.size ≤ d.payload
  isAligned : ∀ c ∈ chunks, c.payload % 4 = 0
  enough : ∀ c ∈ chunks, c.occupied = true → s.requested c.payload ≤ c.size

/-- The sum of the occupied payloads. -/
def occupiedBytes (chunks : List Chunk) : Nat :=
  ((chunks.filter Chunk.occupied).map Chunk.size).sum

/-- An accepted free names an occupied chunk. -/
def FreesOccupied (s : Session) : Call → Prop
  | .alloc _ => True
  | .free addr => isValidChunkAddress seg s.heap (wordSub addr headerSize) = true →
      chunkState s.heap.memory (wordSub addr headerSize) = occupied

end Runs

variable {seg : Segment} {memLastFit : Bool} {s : Session} {c : Chunk} {xs ys chunks : List Chunk}
  {a e : Nat}

/-! ### The sum of the occupied payloads -/

theorem occupiedBytes_append : occupiedBytes (xs ++ ys) = occupiedBytes xs + occupiedBytes ys := by
  simp [occupiedBytes]

theorem occupiedBytes_cons : occupiedBytes (c :: xs) =
    (if c.occupied then c.size else 0) + occupiedBytes xs := by
  cases h : c.occupied <;> simp [occupiedBytes, h]

theorem occupiedBytes_free (none : ∀ c ∈ xs, c.occupied = false) : occupiedBytes xs = 0 := by
  induction xs with
  | nil => rfl
  | cons c xs ih =>
    rw [occupiedBytes_cons, none c (by simp), ih fun d later => none d (by simp [later])]
    rfl

theorem occupiedBytes_le (tiled : Tiled a xs e) : occupiedBytes xs ≤ e - a := by
  induction xs generalizing a with
  | nil => exact Nat.zero_le _
  | cons c xs ih =>
    have rest := ih tiled.2
    have := tiled.1
    have := tiled.2.le
    rw [occupiedBytes_cons]
    simp only [Chunk.next] at *
    split <;> omega

theorem occupiedBytes_lt (heap : HeapInv seg s.heap chunks) : occupiedBytes chunks < 2 ^ 32 := by
  have := occupiedBytes_le heap.tiled
  have := seg.inside
  simp only [Segment.top] at *
  omega

/-! ### One call -/

/-- The heap is built, and requests are met. -/
structure Inv (seg : Segment) (s : Session) (chunks : List Chunk) : Prop where
  heap : HeapInv seg s.heap chunks
  enough : ∀ c ∈ chunks, c.occupied = true → s.requested c.payload ≤ c.size

def Counted (s : Session) (chunks : List Chunk) : Prop :=
  s.heap.usedBytes = occupiedBytes chunks

/-- The addresses of the other chunks differ. -/
theorem payload_ne {m : Memory} (here : ChunkAt m a xs c ys e) {d : Chunk}
    (other : d ∈ xs ∨ d ∈ ys) : d.payload ≠ c.payload := by
  rcases other with left | right
  · have := here.before left
    simp only [Chunk.next, Chunk.payload, headerSize] at *
    omega
  · have := here.behind right
    simp only [Chunk.next, Chunk.payload, headerSize] at *
    omega

theorem alloc_preserves (memLastFit : Bool) (inv : Inv seg s chunks) {size : Nat}
    (unwrapped : Unwrapped (.alloc size)) :
    ∃ chunks', Inv seg (step seg memLastFit s (.alloc size)) chunks' ∧
      (Counted s chunks → Counted (step seg memLastFit s (.alloc size)) chunks') := by
  rcases alloc_spec inv.heap memLastFit unwrapped with
    failed | ⟨xs, c, ys, r', rfl, fits, result, kept, used⟩
  · refine ⟨chunks, ?_⟩
    rw [step, failed]
    exact ⟨inv, id⟩
  · have here := inv.heap.at_split rfl
    have real : c.payload ≠ 0 := by
      have := inv.heap.addr_pos (c := c) (by simp)
      rw [Chunk.payload]
      omega
    have granted := granted_ge fits.2
    obtain ⟨more, taken, added⟩ := taken_eq c (size + safetyBuffer)
    rw [taken] at kept
    refine ⟨_, ⟨by rw [step, result]; exact kept, fun d member isOccupied => ?_⟩, fun counted => ?_⟩
    · simp only [step, result, if_neg real]
      simp only [List.cons_append, List.mem_append, List.mem_cons] at member
      rcases member with left | rfl | new | right
      · rw [Function.update_of_ne (payload_ne here (.inl left))]
        exact inv.enough d (by simp [left]) isOccupied
      · have same : (⟨c.addr, c.granted (size + safetyBuffer), true⟩ : Chunk).payload = c.payload :=
          rfl
        rw [same, Function.update_self]
        exact Nat.le_trans (Nat.le_add_right size safetyBuffer) granted
      · rw [(added d new).1] at isOccupied
        cases isOccupied
      · rw [Function.update_of_ne (payload_ne here (.inr right))]
        exact inv.enough d (by simp [right]) isOccupied
    · have bound := occupiedBytes_lt (s := ⟨r', s.requested⟩) kept
      have none := occupiedBytes_free fun d new => (added d new).1
      rw [Counted] at counted
      simp only [Counted, step, result, used, counted, occupiedBytes_append, occupiedBytes_cons,
        List.cons_append, fits.1, none, Bool.false_eq_true, if_false, if_true] at bound ⊢
      rw [wordAdd_eq (by omega)]
      omega

theorem free_preserves (inv : Inv seg s chunks) (addr : Nat) :
    ∃ chunks', Inv seg (step seg memLastFit s (.free addr)) chunks' ∧
      (FreesOccupied seg s (.free addr) → Counted s chunks →
        Counted (step seg memLastFit s (.free addr)) chunks') := by
  rcases free_spec inv.heap memLastFit addr with
    rejected | ⟨xs, c, ys, r', rfl, valid, address, result, kept, used⟩
  · refine ⟨chunks, ?_⟩
    rw [step, rejected]
    exact ⟨inv, fun _ => id⟩
  · have here := inv.heap.at_split rfl
    refine ⟨_, ⟨by rw [step, result]; exact kept, fun d member isOccupied => ?_⟩,
      fun names counted => ?_⟩
    · simp only [List.mem_append, List.mem_cons] at member
      rcases member with left | rfl | right
      · exact inv.enough d (by simp [left]) isOccupied
      · cases isOccupied
      · exact inv.enough d (by simp [right]) isOccupied
    · have isOccupied : c.occupied = true := by
        have state := names valid
        rw [address, here.chunkState_eq, Chunk.state] at state
        by_contra free
        rw [if_neg free] at state
        cases state
      have bound := occupiedBytes_lt inv.heap
      rw [Counted] at counted
      simp only [Counted, step, result, used, counted, occupiedBytes_append, occupiedBytes_cons,
        isOccupied, Bool.false_eq_true, if_false, if_true] at bound ⊢
      rw [wordSub_eq (by omega) bound]
      omega

/-! ### Runs -/

/-- Nothing was allocated yet, so there is no chunk. -/
structure Unbuilt (s : Session) : Prop where
  last : s.heap.lastAllocated = 0
  first : s.heap.firstAddr = 0
  used : s.heap.usedBytes = 0

theorem first_alloc (seg : Segment) (memLastFit : Bool) (unbuilt : Unbuilt s) {size : Nat}
    (unwrapped : Unwrapped (.alloc size)) :
    ∃ chunks, Inv seg (step seg memLastFit s (.alloc size)) chunks ∧
      Counted (step seg memLastFit s (.alloc size)) chunks := by
  obtain ⟨heap, used⟩ := buildFirstChunk_inv seg unbuilt.last
  have built : Inv seg ⟨buildFirstChunk seg s.heap, s.requested⟩
      [⟨seg.base, seg.memSegSize - 32, false⟩] :=
    ⟨heap, fun c member isOccupied => by
      rw [List.mem_singleton.mp member] at isOccupied
      cases isOccupied⟩
  obtain ⟨chunks, kept, counted⟩ := alloc_preserves memLastFit built unwrapped
  simp only [step, alloc_buildFirstChunk] at kept counted
  exact ⟨chunks, kept, counted (used.trans unbuilt.used)⟩

/-- Without a chunk every free is rejected. -/
theorem unbuilt_free (unbuilt : Unbuilt s) (addr : Nat) :
    Unbuilt (step seg memLastFit s (.free addr)) := by
  have none (chunk fuel : Nat) : scanFor s.heap.memory chunk fuel 0 = false := by
    cases fuel <;> rfl
  have rejected : freeChunk seg memLastFit s.heap addr = (s.heap, cNoValidChunkAddress) := by
    rw [freeChunk, isValidChunkAddress, unbuilt.first, none, Bool.and_false]
    rfl
  rw [step, rejected]
  exact unbuilt

theorem step_preserves (call : Call) (inv : ∃ chunks, Inv seg s chunks)
    (unwrapped : Unwrapped call) : ∃ chunks, Inv seg (step seg memLastFit s call) chunks := by
  obtain ⟨chunks, inv⟩ := inv
  cases call with
  | alloc size =>
    obtain ⟨chunks', kept, _⟩ := alloc_preserves memLastFit inv unwrapped
    exact ⟨chunks', kept⟩
  | free addr =>
    obtain ⟨chunks', kept, _⟩ := free_preserves inv addr
    exact ⟨chunks', kept⟩

/-- After the first allocation and any further calls whose sizes do not wrap,
the chunk list tiles the segment and occupied payloads are as long as requested. -/
theorem chunks_tile_segment (seg : Segment) (memLastFit : Bool) (memory : Memory) (size : Nat)
    (calls : List Call) (unwrapped : ∀ call ∈ .alloc size :: calls, Unwrapped call) :
    ∃ chunks, TilesSegment seg
      (exec (step seg memLastFit) (start memory) (.alloc size :: calls)) chunks := by
  have unbuilt : Unbuilt (start memory) := ⟨rfl, rfl, rfl⟩
  obtain ⟨first, built, _⟩ := first_alloc seg memLastFit unbuilt
    (unwrapped (.alloc size) (by simp))
  have later := admissible_of_forall (step seg memLastFit)
    (step seg memLastFit (start memory) (.alloc size)) calls
    fun call member => unwrapped call (by simp [member])
  obtain ⟨chunks, inv⟩ := exec_invariant (fun s => ∃ chunks, Inv seg s chunks)
    (fun s call => step_preserves call) calls _ ⟨first, built⟩ later
  refine ⟨chunks, inv.heap.linked, inv.heap.firstOf_eq, ?_, ?_, fun c member => ?_, inv.enough⟩
  · rw [exec, inv.heap.first]
    exact inv.heap.tiled
  · refine inv.heap.tiled.pairwise.imp fun {c d} apart => ?_
    simp only [Chunk.next, Chunk.payload] at *
    omega
  · have := inv.heap.isAligned c member
    simp only [Chunk.payload, headerSize]
    omega

/-- The scan adds up the occupied chunks. -/
theorem sumUsed_eq {m : Memory} {prev fuel : Nat} (linked : Linked m prev xs 0)
    (real : ∀ c ∈ xs, c.addr ≠ 0) (enough : xs.length ≤ fuel) (small : occupiedBytes xs < 2 ^ 32) :
    (sumUsed m fuel (firstOf xs 0)).1 = occupiedBytes xs := by
  induction xs generalizing prev fuel with
  | nil => cases fuel <;> rfl
  | cons c xs ih =>
    obtain ⟨fuel, rfl⟩ : ∃ k, fuel = k + 1 := ⟨fuel - 1, by simp at enough; omega⟩
    have state : chunkState m c.addr = c.state := congrArg ChunkHeader.state linked.1
    have stored : chunkSize m c.addr = c.size := congrArg ChunkHeader.size linked.1
    have onward : nextChunk m c.addr = firstOf xs 0 := congrArg ChunkHeader.nextChunk linked.1
    have start : firstOf (c :: xs) 0 = c.addr := rfl
    rw [occupiedBytes_cons] at small
    have rest := ih linked.2 (fun d later => real d (by simp [later])) (by simpa using enough)
      (by omega)
    rw [start, sumUsed, if_neg (real c (by simp)), state, stored, onward, occupiedBytes_cons]
    cases isOccupied : c.occupied with
    | true =>
      rw [isOccupied] at small
      simp only [Chunk.state, isOccupied, if_true, rest] at small ⊢
      exact wordAdd_eq small
    | false =>
      have isFree : ¬ free = occupied := by decide
      simp only [Chunk.state, isOccupied, Bool.false_eq_true, if_false, if_neg isFree, rest]
      omega

theorem step_counted (call : Call) (inv : Unbuilt s ∨ ∃ chunks, Inv seg s chunks ∧ Counted s chunks)
    (ok : FreesOccupied seg s call ∧ Unwrapped call) :
    Unbuilt (step seg memLastFit s call) ∨
      ∃ chunks, Inv seg (step seg memLastFit s call) chunks ∧
        Counted (step seg memLastFit s call) chunks := by
  rcases inv with unbuilt | ⟨chunks, inv, counted⟩
  · cases call with
    | alloc size => exact .inr (first_alloc seg memLastFit unbuilt ok.2)
    | free addr => exact .inl (unbuilt_free unbuilt addr)
  · cases call with
    | alloc size =>
      obtain ⟨chunks', kept, sum⟩ := alloc_preserves memLastFit inv ok.2
      exact .inr ⟨chunks', kept, sum counted⟩
    | free addr =>
      obtain ⟨chunks', kept, sum⟩ := free_preserves inv addr
      exact .inr ⟨chunks', kept, sum ok.1 counted⟩

/-- After any calls whose sizes do not wrap and whose frees name occupied
chunks, the counter is the sum of the occupied payloads in the chunk list, and
the check of `getUsedMemSize` finds no difference. -/
theorem usedBytes_is_sum (seg : Segment) (memLastFit : Bool) (memory : Memory) (calls : List Call)
    (unwrapped : ∀ call ∈ calls, Unwrapped call)
    (named : Admissible (step seg memLastFit) (FreesOccupied seg) (start memory) calls)
    (overhead : Nat) :
    let s := exec (step seg memLastFit) (start memory) calls
    ∃ chunks, Linked s.heap.memory 0 chunks 0 ∧ firstOf chunks 0 = s.heap.firstAddr ∧
      s.heap.usedBytes = occupiedBytes chunks ∧
      (getUsedMemSize seg s.heap overhead).1 = s.heap.usedBytes ∧
      (getUsedMemSize seg s.heap overhead).2.2.2 = false := by
  intro s
  have unbuilt : Unbuilt (start memory) := ⟨rfl, rfl, rfl⟩
  have ok := named.and (admissible_of_forall (step seg memLastFit) (start memory) calls unwrapped)
  have sum : (getUsedMemSize seg s.heap overhead).1 = s.heap.usedBytes →
      (getUsedMemSize seg s.heap overhead).2.2.2 = false := by
    intro same
    simp only [getUsedMemSize] at same ⊢
    simp [same]
  rcases exec_invariant (fun s => Unbuilt s ∨ ∃ chunks, Inv seg s chunks ∧ Counted s chunks)
    (fun s call => step_counted call) calls _ (.inl unbuilt) ok with unbuilt |
      ⟨chunks, inv, counted⟩
  · have empty : (getUsedMemSize seg s.heap overhead).1 = s.heap.usedBytes := by
      have first : s.heap.firstAddr = 0 := unbuilt.first
      have used : s.heap.usedBytes = 0 := unbuilt.used
      rw [getUsedMemSize, first, used]
      cases seg.memSegSize <;> rfl
    exact ⟨[], trivial, unbuilt.first.symm, unbuilt.used, empty, sum empty⟩
  · have used : (getUsedMemSize seg s.heap overhead).1 = s.heap.usedBytes := by
      have scanned := sumUsed_eq inv.heap.linked (fun c member =>
        Nat.ne_of_gt (inv.heap.addr_pos member)) inv.heap.length_le (occupiedBytes_lt inv.heap)
      rw [inv.heap.firstOf_eq] at scanned
      exact scanned.trans counted.symm
    exact ⟨chunks, inv.heap.linked, inv.heap.firstOf_eq, counted, used, sum used⟩

/-! ### A small segment -/

instance : DecidablePred Unwrapped
  | .alloc size => inferInstanceAs (Decidable (size + safetyBuffer < 2 ^ 32))
  | .free _ => .isTrue trivial

instance (seg : Segment) (s : Session) : DecidablePred (FreesOccupied seg s)
  | .alloc _ => .isTrue trivial
  | .free addr => inferInstanceAs
      (Decidable (isValidChunkAddress seg s.heap (wordSub addr headerSize) = true → _ = occupied))

/-- 512 bytes from 0x1000 on; the first payload is at 0x1020. -/
def smallSegment : Segment := ⟨0x1000, 512, by decide, by decide, by decide, by decide⟩

/-- Memory that is cleared. -/
def cleared : Memory := fun _ => 0#8

theorem chunks_tile_segment_reused :
    ∃ chunks, TilesSegment smallSegment (exec (step smallSegment true) (start cleared)
      [.alloc 20, .alloc 100, .free 0x1020, .free 0x1020, .free 0x7777, .alloc 8]) chunks :=
  chunks_tile_segment smallSegment true cleared 20 _ (by decide)

/-- A request that wraps to 15 bytes gets a chunk of 16. -/
theorem wrapped_request_too_short :
    ¬ ∃ chunks, TilesSegment smallSegment
      (exec (step smallSegment false) (start cleared) [.alloc 0xffffffff]) chunks := by
  rintro ⟨chunks, tiles⟩
  have first := tiles.first
  rw [show (exec (step smallSegment false) (start cleared) [.alloc 0xffffffff]).heap.firstAddr =
    0x1014 by decide +kernel] at first
  cases chunks with
  | nil => cases first
  | cons c rest =>
    have address : c.addr = 0x1014 := first
    have stored := tiles.linked.1
    have contents : header (exec (step smallSegment false) (start cleared)
        [.alloc 0xffffffff]).heap.memory 0x1014 = ⟨0, 0x1030, 1, 16⟩ := by decide +kernel
    rw [address, contents] at stored
    have isOccupied : c.occupied = true := by
      have state := congrArg ChunkHeader.state stored
      by_contra isFree
      simp [Chunk.state, isFree, free] at state
    have size : 16 = c.size := congrArg ChunkHeader.size stored
    have enough := tiles.enough c (by simp) isOccupied
    rw [Chunk.payload, address, ← size, show (exec (step smallSegment false) (start cleared)
      [.alloc 0xffffffff]).requested (0x1014 + headerSize) = 0xffffffff by decide +kernel] at enough
    omega

theorem usedBytes_is_sum_freed :
    let s := exec (step smallSegment false) (start cleared)
      [.alloc 20, .alloc 100, .free 0x1020, .free 0x7777, .alloc 8]
    ∃ chunks, Linked s.heap.memory 0 chunks 0 ∧ firstOf chunks 0 = s.heap.firstAddr ∧
      s.heap.usedBytes = occupiedBytes chunks ∧
      (getUsedMemSize smallSegment s.heap 0).1 = s.heap.usedBytes ∧
      (getUsedMemSize smallSegment s.heap 0).2.2.2 = false :=
  usedBytes_is_sum smallSegment false cleared _ (by decide) (by decide +kernel) 0

/-- The second free of a chunk is subtracted again. -/
theorem double_free_subtracts_twice :
    let s := exec (step smallSegment false) (start cleared)
      [.alloc 16, .free 0x1020, .free 0x1020]
    s.heap.usedBytes = 2 ^ 32 - 32 ∧ getUsedMemSize smallSegment s.heap 0 = (0, 0, 512, true) := by
  decide +kernel

end Orcos.Guarantees.SequentialHeap
