import Orcos.Source.SequentialFit.MemManager

/-!
# The heap as a list of chunks

`HeapInv` connects a memory resource with the list of its chunks. An allocation
replaces one free chunk by what `split` makes of it, a free marks one chunk.
-/
namespace Orcos.Source.SequentialFit
open Orcos.Lib.ByteMemory Orcos.Source

variable {m m' : Memory} {c d : Chunk} {xs ys chunks : List Chunk} {a e size prev next fuel : Nat}

/-! ### Scans of the list -/

/-- The chunk can be used for `size` bytes. -/
def Chunk.Fits (c : Chunk) (size : Nat) : Prop := c.occupied = false ∧ size ≤ c.size

theorem fits_iff (c : Chunk) (size : Nat) : c.Fits size ↔ c.state = free ∧ size ≤ c.size := by
  cases h : c.occupied <;> simp [Chunk.Fits, Chunk.state, h, free, occupied]

/-- The search stops at the first chunk that fits. -/
theorem findFitting_spec (size : Nat) (linked : Linked m prev xs 0) (real : ∀ c ∈ xs, c.addr ≠ 0)
    (enough : xs.length ≤ fuel) :
    (findFitting m size fuel (firstOf xs 0) = 0 ∧ ∀ c ∈ xs, ¬ c.Fits size) ∨
      ∃ before c after, xs = before ++ c :: after ∧ c.Fits size ∧
        (∀ d ∈ before, ¬ d.Fits size) ∧ findFitting m size fuel (firstOf xs 0) = c.addr := by
  induction xs generalizing prev fuel with
  | nil => cases fuel <;> exact .inl ⟨rfl, by simp⟩
  | cons c xs ih =>
    obtain ⟨fuel, rfl⟩ : ∃ k, fuel = k + 1 := ⟨fuel - 1, by simp at enough; omega⟩
    have address : c.addr ≠ 0 := real c (by simp)
    have state : chunkState m c.addr = c.state := congrArg ChunkHeader.state linked.1
    have stored : chunkSize m c.addr = c.size := congrArg ChunkHeader.size linked.1
    have onward : nextChunk m c.addr = firstOf xs 0 := congrArg ChunkHeader.nextChunk linked.1
    have start : firstOf (c :: xs) 0 = c.addr := rfl
    rw [start, findFitting, if_neg address, state, stored]
    by_cases fits : c.Fits size
    · rw [if_pos ((fits_iff c size).mp fits)]
      exact .inr ⟨[], c, xs, rfl, fits, by simp, rfl⟩
    · rw [if_neg (mt (fits_iff c size).mpr fits), onward]
      rcases ih linked.2 (fun d later => real d (by simp [later])) (by simpa using enough) with
        ⟨failed, none⟩ | ⟨before, d, after, split, fitting, none, found⟩
      · exact .inl ⟨failed, List.forall_mem_cons.mpr ⟨fits, none⟩⟩
      · exact .inr ⟨c :: before, d, after, by rw [split]; rfl, fitting,
          List.forall_mem_cons.mpr ⟨fits, none⟩, found⟩

/-- The validity scan accepts chunks of the list only. -/
theorem scanFor_spec {chunk : Nat} (linked : Linked m prev xs 0)
    (accepted : scanFor m chunk fuel (firstOf xs 0) = true) :
    ∃ before c after, xs = before ++ c :: after ∧ c.addr = chunk := by
  induction xs generalizing prev fuel with
  | nil => cases fuel <;> simp [firstOf, scanFor] at accepted
  | cons c xs ih =>
    cases fuel with
    | zero => simp [scanFor] at accepted
    | succ fuel =>
      have onward : nextChunk m c.addr = firstOf xs 0 := congrArg ChunkHeader.nextChunk linked.1
      have start : firstOf (c :: xs) 0 = c.addr := rfl
      rw [start, scanFor, onward] at accepted
      by_cases here : chunk = c.addr
      · exact ⟨[], c, xs, rfl, here.symm⟩
      · rw [if_neg here] at accepted
        split at accepted
        · cases accepted
        · split at accepted
          · cases accepted
          · obtain ⟨before, d, after, rfl, same⟩ := ih linked.2 accepted
            exact ⟨c :: before, d, after, rfl, same⟩

/-! ### Payloads -/

/-- Bytes written into a payload leave the list alone. -/
theorem ChunkAt.payload_written (here : ChunkAt m a xs c ys e)
    (changed : ChangedIn m m' c.payload c.next) : Linked m' 0 (xs ++ c :: ys) 0 := by
  refine here.linked.congr fun d member => header_of_changedIn changed ?_
  rw [Chunk.payload]
  rcases List.mem_append.mp member with left | right
  · have := here.before left
    rw [Chunk.next] at this
    omega
  · rcases List.mem_cons.mp right with rfl | later
    · exact .inl (Nat.le_refl _)
    · exact .inr (here.behind later)

theorem writeSafetyChars_changedIn (m : Memory) (a : Nat) :
    ChangedIn m (writeSafetyChars m a) a (a + safetyBuffer) := by
  intro x apart
  simp only [safetyBuffer] at apart
  simp only [writeSafetyChars, safetyBuffer, List.range, List.range.loop, List.foldl]
  repeat rw [write32_changedIn _ _ _ x (by omega)]

/-- `split` fills the place of the chunk. -/
theorem tiled_taken (tiled : Tiled a (xs ++ c :: ys) e) (size : Nat) :
    Tiled a (xs ++ (c.taken size ++ ys)) e := by
  obtain ⟨b, front, own, rest⟩ := tiled_append.mp tiled
  refine tiled_append.mpr ⟨b, front, ?_⟩
  by_cases splits : c.Splits size
  · have fits : roundUp size + headerSize ≤ c.size := by
      simp only [Chunk.Splits, minimumPayload, headerSize] at *
      omega
    have ends : (⟨c.addr + headerSize + roundUp size, c.size - roundUp size - headerSize, false⟩ :
        Chunk).next = c.next := by
      simp only [Chunk.next]
      omega
    rw [Chunk.taken, if_pos splits]
    refine ⟨own, rfl, ?_⟩
    rw [ends]
    exact rest
  · rw [Chunk.taken, if_neg splits]
    exact ⟨own, rest⟩

theorem tiled_marked (tiled : Tiled a (xs ++ c :: ys) e) (b : Bool) :
    Tiled a (xs ++ { c with occupied := b } :: ys) e := by
  obtain ⟨mid, front, own, rest⟩ := tiled_append.mp tiled
  exact tiled_append.mpr ⟨mid, front, own, rest⟩

/-- The first chunk of the two has the address, and the size granted. -/
theorem taken_eq (c : Chunk) (size : Nat) :
    ∃ more, c.taken size = ⟨c.addr, c.granted size, true⟩ :: more ∧ ∀ d ∈ more, d.occupied = false ∧
      d.addr = c.addr + headerSize + roundUp size := by
  by_cases splits : c.Splits size
  · rw [Chunk.taken, if_pos splits, Chunk.granted, if_pos splits]
    exact ⟨_, rfl, by simp⟩
  · rw [Chunk.taken, if_neg splits, Chunk.granted, if_neg splits]
    exact ⟨[], rfl, by simp⟩

theorem granted_ge (enough : size ≤ c.size) : size ≤ c.granted size := by
  rw [Chunk.granted]
  split
  · rw [roundUp]
    omega
  · exact enough

/-! ### The operations -/

variable {seg : Segment} {memLastFit : Bool} {r : MemResource}

/-- Where the first header lies, and where the segment ends. -/
def Segment.base (seg : Segment) : Nat := seg.startAddr + 32 - headerSize
def Segment.top (seg : Segment) : Nat := seg.startAddr + seg.memSegSize

/-- The chunks of a memory resource tile its segment. -/
structure HeapInv (seg : Segment) (r : MemResource) (chunks : List Chunk) : Prop where
  linked : Linked r.memory 0 chunks 0
  tiled : Tiled seg.base chunks seg.top
  isAligned : ∀ c ∈ chunks, c.addr % 4 = 0
  first : r.firstAddr = seg.base
  last : ∃ c ∈ chunks, c.addr = r.lastAllocated
  freed : r.firstFreed = 2 ^ 32 - 1 ∨ ∃ c ∈ chunks, c.addr = r.firstFreed

theorem Segment.base_pos (seg : Segment) : 0 < seg.base := by
  simp only [Segment.base, headerSize]
  omega

namespace HeapInv

variable (inv : HeapInv seg r chunks)

include inv

theorem addr_pos (member : c ∈ chunks) : 0 < c.addr :=
  Nat.lt_of_lt_of_le seg.base_pos (inv.tiled.bounds member).1

theorem at_split (split : chunks = xs ++ c :: ys) :
    ChunkAt r.memory seg.base xs c ys seg.top where
  linked := split ▸ inv.linked
  tiled := split ▸ inv.tiled
  positive := seg.base_pos
  inside := seg.inside

theorem firstOf_eq : firstOf chunks 0 = r.firstAddr := by
  have tiled := inv.tiled
  obtain ⟨c, member, _⟩ := inv.last
  cases chunks with
  | nil => cases member
  | cons c xs =>
    rw [inv.first]
    exact tiled.1

theorem length_le : chunks.length ≤ seg.memSegSize := by
  have tiled := inv.tiled.length_le
  simp only [Segment.base, Segment.top, headerSize] at tiled
  omega

/-- The search begins at a chunk of the list. -/
theorem lookupStart_mem (memLastFit : Bool) :
    ∃ before rest, chunks = before ++ rest ∧ firstOf rest 0 = lookupStart memLastFit r := by
  have at_mem (addr : Nat) (listed : ∃ c ∈ chunks, c.addr = addr) :
      ∃ before rest, chunks = before ++ rest ∧ firstOf rest 0 = addr := by
    obtain ⟨c, member, rfl⟩ := listed
    obtain ⟨before, after, split⟩ := List.append_of_mem member
    exact ⟨before, c :: after, split, rfl⟩
  have last : r.lastAllocated < 2 ^ 32 := by
    obtain ⟨c, member, same⟩ := inv.last
    have := (inv.tiled.bounds member).2
    have := seg.inside
    simp only [Chunk.next, Segment.top] at *
    omega
  cases memLastFit with
  | false => exact ⟨[], chunks, rfl, inv.firstOf_eq⟩
  | true =>
    rw [lookupStart, if_pos rfl]
    by_cases earlier : r.firstFreed < r.lastAllocated
    · rw [if_pos earlier]
      rcases inv.freed with none | listed
      · omega
      · exact at_mem _ listed
    · rw [if_neg earlier]
      exact at_mem _ inv.last

end HeapInv

theorem buildFirstChunk_inv (seg : Segment) (unused : r.lastAllocated = 0) :
    HeapInv seg (buildFirstChunk seg r) [⟨seg.base, seg.memSegSize - 32, false⟩] ∧
      (buildFirstChunk seg r).usedBytes = r.usedBytes := by
  have inside := seg.inside
  have large := seg.large
  have isAligned := seg.isAligned
  have startChunk : wordSub (wordAdd seg.startAddr 32) headerSize = seg.base := by
    rw [wordAdd_eq (by omega), wordSub_eq (by simp only [headerSize]; omega) (by omega)]
    rfl
  have size : wordSub seg.memSegSize 32 = seg.memSegSize - 32 := wordSub_eq large (by omega)
  rw [buildFirstChunk, if_pos unused]
  simp only [startChunk, size]
  refine ⟨⟨⟨?_, trivial⟩, ⟨rfl, ?_⟩, ?_, rfl, ⟨_, List.mem_singleton_self _, rfl⟩, .inl rfl⟩,
    trivial⟩
  · rw [header_setSize seg.small, header_setPrev (by decide), header_setNext (by decide),
      header_setState _ _ (by decide)]
    rfl
  · simp only [Tiled, Chunk.next, Segment.base, Segment.top, headerSize]
    omega
  · simp only [List.mem_singleton, forall_eq, Segment.base, headerSize]
    omega

/-- Building the first chunk twice is building it once. -/
theorem alloc_buildFirstChunk (memLastFit : Bool) (r : MemResource) (size : Nat) :
    alloc seg memLastFit (buildFirstChunk seg r) size = alloc seg memLastFit r size := by
  by_cases unused : r.lastAllocated = 0
  · obtain ⟨inv, _⟩ := buildFirstChunk_inv seg unused
    obtain ⟨c, member, last⟩ := inv.last
    have used : (buildFirstChunk seg r).lastAllocated ≠ 0 := by
      rw [← last]
      exact Nat.ne_of_gt (inv.addr_pos member)
    rw [alloc, alloc, show buildFirstChunk seg (buildFirstChunk seg r) = buildFirstChunk seg r from
      if_neg used]
  · rw [buildFirstChunk, if_neg unused]

/-- The addresses of a list are kept when one chunk is split. -/
theorem addr_taken {addr : Nat} (listed : ∃ d ∈ xs ++ c :: ys, d.addr = addr) (size : Nat) :
    ∃ d ∈ xs ++ (c.taken size ++ ys), d.addr = addr := by
  obtain ⟨more, taken, _⟩ := taken_eq c size
  obtain ⟨d, member, rfl⟩ := listed
  rw [taken]
  rcases List.mem_append.mp member with left | right
  · exact ⟨d, by simp [left], rfl⟩
  · rcases List.mem_cons.mp right with rfl | later
    · exact ⟨⟨d.addr, d.granted size, true⟩, by simp, rfl⟩
    · exact ⟨d, by simp [later], rfl⟩

/-- An allocation whose search fails. -/
theorem alloc_failed (used : r.lastAllocated ≠ 0) (failed : findFitting r.memory
    (wordAdd size safetyBuffer) seg.memSegSize (lookupStart memLastFit r) = 0) :
    alloc seg memLastFit r size = (r, 0) := by
  have build : buildFirstChunk seg r = r := if_neg used
  rw [alloc, build, getFittingChunk, failed]
  rfl

/-- An allocation whose search ends at a chunk, in terms of `split`. -/
theorem alloc_found {chunk granted : Nat} {r' : MemResource} (used : r.lastAllocated ≠ 0)
    (found : findFitting r.memory (wordAdd size safetyBuffer) seg.memSegSize
      (lookupStart memLastFit r) = chunk) (real : chunk ≠ 0)
    (taken : split { r with memory := setState r.memory chunk occupied } chunk
      (wordAdd size safetyBuffer) = (r', granted)) :
    alloc seg memLastFit r size = ({ r' with
      memory := writeSafetyChars (fill r'.memory (wordAdd chunk headerSize) granted 0#8)
        (wordSub (wordAdd (wordAdd chunk headerSize) granted) safetyBuffer)
      lastAllocated := chunk }, wordAdd chunk headerSize) := by
  have build : buildFirstChunk seg r = r := if_neg used
  rw [alloc, build, getFittingChunk, found, if_neg real]
  rw [if_pos real, taken]

theorem granted_le (c : Chunk) (size : Nat) : c.granted size ≤ c.size := by
  rw [Chunk.granted]
  split
  · rename_i splits
    rw [Chunk.Splits] at splits
    omega
  · exact Nat.le_refl _

/-- What is written into the payload granted stays inside it. -/
theorem payload_filled (here : ChunkAt m a xs c ys e) (enough : size ≤ c.size)
    (buffer : safetyBuffer ≤ size) : ChangedIn m'
      (writeSafetyChars (fill m' c.payload (c.granted size) 0#8)
        (wordSub (wordAdd c.payload (c.granted size)) safetyBuffer))
      c.payload (c.payload + c.granted size) := by
  have least := granted_ge enough
  have most := granted_le c size
  obtain ⟨_, high⟩ := here.bounds
  have inside := here.inside
  simp only [Chunk.next] at high
  have ends : wordAdd c.payload (c.granted size) = c.payload + c.granted size := by
    rw [Chunk.payload]
    exact wordAdd_eq (by omega)
  have begins : wordSub (c.payload + c.granted size) safetyBuffer =
      c.payload + c.granted size - safetyBuffer := by
    rw [Chunk.payload]
    exact wordSub_eq (by omega) (by omega)
  rw [ends, begins]
  exact (fill_changedIn m' _ _ _).trans
    ((writeSafetyChars_changedIn _ _).mono (by omega) (by omega))

/-- The list and the memory after chunk `c` was split and its payload filled. -/
theorem inv_taken (inv : HeapInv seg r (xs ++ c :: ys)) {r' : MemResource}
    (linked : Linked m 0 (xs ++ (c.taken size ++ ys)) 0)
    (changed : ChangedIn m r'.memory c.payload (c.payload + c.granted size))
    (first : r'.firstAddr = r.firstAddr) (freed : r'.firstFreed = r.firstFreed)
    (last : r'.lastAllocated = c.addr) : HeapInv seg r' (xs ++ (c.taken size ++ ys)) := by
  have tiled := tiled_taken inv.tiled size
  refine ⟨?_, tiled, fun d member => ?_, first.trans inv.first, ?_, ?_⟩
  · obtain ⟨more, taken, _⟩ := taken_eq c size
    have here : ChunkAt m seg.base xs ⟨c.addr, c.granted size, true⟩ (more ++ ys) seg.top := by
      rw [taken] at linked tiled
      exact ⟨linked, tiled, seg.base_pos, seg.inside⟩
    rw [taken]
    exact here.payload_written changed
  · have own : c.addr % 4 = 0 := inv.isAligned c (by simp)
    obtain ⟨more, taken, added⟩ := taken_eq c size
    rw [taken] at member
    simp only [List.mem_append, List.mem_cons] at member
    rcases member with left | (rfl | new) | right
    · exact inv.isAligned d (by simp [left])
    · exact own
    · have address := (added d new).2
      simp only [roundUp, headerSize] at address
      omega
    · exact inv.isAligned d (by simp [right])
  · rw [last]
    exact addr_taken ⟨c, by simp, rfl⟩ size
  · rw [freed]
    rcases inv.freed with none | listed
    · exact .inl none
    · exact .inr (addr_taken listed size)

/-- Once the first chunk is built, an allocation fails and changes nothing, or
takes a free chunk that is large enough. -/
theorem alloc_spec (inv : HeapInv seg r chunks) (memLastFit : Bool)
    (unwrapped : size + safetyBuffer < 2 ^ 32) :
    alloc seg memLastFit r size = (r, 0) ∨
      ∃ xs c ys r', chunks = xs ++ c :: ys ∧ c.Fits (size + safetyBuffer) ∧
        alloc seg memLastFit r size = (r', c.payload) ∧
        HeapInv seg r' (xs ++ (c.taken (size + safetyBuffer) ++ ys)) ∧
        r'.usedBytes = wordAdd r.usedBytes (c.granted (size + safetyBuffer)) := by
  have used : r.lastAllocated ≠ 0 := by
    obtain ⟨c, member, last⟩ := inv.last
    rw [← last]
    exact Nat.ne_of_gt (inv.addr_pos member)
  have request : wordAdd size safetyBuffer = size + safetyBuffer := wordAdd_eq unwrapped
  obtain ⟨skipped, rest, cut, start⟩ := inv.lookupStart_mem memLastFit
  have linked : Linked r.memory (lastOf 0 skipped) rest 0 :=
    (linked_append.mp (cut ▸ inv.linked)).2
  have real : ∀ c ∈ rest, c.addr ≠ 0 := fun c member =>
    Nat.ne_of_gt (inv.addr_pos (cut ▸ List.mem_append_right skipped member))
  have enough : rest.length ≤ seg.memSegSize := by
    have := inv.length_le
    rw [cut, List.length_append] at this
    omega
  have search := findFitting_spec (size + safetyBuffer) linked real enough
  rw [start, ← request] at search
  rcases search with ⟨failed, _⟩ | ⟨before, c, after, found, fits, _, address⟩
  · exact .inl (alloc_failed used failed)
  · rw [request] at fits
    have whole : chunks = (skipped ++ before) ++ c :: after := by
      rw [cut, found, List.append_assoc]
    subst whole
    have here := inv.at_split rfl
    have isAligned := inv.isAligned c (by simp)
    -- the search has marked the chunk, which `split` does not look at
    have marked : ChunkAt (setState r.memory c.addr occupied) seg.base (skipped ++ before)
        { c with occupied := true } after seg.top :=
      ⟨here.setState true, tiled_marked here.tiled true, seg.base_pos, seg.inside⟩
    obtain ⟨m', overhead, taken, result⟩ := split_spec
      (r := { r with memory := setState r.memory c.addr occupied }) marked isAligned fits.2
    have requested : split { r with memory := setState r.memory c.addr occupied } c.addr
        (wordAdd size safetyBuffer) = ({ r with
          memory := m'
          usedBytes := wordAdd r.usedBytes (c.granted (size + safetyBuffer))
          overheadBytes := overhead }, c.granted (size + safetyBuffer)) := by
      rw [request]
      exact taken
    obtain ⟨payload, -, -⟩ := split_addresses here isAligned fits.2
    have allocated := alloc_found used address (Nat.ne_of_gt (inv.addr_pos (by simp))) requested
    rw [payload] at allocated
    refine .inr ⟨_, c, after, _, rfl, fits, allocated, ?_, rfl⟩
    exact inv_taken inv result
      (payload_filled here fits.2 (Nat.le_add_left _ _)) rfl rfl rfl

/-- The addresses of a list are kept when one chunk is marked. -/
theorem addr_marked {addr : Nat} (listed : ∃ d ∈ xs ++ c :: ys, d.addr = addr) (b : Bool) :
    ∃ d ∈ xs ++ { c with occupied := b } :: ys, d.addr = addr := by
  obtain ⟨d, member, rfl⟩ := listed
  rcases List.mem_append.mp member with left | right
  · exact ⟨d, by simp [left], rfl⟩
  · rcases List.mem_cons.mp right with rfl | later
    · exact ⟨{ d with occupied := b }, by simp, rfl⟩
    · exact ⟨d, by simp [later], rfl⟩

theorem noteFreed_inv (inv : HeapInv seg r chunks) (memLastFit : Bool) (member : c ∈ chunks) :
    HeapInv seg (noteFreed memLastFit r c.addr) chunks ∧
      (noteFreed memLastFit r c.addr).usedBytes = r.usedBytes := by
  have head : ∃ d ∈ chunks, d.addr = r.firstAddr := by
    have first := inv.firstOf_eq
    cases chunks with
    | nil => cases member
    | cons d rest => exact ⟨d, by simp, first⟩
  cases memLastFit with
  | false => exact ⟨inv, rfl⟩
  | true =>
    -- the two cursors are moved to chunks of the list
    have moved (last freed : Nat) (lastListed : ∃ d ∈ chunks, d.addr = last)
        (freedListed : freed = 2 ^ 32 - 1 ∨ ∃ d ∈ chunks, d.addr = freed) :
        HeapInv seg { r with lastAllocated := last, firstFreed := freed } chunks :=
      ⟨inv.linked, inv.tiled, inv.isAligned, inv.first, lastListed, freedListed⟩
    simp only [noteFreed, if_true]
    split <;> split
    · exact ⟨moved _ _ head (.inr ⟨c, member, rfl⟩), rfl⟩
    · exact ⟨moved _ _ head inv.freed, rfl⟩
    · exact ⟨moved _ _ inv.last (.inr ⟨c, member, rfl⟩), rfl⟩
    · exact ⟨inv, rfl⟩

theorem merge_spec (inv : HeapInv seg r (xs ++ c :: ys)) :
    HeapInv seg (merge r c.addr) (xs ++ { c with occupied := false } :: ys) ∧
      (merge r c.addr).usedBytes = wordSub r.usedBytes c.size := by
  have here := inv.at_split rfl
  have own := header_setState r.memory c.addr (show free < 2 by decide)
  have size : chunkSize (setState r.memory c.addr free) c.addr = c.size := by
    rw [here.header_eq] at own
    exact congrArg ChunkHeader.size own
  refine ⟨⟨here.setState false, tiled_marked inv.tiled false, fun d member => ?_, inv.first,
    addr_marked inv.last false, ?_⟩, by rw [merge, size]⟩
  · simp only [List.mem_append, List.mem_cons] at member
    rcases member with left | rfl | right
    · exact inv.isAligned d (by simp [left])
    · exact inv.isAligned c (by simp)
    · exact inv.isAligned d (by simp [right])
  · rcases inv.freed with none | listed
    · exact .inl none
    · exact .inr (addr_marked listed false)

/-- A free is rejected, or marks a chunk of the list. -/
theorem free_spec (inv : HeapInv seg r chunks) (memLastFit : Bool) (addr : Nat) :
    freeChunk seg memLastFit r addr = (r, cNoValidChunkAddress) ∨
      ∃ xs c ys r', chunks = xs ++ c :: ys ∧
        isValidChunkAddress seg r (wordSub addr headerSize) = true ∧
        wordSub addr headerSize = c.addr ∧ freeChunk seg memLastFit r addr = (r', cOk) ∧
        HeapInv seg r' (xs ++ { c with occupied := false } :: ys) ∧
        r'.usedBytes = wordSub r.usedBytes c.size := by
  rw [freeChunk]
  by_cases valid : isValidChunkAddress seg r (wordSub addr headerSize) = true
  · rw [if_pos valid]
    have scanned := valid
    rw [isValidChunkAddress, ← inv.firstOf_eq, Bool.and_eq_true] at scanned
    obtain ⟨xs, c, ys, rfl, same⟩ := scanFor_spec inv.linked scanned.2
    obtain ⟨noted, used⟩ := noteFreed_inv inv memLastFit (c := c) (by simp)
    obtain ⟨merged, less⟩ := merge_spec noted
    rw [used] at less
    exact .inr ⟨xs, c, ys, _, rfl, valid, same.symm, by rw [same], merged, less⟩
  · rw [if_neg valid]
    exact .inl rfl

end Orcos.Source.SequentialFit
