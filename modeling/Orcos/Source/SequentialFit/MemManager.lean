import Mathlib.Data.List.Basic
import Orcos.Lib.ByteMemory
import Orcos.Source.Alignment

/-!
# The sequential-fit memory manager

Source: src/source/mem/SequentialFitMemManager.cc and .hh, and
src/source/mem/MemResource.hh.

The chunk headers lie in the memory that is managed: 12 packed bytes in front of
each payload. Numbers are unsigned 32-bit words; the null pointer is 0. Left out
are the lock, the log messages, the cache-inhibited segment, and `aligned` and
`align_val`, which only select a message and an assertion.
-/
namespace Orcos.Source.SequentialFit
open Orcos.Lib.ByteMemory

/-- The managed segment: word aligned, of a size whose payload fits a 31-bit
field, and not at the very end of the address space. -/
structure Segment where
  startAddr : Nat
  memSegSize : Nat
  isAligned : startAddr % 4 = 0
  large : 32 ≤ memSegSize
  small : memSegSize - 32 < 2 ^ 31
  inside : startAddr + memSegSize + 16 ≤ 2 ^ 32

/-- `MemResource`, without the fields that never change, and the memory. -/
structure MemResource where
  memory : Memory
  usedBytes : Nat
  overheadBytes : Nat
  lastAllocated : Nat
  firstFreed : Nat
  firstAddr : Nat

def free : Nat := 0
def occupied : Nat := 1

def safetyBuffer : Nat := 16
def safetyChar : Nat := 0x2ffe9ab1
def minimumPayload : Nat := 0x20
def alignVal : Nat := 4

/-- `sizeof(Chunk_Header)`. -/
def headerSize : Nat := 12

/-! ### `Chunk_Header`: two pointers, one bit and 31 bits -/

def nextChunk (m : Memory) (chunk : Nat) : Nat := read32 m (chunk + 4)
def chunkState (m : Memory) (chunk : Nat) : Nat := read32 m (chunk + 8) % 2
def chunkSize (m : Memory) (chunk : Nat) : Nat := read32 m (chunk + 8) / 2

structure ChunkHeader where
  prevChunk : Nat
  nextChunk : Nat
  state : Nat
  size : Nat
  deriving DecidableEq

/-- The header at an address. -/
def header (m : Memory) (chunk : Nat) : ChunkHeader :=
  ⟨read32 m chunk, nextChunk m chunk, chunkState m chunk, chunkSize m chunk⟩

def setPrev (m : Memory) (chunk value : Nat) : Memory := write32 m chunk value
def setNext (m : Memory) (chunk value : Nat) : Memory := write32 m (chunk + 4) value

def setState (m : Memory) (chunk value : Nat) : Memory :=
  write32 m (chunk + 8) (chunkSize m chunk * 2 + value)

def setSize (m : Memory) (chunk value : Nat) : Memory :=
  write32 m (chunk + 8) (value % 2 ^ 31 * 2 + chunkState m chunk)

/-- The part of `split` that makes a free chunk behind `chunk`, before `chunk`
itself is changed. -/
def insertHeader (m : Memory) (chunk next_ch size : Nat) : Memory :=
  let m := if nextChunk m chunk ≠ 0 then setPrev m (nextChunk m chunk) next_ch else m
  let m := setNext m next_ch (nextChunk m chunk)
  let m := setPrev m next_ch chunk
  let m := setState m next_ch free
  setSize m next_ch size

/-- `split`; the answer is the new value of its reference argument `size`. -/
def split (r : MemResource) (chunk size : Nat) : MemResource × Nat :=
  let m := r.memory
  let currentPayloadAddr := wordAdd chunk headerSize
  let nextPayloadAddr := alignCeil (wordAdd (wordAdd currentPayloadAddr size) headerSize) alignVal
  let endPtrAddr := wordAdd currentPayloadAddr (chunkSize m chunk)
  if nextPayloadAddr < endPtrAddr ∧ minimumPayload + headerSize < endPtrAddr - nextPayloadAddr then
    let next_ch := wordSub nextPayloadAddr headerSize
    let m := insertHeader m chunk next_ch (endPtrAddr - nextPayloadAddr)
    let m := setNext m chunk next_ch
    let m := setState m chunk occupied
    let m := setSize m chunk (wordSub next_ch currentPayloadAddr)
    ({ r with
        memory := m
        usedBytes := wordAdd r.usedBytes (chunkSize m chunk)
        overheadBytes := wordAdd r.overheadBytes headerSize }, chunkSize m chunk)
  else
    let m := setState m chunk occupied
    ({ r with memory := m, usedBytes := wordAdd r.usedBytes (chunkSize m chunk) },
      chunkSize m chunk)

/-- `merge`: it returns before any neighbour is looked at. -/
def merge (r : MemResource) (chunk : Nat) : MemResource :=
  let m := setState r.memory chunk free
  { r with memory := m, usedBytes := wordSub r.usedBytes (chunkSize m chunk) }

/-- The scan of `isValidChunkAddress`, over at most `fuel` chunks. -/
def scanFor (m : Memory) (chunk : Nat) : Nat → Nat → Bool
  | 0, _ => false
  | fuel + 1, current =>
    if current = 0 then false
    else if chunk = current then true
    else if chunk < current then false
    else scanFor m chunk fuel (nextChunk m current)

/-- The loop of `getFittingChunk`, over at most `fuel` chunks. -/
def findFitting (m : Memory) (size : Nat) : Nat → Nat → Nat
  | 0, _ => 0
  | fuel + 1, current =>
    if current = 0 then 0
    else if chunkState m current = free ∧ size ≤ chunkSize m current then current
    else findFitting m size fuel (nextChunk m current)

/-- `getFittingChunk`, which also marks the chunk it found. -/
def getFittingChunk (m : Memory) (size fuel current : Nat) : Memory × Nat :=
  let chunk := findFitting m size fuel current
  if chunk = 0 then (m, 0) else (setState m chunk occupied, chunk)

/-- `SAFETY_CHAR` in the four words from `a` on. -/
def writeSafetyChars (m : Memory) (a : Nat) : Memory :=
  (List.range (safetyBuffer / 4)).foldl (fun m i => write32 m (a + i * 4) safetyChar) m

variable (seg : Segment) (memLastFit : Bool)

/-- `containsAddr`. -/
def containsAddr (addr : Nat) : Bool :=
  seg.startAddr ≤ addr ∧ addr < wordAdd seg.startAddr seg.memSegSize

/-- A segment no chunk was built in yet. -/
def fresh (memory : Memory) : MemResource := ⟨memory, 0, 0, 0, 0, 0⟩

/-- The first chunk, built by the first allocation. -/
def buildFirstChunk (r : MemResource) : MemResource :=
  if r.lastAllocated = 0 then
    let startChunk := wordSub (wordAdd seg.startAddr 32) headerSize
    let m := setState r.memory startChunk free
    let m := setNext m startChunk 0
    let m := setPrev m startChunk 0
    let m := setSize m startChunk (wordSub seg.memSegSize 32)
    { r with
      memory := m
      lastAllocated := startChunk
      firstFreed := 2 ^ 32 - 1
      firstAddr := startChunk }
  else r

/-- Where the search begins. -/
def lookupStart (r : MemResource) : Nat :=
  if memLastFit then if r.firstFreed < r.lastAllocated then r.firstFreed else r.lastAllocated
  else r.firstAddr

/-- `alloc`; the answer is the payload address, zero on failure. -/
def alloc (r : MemResource) (size : Nat) : MemResource × Nat :=
  let r := buildFirstChunk seg r
  let size := wordAdd size safetyBuffer
  let found := getFittingChunk r.memory size seg.memSegSize (lookupStart memLastFit r)
  let r := { r with memory := found.1 }
  let chunk := found.2
  let addr := wordAdd chunk headerSize
  if chunk ≠ 0 then
    let taken := split r chunk size
    let r := taken.1
    let m := fill r.memory addr taken.2 0#8
    let m := writeSafetyChars m (wordSub (wordAdd addr taken.2) safetyBuffer)
    ({ r with memory := m, lastAllocated := chunk }, addr)
  else (r, 0)

/-- `isValidChunkAddress`. -/
def isValidChunkAddress (r : MemResource) (chunk : Nat) : Bool :=
  containsAddr seg chunk && scanFor r.memory chunk seg.memSegSize r.firstAddr

/-- What `free` notes under `MEM_LAST_FIT` for the next search. -/
def noteFreed (r : MemResource) (chunk : Nat) : MemResource :=
  if memLastFit then
    let r := if chunk = r.lastAllocated then { r with lastAllocated := r.firstAddr } else r
    if chunk < r.firstFreed then { r with firstFreed := chunk } else r
  else r

/-- `free`. -/
def freeChunk (r : MemResource) (addr : Nat) : MemResource × ErrorT :=
  let chunk := wordSub addr headerSize
  if isValidChunkAddress seg r chunk then (merge (noteFreed memLastFit r chunk) chunk, cOk)
  else (r, cNoValidChunkAddress)

/-- The scan of `getUsedMemSize`: the bytes and the headers of occupied chunks. -/
def sumUsed (m : Memory) : Nat → Nat → Nat × Nat
  | 0, _ => (0, 0)
  | fuel + 1, current =>
    if current = 0 then (0, 0)
    else
      let (used, overhead) := sumUsed m fuel (nextChunk m current)
      if chunkState m current = occupied then
        (wordAdd (chunkSize m current) used, wordAdd headerSize overhead)
      else (used, overhead)

/-- `getUsedMemSize`: the used bytes, `u_overhead`, `u_free_mem`, and whether the
used bytes differ from the counter, which is logged as an error. -/
def getUsedMemSize (r : MemResource) (overhead : Nat) : Nat × Nat × Nat × Bool :=
  let (used, headers) := sumUsed r.memory seg.memSegSize r.firstAddr
  (used, wordAdd overhead headers, wordSub seg.memSegSize used, r.usedBytes ≠ used)

end Orcos.Source.SequentialFit

/-! ## The chunk list

The memory holds a doubly linked list of headers. Its abstract content is a list
of chunks; the chunks tile the segment when each begins where the one before it
ends.
-/
namespace Orcos.Source.SequentialFit
open Orcos.Lib.ByteMemory

variable {m m' : Memory} {chunk value : Nat}

/-! ### One header -/

theorem header_congr (agree : AgreeOn m m' chunk headerSize) :
    header m' chunk = header m chunk := by
  simp only [headerSize] at agree
  simp only [header, nextChunk, chunkState, chunkSize, agree.read32 (Nat.le_refl chunk) (by omega),
    agree.read32 (b := chunk + 4) (by omega) (by omega),
    agree.read32 (b := chunk + 8) (by omega) (by omega)]

theorem chunkSize_lt (m : Memory) (chunk : Nat) : chunkSize m chunk < 2 ^ 31 := by
  have := read32_lt m (chunk + 8)
  rw [chunkSize]
  omega

theorem chunkState_lt (m : Memory) (chunk : Nat) : chunkState m chunk < 2 :=
  Nat.mod_lt _ (by decide)

theorem header_setPrev (word : value < 2 ^ 32) :
    header (setPrev m chunk value) chunk = { header m chunk with prevChunk := value } := by
  simp only [header, setPrev, nextChunk, chunkState, chunkSize, read32_write32 m chunk word,
    read32_write32_of_apart (m := m) (v := value) (a := chunk) (b := chunk + 4) (by omega),
    read32_write32_of_apart (m := m) (v := value) (a := chunk) (b := chunk + 8) (by omega)]

theorem header_setNext (word : value < 2 ^ 32) :
    header (setNext m chunk value) chunk = { header m chunk with nextChunk := value } := by
  simp only [header, setNext, nextChunk, chunkState, chunkSize, read32_write32 m (chunk + 4) word,
    read32_write32_of_apart (m := m) (v := value) (a := chunk + 4) (b := chunk) (by omega),
    read32_write32_of_apart (m := m) (v := value) (a := chunk + 4) (b := chunk + 8) (by omega)]

/-- The bit and the 31 bits of the last word. -/
theorem header_writeFields {size bit : Nat} (small : size < 2 ^ 31) (isBit : bit < 2) :
    header (write32 m (chunk + 8) (size * 2 + bit)) chunk =
      { header m chunk with state := bit, size := size } := by
  have word : read32 (write32 m (chunk + 8) (size * 2 + bit)) (chunk + 8) = size * 2 + bit :=
    read32_write32 m (chunk + 8) (by omega)
  have fields : (size * 2 + bit) % 2 = bit ∧ (size * 2 + bit) / 2 = size := by omega
  simp only [header, nextChunk, chunkState, chunkSize, word, fields,
    read32_write32_of_apart (m := m) (a := chunk + 8) (b := chunk) (by omega),
    read32_write32_of_apart (m := m) (a := chunk + 8) (b := chunk + 4) (by omega)]

theorem header_setState (m : Memory) (chunk : Nat) (isBit : value < 2) :
    header (setState m chunk value) chunk = { header m chunk with state := value } :=
  header_writeFields (chunkSize_lt m chunk) isBit

theorem header_setSize (small : value < 2 ^ 31) :
    header (setSize m chunk value) chunk = { header m chunk with size := value } := by
  rw [setSize, Nat.mod_eq_of_lt small]
  exact header_writeFields small (chunkState_lt m chunk)

/-- A write elsewhere leaves a header alone. -/
theorem header_of_changedIn {lo hi : Nat} (changed : ChangedIn m m' lo hi)
    (apart : chunk + headerSize ≤ lo ∨ hi ≤ chunk) : header m' chunk = header m chunk :=
  header_congr (changed.agreeOn apart)

section Apart

variable {other : Nat} (apart : other + headerSize ≤ chunk ∨ chunk + headerSize ≤ other)

include apart

theorem header_setPrev_of_apart : header (setPrev m chunk value) other = header m other :=
  header_of_changedIn (write32_changedIn m chunk value) (by simp only [headerSize] at *; omega)

theorem header_setNext_of_apart : header (setNext m chunk value) other = header m other :=
  header_of_changedIn (write32_changedIn m (chunk + 4) value)
    (by simp only [headerSize] at *; omega)

theorem header_setState_of_apart : header (setState m chunk value) other = header m other :=
  header_of_changedIn (write32_changedIn m (chunk + 8) _) (by simp only [headerSize] at *; omega)

theorem header_setSize_of_apart : header (setSize m chunk value) other = header m other :=
  header_of_changedIn (write32_changedIn m (chunk + 8) _) (by simp only [headerSize] at *; omega)

end Apart

/-! ### The list of chunks -/

/-- A chunk: the address of its header, its payload size, and its state. -/
structure Chunk where
  addr : Nat
  size : Nat
  occupied : Bool
  deriving DecidableEq

namespace Chunk

/-- Where the payload begins. -/
def payload (c : Chunk) : Nat := c.addr + headerSize

/-- Where the chunk ends. -/
def next (c : Chunk) : Nat := c.addr + headerSize + c.size

def state (c : Chunk) : Nat := if c.occupied then SequentialFit.occupied else free

end Chunk

variable {c d : Chunk} {xs ys chunks : List Chunk} {a b e prev next : Nat}

/-- The chunks follow each other without a gap from `a` to `e`. -/
def Tiled : Nat → List Chunk → Nat → Prop
  | a, [], e => a = e
  | a, c :: xs, e => c.addr = a ∧ Tiled c.next xs e

/-- The address of the first chunk, or `next` behind the list. -/
def firstOf (xs : List Chunk) (next : Nat) : Nat := (xs.head?.map Chunk.addr).getD next

/-- The address of the last chunk, or `prev` before the list. -/
def lastOf (prev : Nat) (xs : List Chunk) : Nat := (xs.getLast?.map Chunk.addr).getD prev

/-- The memory holds the headers of the chunks, linked both ways. -/
def Linked (m : Memory) : Nat → List Chunk → Nat → Prop
  | _, [], _ => True
  | prev, c :: xs, next =>
    header m c.addr = ⟨prev, firstOf xs next, c.state, c.size⟩ ∧ Linked m c.addr xs next

theorem tiled_append : Tiled a (xs ++ ys) e ↔ ∃ b, Tiled a xs b ∧ Tiled b ys e := by
  induction xs generalizing a with
  | nil => simp [Tiled]
  | cons c xs ih => simp [Tiled, ih, and_assoc]

theorem Tiled.le (tiled : Tiled a xs e) : a ≤ e := by
  induction xs generalizing a with
  | nil => exact Nat.le_of_eq tiled
  | cons c xs ih =>
    have := ih tiled.2
    have := tiled.1
    simp only [Chunk.next] at *
    omega

theorem Tiled.bounds (tiled : Tiled a xs e) (member : c ∈ xs) : a ≤ c.addr ∧ c.next ≤ e := by
  induction xs generalizing a with
  | nil => cases member
  | cons d xs ih =>
    rcases List.mem_cons.mp member with rfl | later
    · exact ⟨Nat.le_of_eq tiled.1.symm, tiled.2.le⟩
    · have inside := ih tiled.2 later
      have := tiled.1
      simp only [Chunk.next] at *
      omega

theorem Tiled.length_le (tiled : Tiled a xs e) : headerSize * xs.length ≤ e - a := by
  induction xs generalizing a with
  | nil => exact Nat.zero_le _
  | cons c xs ih =>
    have rest := ih tiled.2
    have := tiled.1
    have := tiled.2.le
    simp only [Chunk.next, headerSize, List.length_cons] at *
    omega

/-- Chunks of a tiling do not overlap, headers included. -/
theorem Tiled.pairwise (tiled : Tiled a xs e) :
    xs.Pairwise fun c d => c.next ≤ d.addr := by
  induction xs generalizing a with
  | nil => exact .nil
  | cons c xs ih =>
    exact List.pairwise_cons.mpr ⟨fun d later => (tiled.2.bounds later).1, ih tiled.2⟩

theorem linked_append : Linked m prev (xs ++ ys) next ↔
    Linked m prev xs (firstOf ys next) ∧ Linked m (lastOf prev xs) ys next := by
  induction xs generalizing prev with
  | nil => simp [Linked, lastOf]
  | cons c xs ih =>
    have first : firstOf (xs ++ ys) next = firstOf xs (firstOf ys next) := by
      cases xs <;> rfl
    have last : lastOf prev (c :: xs) = lastOf c.addr xs := by
      cases xs <;> simp [lastOf, List.getLast?_cons]
    simp only [List.cons_append, Linked, first, last, ih, and_assoc]

/-- The headers of a list are kept by a memory that agrees on them. -/
theorem Linked.congr (linked : Linked m prev xs next)
    (same : ∀ c ∈ xs, header m' c.addr = header m c.addr) : Linked m' prev xs next := by
  induction xs generalizing prev with
  | nil => trivial
  | cons c xs ih =>
    exact ⟨(same c (by simp)).trans linked.1, ih linked.2 fun d later => same d (by simp [later])⟩

end Orcos.Source.SequentialFit

/-! ## What the operations do to the chunk list

The search takes the first free chunk that is large enough; `split` replaces it
by an occupied chunk and, if enough is left over, a free one; `merge` marks a
chunk free.
-/
namespace Orcos.Source.SequentialFit
open Orcos.Lib.ByteMemory

variable {m m' : Memory} {c d : Chunk} {xs ys chunks : List Chunk} {a e size prev next : Nat}

/-! ### The new header -/

/-- The four fields of a header, written one after the other. -/
theorem header_written {chunk : Nat} (prevWord : prev < 2 ^ 32) (nextWord : next < 2 ^ 32)
    (small : size < 2 ^ 31) :
    header (setSize (setState (setPrev (setNext m chunk next) chunk prev) chunk free) chunk size)
      chunk = ⟨prev, next, free, size⟩ := by
  rw [header_setSize small, header_setState _ _ (by decide), header_setPrev prevWord,
    header_setNext nextWord]

theorem header_written_of_apart {chunk other : Nat}
    (apart : other + headerSize ≤ chunk ∨ chunk + headerSize ≤ other) :
    header (setSize (setState (setPrev (setNext m chunk next) chunk prev) chunk free) chunk size)
      other = header m other := by
  rw [header_setSize_of_apart apart, header_setState_of_apart apart, header_setPrev_of_apart apart,
    header_setNext_of_apart apart]

/-- What `split` writes into the chunk itself. -/
theorem header_shortened {chunk : Nat} (nextWord : next < 2 ^ 32) (small : size < 2 ^ 31) :
    header (setSize (setState (setNext m chunk next) chunk occupied) chunk size) chunk =
      ⟨(header m chunk).prevChunk, next, occupied, size⟩ := by
  rw [header_setSize small, header_setState _ _ (by decide), header_setNext nextWord]

theorem header_shortened_of_apart {chunk other : Nat}
    (apart : other + headerSize ≤ chunk ∨ chunk + headerSize ≤ other) :
    header (setSize (setState (setNext m chunk next) chunk occupied) chunk size) other =
      header m other := by
  rw [header_setSize_of_apart apart, header_setState_of_apart apart, header_setNext_of_apart apart]

section InsertHeader

variable {chunk next_ch : Nat}
  (before : nextChunk m chunk ≠ 0 → next_ch + headerSize ≤ nextChunk m chunk)

include before

/-- The back pointer of the following chunk does not concern the others. -/
theorem header_linkBack {other : Nat} (apart : other + headerSize ≤ next_ch) :
    header (if nextChunk m chunk ≠ 0 then setPrev m (nextChunk m chunk) next_ch else m) other =
      header m other := by
  by_cases last : nextChunk m chunk = 0
  · rw [if_neg (not_not.mpr last)]
  · have := before last
    rw [if_pos last, header_setPrev_of_apart (by omega)]

theorem header_insertHeader_new (behind : chunk + headerSize ≤ next_ch) (word : next_ch < 2 ^ 32)
    (small : size < 2 ^ 31) : header (insertHeader m chunk next_ch size) next_ch =
      ⟨chunk, nextChunk m chunk, free, size⟩ := by
  have same : nextChunk (if nextChunk m chunk ≠ 0 then setPrev m (nextChunk m chunk) next_ch else m)
      chunk = nextChunk m chunk :=
    congrArg ChunkHeader.nextChunk (header_linkBack before behind)
  rw [insertHeader, same]
  exact header_written (by omega) (read32_lt m (chunk + 4)) small

theorem header_insertHeader_of_before {other : Nat} (apart : other + headerSize ≤ next_ch) :
    header (insertHeader m chunk next_ch size) other = header m other := by
  rw [insertHeader, header_written_of_apart (.inl apart)]
  exact header_linkBack before apart

theorem header_insertHeader_next (size : Nat) (more : nextChunk m chunk ≠ 0)
    (word : next_ch < 2 ^ 32) :
    header (insertHeader m chunk next_ch size) (nextChunk m chunk) =
      { header m (nextChunk m chunk) with prevChunk := next_ch } := by
  rw [insertHeader, header_written_of_apart (.inr (before more)), if_pos more, header_setPrev word]

theorem header_insertHeader_of_behind (size : Nat) (more : nextChunk m chunk ≠ 0) {other : Nat}
    (apart : nextChunk m chunk + headerSize ≤ other) :
    header (insertHeader m chunk next_ch size) other = header m other := by
  have := before more
  rw [insertHeader, header_written_of_apart (.inr (by omega)), if_pos more,
    header_setPrev_of_apart (.inr apart)]

end InsertHeader

/-! ### Changing one chunk of the list -/

/-- A list whose first back pointer changes. -/
theorem Linked.relink {prev' : Nat} (linked : Linked m prev ys next)
    (head : ∀ d rest, ys = d :: rest →
      header m' d.addr = { header m d.addr with prevChunk := prev' } ∧
        ∀ o ∈ rest, header m' o.addr = header m o.addr) : Linked m' prev' ys next := by
  cases ys with
  | nil => trivial
  | cons d rest =>
    obtain ⟨first, others⟩ := head d rest rfl
    exact ⟨by rw [first, linked.1], linked.2.congr others⟩

/-- What a tiled list says about its chunk `c`. -/
structure ChunkAt (m : Memory) (a : Nat) (xs : List Chunk) (c : Chunk) (ys : List Chunk) (e : Nat) :
    Prop where
  linked : Linked m 0 (xs ++ c :: ys) 0
  tiled : Tiled a (xs ++ c :: ys) e
  positive : 0 < a
  inside : e + 16 ≤ 2 ^ 32

namespace ChunkAt

variable (here : ChunkAt m a xs c ys e)

include here

theorem header_eq : header m c.addr = ⟨lastOf 0 xs, firstOf ys 0, c.state, c.size⟩ :=
  (linked_append.mp here.linked).2.1

theorem nextChunk_eq : nextChunk m c.addr = firstOf ys 0 :=
  congrArg ChunkHeader.nextChunk here.header_eq

theorem chunkSize_eq : chunkSize m c.addr = c.size := congrArg ChunkHeader.size here.header_eq

theorem chunkState_eq : chunkState m c.addr = c.state := congrArg ChunkHeader.state here.header_eq

theorem bounds : a ≤ c.addr ∧ c.next ≤ e := here.tiled.bounds (by simp)

theorem before {d : Chunk} (member : d ∈ xs) : d.next ≤ c.addr := by
  have pairs := here.tiled.pairwise
  rw [List.pairwise_append] at pairs
  exact pairs.2.2 d member c (by simp)

theorem behind {d : Chunk} (member : d ∈ ys) : c.next ≤ d.addr := by
  have pairs := here.tiled.pairwise
  rw [List.pairwise_append, List.pairwise_cons] at pairs
  exact pairs.2.1.1 d member

/-- The following chunk begins where this one ends. -/
theorem next_addr {d : Chunk} {rest : List Chunk} (more : ys = d :: rest) : d.addr = c.next := by
  obtain ⟨b, _, tail⟩ := tiled_append.mp here.tiled
  subst more
  exact tail.2.1

theorem setState (b : Bool) : Linked
    (SequentialFit.setState m c.addr (if b then SequentialFit.occupied else free)) 0
    (xs ++ { c with occupied := b } :: ys) 0 := by
  obtain ⟨first, own, rest⟩ := linked_append.mp here.linked
  have isBit : (if b then SequentialFit.occupied else free) < 2 := by cases b <;> decide
  refine linked_append.mpr ⟨first.congr fun d member => header_setState_of_apart ?_, ?_,
    rest.congr fun d member => header_setState_of_apart ?_⟩
  · have := here.before member
    simp only [Chunk.next] at this
    omega
  · rw [header_setState _ _ isBit, own]
    rfl
  · have := here.behind member
    simp only [Chunk.next] at this
    omega

/-- The next list begins with the chunk's follower, which is real. -/
theorem next_real (more : nextChunk m c.addr ≠ 0) :
    ∃ d rest, ys = d :: rest ∧ nextChunk m c.addr = d.addr ∧ d.addr = c.next := by
  rw [here.nextChunk_eq] at more ⊢
  cases ys with
  | nil => exact absurd rfl more
  | cons d rest => exact ⟨d, rest, rfl, rfl, here.next_addr rfl⟩

end ChunkAt

/-- The chunks behind the following one. -/
theorem ChunkAt.follow_lt {d o : Chunk} {rest : List Chunk} (here : ChunkAt m a xs c (d :: rest) e)
    (member : o ∈ rest) : d.addr + headerSize ≤ o.addr := by
  have pairs := here.tiled.pairwise
  rw [List.pairwise_append, List.pairwise_cons, List.pairwise_cons] at pairs
  have apart := pairs.2.1.2.1 o member
  rw [Chunk.next] at apart
  omega

/-! ### `split` -/

/-- The payload size rounded up to words. -/
def roundUp (size : Nat) : Nat := (size + 3) / 4 * 4

/-- Enough is left over for a header, the minimum payload, and a header more. -/
def Chunk.Splits (c : Chunk) (size : Nat) : Prop :=
  minimumPayload + 2 * headerSize + roundUp size < c.size

instance (c : Chunk) (size : Nat) : Decidable (c.Splits size) := inferInstanceAs (Decidable (_ < _))

/-- The payload `split` grants. -/
def Chunk.granted (c : Chunk) (size : Nat) : Nat := if c.Splits size then roundUp size else c.size

/-- What `split` makes of a chunk. -/
def Chunk.taken (c : Chunk) (size : Nat) : List Chunk :=
  if c.Splits size then
    [⟨c.addr, roundUp size, true⟩,
      ⟨c.addr + headerSize + roundUp size, c.size - roundUp size - headerSize, false⟩]
  else [{ c with occupied := true }]

/-- The addresses `split` computes. -/
theorem split_addresses (here : ChunkAt m a xs c ys e) (aligned : c.addr % 4 = 0)
    (enough : size ≤ c.size) :
    wordAdd c.addr headerSize = c.payload ∧ wordAdd c.payload c.size = c.next ∧
      alignCeil (wordAdd (wordAdd c.payload size) headerSize) alignVal =
        c.payload + roundUp size + headerSize := by
  obtain ⟨_, high⟩ := here.bounds
  have inside := here.inside
  simp only [Chunk.next, Chunk.payload, headerSize, alignVal, roundUp] at *
  refine ⟨wordAdd_eq (by omega), wordAdd_eq (by omega), ?_⟩
  have behindPayload : wordAdd (c.addr + 12) size = c.addr + 12 + size := wordAdd_eq (by omega)
  have behindHeader : wordAdd (c.addr + 12 + size) 12 = c.addr + 12 + size + 12 :=
    wordAdd_eq (by omega)
  rw [behindPayload, behindHeader, alignCeil_eq (by omega) (n := 4) (k := 2) rfl (by decide)]
  omega

/-- The headers after a chunk was shortened to `size` bytes and a free chunk
inserted behind it. -/
theorem linked_shortened (here : ChunkAt m a xs c ys e) (room : size + headerSize ≤ c.size) :
    Linked (setSize (setState (setNext (insertHeader m c.addr (c.payload + size)
        (c.size - size - headerSize)) c.addr (c.payload + size)) c.addr occupied) c.addr size) 0
      (xs ++ ([⟨c.addr, size, true⟩, ⟨c.payload + size, c.size - size - headerSize, false⟩] ++ ys))
      0 := by
  obtain ⟨first, own, rest⟩ := linked_append.mp here.linked
  obtain ⟨_, high⟩ := here.bounds
  have inside := here.inside
  have stored := chunkSize_lt m c.addr
  rw [here.chunkSize_eq] at stored
  have nextWord : c.payload + size < 2 ^ 32 := by
    simp only [Chunk.next, Chunk.payload, headerSize] at *
    omega
  have before : nextChunk m c.addr ≠ 0 → c.payload + size + headerSize ≤ nextChunk m c.addr := by
    intro more
    obtain ⟨d, _, _, isNext, follows⟩ := here.next_real more
    rw [isNext, follows, Chunk.next, Chunk.payload]
    omega
  refine linked_append.mpr ⟨first.congr fun d member => ?_, ?_, ?_,
    rest.relink fun d tail more => ?_⟩
  · have apart := here.before member
    simp only [Chunk.next] at apart
    rw [header_shortened_of_apart (.inl (by omega)),
      header_insertHeader_of_before before (by simp only [Chunk.payload]; omega)]
  · rw [header_shortened nextWord (by omega),
      header_insertHeader_of_before before (by simp only [Chunk.payload]; omega), own]
    rfl
  · rw [header_shortened_of_apart (.inr (by simp only [Chunk.payload]; omega)),
      header_insertHeader_new before (by simp only [Chunk.payload]; omega) nextWord (by omega),
      here.nextChunk_eq]
    rfl
  · subst more
    have isNext : nextChunk m c.addr = d.addr := here.nextChunk_eq
    have follows := here.next_addr rfl
    have apart : c.addr + headerSize ≤ d.addr := by
      rw [follows, Chunk.next]
      omega
    have real : nextChunk m c.addr ≠ 0 := by
      rw [isNext]
      simp only [headerSize] at apart
      omega
    refine ⟨?_, fun o member => ?_⟩
    · have back := header_insertHeader_next before (c.size - size - headerSize) real nextWord
      rw [isNext] at back
      rw [header_shortened_of_apart (.inr apart), back]
    · have later := here.follow_lt member
      have beyond := header_insertHeader_of_behind before (c.size - size - headerSize) real
        (isNext ▸ later)
      rw [header_shortened_of_apart (.inr (by omega)), beyond]

theorem split_spec {r : MemResource} (here : ChunkAt r.memory a xs c ys e)
    (aligned : c.addr % 4 = 0) (enough : size ≤ c.size) :
    ∃ m' overhead, split r c.addr size = ({ r with
        memory := m'
        usedBytes := wordAdd r.usedBytes (c.granted size)
        overheadBytes := overhead }, c.granted size) ∧
      Linked m' 0 (xs ++ (c.taken size ++ ys)) 0 := by
  obtain ⟨payload, endPtr, nextPayload⟩ := split_addresses here aligned enough
  obtain ⟨_, high⟩ := here.bounds
  have inside := here.inside
  have stored := chunkSize_lt r.memory c.addr
  rw [here.chunkSize_eq] at stored
  simp only [split, payload, here.chunkSize_eq, endPtr, nextPayload]
  by_cases splits : c.Splits size
  · have room : c.payload + roundUp size + headerSize < c.next ∧
        minimumPayload + headerSize < c.next - (c.payload + roundUp size + headerSize) := by
      simp only [Chunk.Splits, Chunk.next, Chunk.payload, minimumPayload, headerSize] at *
      omega
    have next_ch : wordSub (c.payload + roundUp size + headerSize) headerSize =
        c.payload + roundUp size := by
      rw [wordSub_eq (by omega) (by simp only [Chunk.next, headerSize] at *; omega)]
      omega
    have payloadSize : wordSub (c.payload + roundUp size) c.payload = roundUp size := by
      rw [wordSub_eq (by omega) (by simp only [Chunk.next, headerSize] at *; omega)]
      omega
    have left : c.next - (c.payload + roundUp size + headerSize) =
        c.size - roundUp size - headerSize := by
      rw [Chunk.next, Chunk.payload]
      omega
    have fits : roundUp size + headerSize ≤ c.size := by
      simp only [Chunk.Splits, minimumPayload, headerSize] at *
      omega
    have size_eq : chunkSize (setSize (setState (setNext (insertHeader r.memory c.addr
        (c.payload + roundUp size) (c.size - roundUp size - headerSize)) c.addr
        (c.payload + roundUp size)) c.addr occupied) c.addr (roundUp size)) c.addr =
        roundUp size := by
      have nextWord : c.payload + roundUp size < 2 ^ 32 := by
        simp only [Chunk.next, Chunk.payload, headerSize] at *
        omega
      exact congrArg ChunkHeader.size (header_shortened nextWord (by omega))
    simp only [if_pos room]
    simp only [next_ch, payloadSize, left, size_eq, Chunk.granted, Chunk.taken,
      if_pos splits]
    exact ⟨_, _, rfl, linked_shortened here fits⟩
  · have noRoom : ¬ (c.payload + roundUp size + headerSize < c.next ∧
        minimumPayload + headerSize < c.next - (c.payload + roundUp size + headerSize)) := by
      simp only [Chunk.Splits, Chunk.next, Chunk.payload, minimumPayload, headerSize] at *
      omega
    have linked := here.setState true
    have size_eq : chunkSize (setState r.memory c.addr occupied) c.addr = c.size := by
      have own := header_setState r.memory c.addr (show occupied < 2 by decide)
      rw [here.header_eq] at own
      exact congrArg ChunkHeader.size own
    refine ⟨setState r.memory c.addr occupied, r.overheadBytes, ?_, ?_⟩
    · simp only [if_neg noRoom, size_eq, Chunk.granted, if_neg splits]
    · rw [Chunk.taken, if_neg splits]
      exact linked

end Orcos.Source.SequentialFit
