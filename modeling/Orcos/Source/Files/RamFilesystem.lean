import Mathlib.Logic.Function.Basic
import Mathlib.Order.Interval.Finset.Nat
import Orcos.Lib.Loop
import Orcos.Source.Alignment
import Orcos.Lib.Successors
import Orcos.Lib.Sequences

/-!
# The block chain of the ram file system

Source: src/source/filesystem/ram/RamFilesystem.cc, `RamFilesystem`, `allocateBlock`,
`freeBlock`, `getNextBlock`; src/source/filesystem/ram/RamFilesystem.hh.

The two arrays are functions of the index. `blockChain` has an entry for each
block: the mark of a free block, the number of the block that follows, or zero
behind the last one. The counters of a superblock are bytes, the others words.
-/
namespace Orcos.Source.Files
open Lib.Loop

def ramdiskBlockSize : Nat := 4096
def numBlocksPerSuperblock : Nat := 128

/-- `(unint4) -1`: no block, and in the chain the mark of a free one. -/
def noBlock : Nat := 2 ^ 32 - 1

structure SuperBlock where
  freeBlocks : Nat
  nextFreeBlock : Nat
  numBlocks : Nat
  deriving DecidableEq

structure RamFilesystem where
  blockChain : Nat → Nat
  superBlockChain : Nat → SuperBlock
  superBlocks : Nat
  firstBlock : Nat
  numBlocks : Nat
  freeBlocks : Nat

namespace RamFilesystem

/-- The number of blocks in a region: one less than fit, less the room of the two
chains. -/
def blockChainEntries (start size : Nat) : Nat :=
  let last := wordSub (wordAdd start size) 1
  let numblocks := wordSub last start / ramdiskBlockSize
  let blockChainSize := 4 * numblocks
  let superBlockSize := (numblocks / numBlocksPerSuperblock + 1) * 4
  wordSub (wordSub numblocks (blockChainSize / ramdiskBlockSize + 1))
    (superBlockSize / ramdiskBlockSize + 1)

/-- The constructor, for the region of the configuration. The last superblock has
the blocks that are left over. -/
def construct (start size : Nat) : RamFilesystem :=
  let numblocks := blockChainEntries start size
  let superBlocks := numblocks / numBlocksPerSuperblock + 1
  let rest := numblocks - (superBlocks - 1) * numBlocksPerSuperblock
  let blockChain := alignCeil (start + superBlocks * 4) ramdiskBlockSize
  { blockChain := fun _ => noBlock
    superBlockChain := Function.update
      (fun _ => ⟨numBlocksPerSuperblock, 0, numBlocksPerSuperblock⟩)
      (superBlocks - 1) ⟨rest, 0, rest⟩
    superBlocks := superBlocks
    firstBlock := alignCeil (wordAdd blockChain (4 * numblocks % 2 ^ 32)) ramdiskBlockSize
    numBlocks := numblocks
    freeBlocks := numblocks }

/-- The address of the chain, at the page behind the superblocks. -/
def blockChainAddress (start size : Nat) : Nat :=
  alignCeil (start + (construct start size).superBlocks * 4) ramdiskBlockSize

variable (fs : RamFilesystem)

/-- The block is marked as free. -/
def Free (block : Nat) : Prop := fs.blockChain block = noBlock

instance : DecidablePred fs.Free := fun _ => inferInstanceAs (Decidable (_ = _))

/-- The block taken from a superblock: the one it remembers, or the first one that the
search finds. Where the search finds none the first block is taken. -/
def blockOf (superBlock : Nat) : Nat :=
  superBlock * numBlocksPerSuperblock +
    if (fs.superBlockChain superBlock).nextFreeBlock ≠ 255 then
      (fs.superBlockChain superBlock).nextFreeBlock
    else
      ((List.range (fs.superBlockChain superBlock).numBlocks).find?
        fun i => fs.Free (superBlock * numBlocksPerSuperblock + i)).getD 0

/-- The first superblock that counts a free block. -/
def superBlockWithRoom : Option Nat :=
  (List.range fs.superBlocks).find? fun superBlock =>
    0 < (fs.superBlockChain superBlock).freeBlocks

/-- A block is taken from a superblock; it ends the chain it is put behind. -/
def take (superBlock block prev : Nat) : RamFilesystem :=
  let ended := Function.update fs.blockChain block 0
  { fs with
    blockChain := if prev ≠ noBlock then Function.update ended prev block else ended
    superBlockChain := Function.update fs.superBlockChain superBlock
      { fs.superBlockChain superBlock with
        freeBlocks := (fs.superBlockChain superBlock).freeBlocks - 1
        nextFreeBlock := 255 }
    freeBlocks := wordSub fs.freeBlocks 1 }

def allocateBlock (prev : Nat) : RamFilesystem × Nat :=
  match fs.superBlockWithRoom with
  | some superBlock => (fs.take superBlock (fs.blockOf superBlock) prev, fs.blockOf superBlock)
  | none => (fs, noBlock)

/-- A block is marked as free and remembered by its superblock. -/
def release (block : Nat) : RamFilesystem :=
  let superBlock := block / numBlocksPerSuperblock
  { fs with
    blockChain := Function.update fs.blockChain block noBlock
    superBlockChain := Function.update fs.superBlockChain superBlock
      { fs.superBlockChain superBlock with
        freeBlocks := ((fs.superBlockChain superBlock).freeBlocks + 1) % 2 ^ 8
        nextFreeBlock := block &&& (numBlocksPerSuperblock - 1) }
    freeBlocks := wordAdd fs.freeBlocks 1 }

/-- A round of the loop of `freeBlock`, with the block that comes next. -/
def freeRound (s : RamFilesystem × Nat) : Round (RamFilesystem × Nat) RamFilesystem :=
  if s.2 ≠ 0 ∧ s.2 ≠ noBlock then .again (s.1.release s.2, s.1.blockChain s.2) else .done s.1

/-- The loop is run for so many rounds. -/
def freeBlock (rounds blockNum : Nat) : Option RamFilesystem :=
  if blockNum ≠ noBlock then
    loop freeRound rounds (fs.release blockNum, fs.blockChain blockNum)
  else some fs

def getNextBlock (currentBlock : Nat) (allocate : Bool) : RamFilesystem × Nat :=
  if currentBlock ≠ noBlock then
    if (fs.blockChain currentBlock = 0 ∨ fs.blockChain currentBlock = noBlock) ∧ allocate then
      fs.allocateBlock currentBlock
    else (fs, fs.blockChain currentBlock)
  else (fs, noBlock)

end RamFilesystem

end Orcos.Source.Files

/-! ## The bookkeeping of the ram file system

What the counters and the hints of the superblocks say about the block chain, and
what taking and releasing a block changes. The blocks in use with their successors
are a forest.
-/
namespace Orcos.Source.Files.RamFilesystem
open Lib.Loop Lib.Successors Lib.Tallies

variable (fs : RamFilesystem)

/-- A block of the file system that is not marked as free. -/
def Used (block : Nat) : Prop := block < fs.numBlocks ∧ ¬fs.Free block

/-- The block that `getNextBlock` leads to; zero says that there is none. -/
def next (block : Nat) : Option Nat :=
  if (fs.getNextBlock block false).2 = 0 then none else some (fs.getNextBlock block false).2

/-- The free blocks of a superblock, counted in the chain. -/
def freeIn (superBlock : Nat) : Nat :=
  ((Finset.range fs.numBlocks).filter fun block =>
    block / numBlocksPerSuperblock = superBlock ∧ fs.Free block).card

/-- The superblocks have their shares of the blocks. -/
structure Sized : Prop where
  words : fs.numBlocks ≤ noBlock
  superBlocks : fs.superBlocks = fs.numBlocks / numBlocksPerSuperblock + 1
  shares : ∀ superBlock < fs.superBlocks, (fs.superBlockChain superBlock).numBlocks =
    min numBlocksPerSuperblock (fs.numBlocks - superBlock * numBlocksPerSuperblock)

/-- The counters are right, and what a superblock with blocks remembers is a free block
of it. -/
structure Counted : Prop where
  counts : ∀ superBlock < fs.superBlocks,
    (fs.superBlockChain superBlock).freeBlocks = fs.freeIn superBlock
  total : fs.freeBlocks =
    ∑ superBlock ∈ Finset.range fs.superBlocks, (fs.superBlockChain superBlock).freeBlocks
  hints : ∀ superBlock < fs.superBlocks, (fs.superBlockChain superBlock).nextFreeBlock ≠ 255 →
    (fs.superBlockChain superBlock).numBlocks ≠ 0 →
    (fs.superBlockChain superBlock).nextFreeBlock < (fs.superBlockChain superBlock).numBlocks ∧
      fs.Free (superBlock * numBlocksPerSuperblock +
        (fs.superBlockChain superBlock).nextFreeBlock)

structure Sound : Prop where
  sized : fs.Sized
  counted : fs.Counted
  forest : Forest fs.next fs.Used

variable {fs} {block prev superBlock rounds : Nat} {blocks : List Nat}

theorem freeIn_le : fs.freeIn superBlock ≤ numBlocksPerSuperblock := by
  have inside : ((Finset.range fs.numBlocks).filter fun block =>
      block / numBlocksPerSuperblock = superBlock ∧ fs.Free block) ⊆
      Finset.Ico (superBlock * numBlocksPerSuperblock)
        (superBlock * numBlocksPerSuperblock + numBlocksPerSuperblock) := by
    intro block member
    have place := (Finset.mem_filter.mp member).2.1
    unfold numBlocksPerSuperblock at place ⊢
    rw [Finset.mem_Ico]
    omega
  have small := Finset.card_le_card inside
  rwa [Nat.card_Ico, Nat.add_sub_cancel_left] at small

/-- Every free block is counted in one superblock. -/
theorem sum_freeIn (sized : fs.Sized) :
    ∑ superBlock ∈ Finset.range fs.superBlocks, fs.freeIn superBlock =
      ((Finset.range fs.numBlocks).filter fun block => fs.Free block).card := by
  have toSuper : Set.MapsTo (fun block => block / numBlocksPerSuperblock)
      ((Finset.range fs.numBlocks).filter fun block => fs.Free block : Finset Nat)
      (Finset.range fs.superBlocks : Finset Nat) := by
    intro block member
    have inside := Finset.mem_range.mp (Finset.mem_filter.mp (Finset.mem_coe.mp member)).1
    rw [Finset.mem_coe, Finset.mem_range, sized.superBlocks]
    exact Nat.lt_succ_of_le (Nat.div_le_div_right inside.le)
  rw [Finset.card_eq_sum_card_fiberwise toSuper]
  refine Finset.sum_congr rfl fun superBlock _ => ?_
  rw [freeIn, Finset.filter_filter]
  exact congrArg Finset.card (Finset.filter_congr fun block _ => and_comm)

/-- The total counts the free blocks of the file system. -/
theorem Counted.total_eq (counted : fs.Counted) (sized : fs.Sized) :
    fs.freeBlocks = ((Finset.range fs.numBlocks).filter fun block => fs.Free block).card := by
  rw [counted.total, ← sum_freeIn sized]
  exact Finset.sum_congr rfl fun superBlock member =>
    counted.counts superBlock (Finset.mem_range.mp member)

theorem Counted.total_le (counted : fs.Counted) (sized : fs.Sized) :
    fs.freeBlocks ≤ fs.numBlocks := by
  rw [counted.total_eq sized]
  exact (Finset.card_filter_le _ _).trans_eq (Finset.card_range _)

/-- With a free block left the total is below the number of blocks. -/
theorem Counted.total_lt (counted : fs.Counted) (sized : fs.Sized) (used : fs.Used block) :
    fs.freeBlocks < fs.numBlocks := by
  have fewer : ((Finset.range fs.numBlocks).filter fun block => fs.Free block).card <
      (Finset.range fs.numBlocks).card := by
    apply Finset.card_lt_card
    rw [Finset.ssubset_iff_subset_ne]
    refine ⟨Finset.filter_subset _ _, fun whole => used.2 ?_⟩
    have member : block ∈ Finset.range fs.numBlocks := Finset.mem_range.mpr used.1
    rw [← whole] at member
    exact (Finset.mem_filter.mp member).2
  rwa [← counted.total_eq sized, Finset.card_range] at fewer

theorem superBlock_lt (sized : fs.Sized) (inside : block < fs.numBlocks) :
    block / numBlocksPerSuperblock < fs.superBlocks := by
  rw [sized.superBlocks]
  unfold numBlocksPerSuperblock
  omega

/-- A superblock that counts a free block has one. -/
theorem Counted.exists_free (counted : fs.Counted) (inside : superBlock < fs.superBlocks)
    (room : 0 < (fs.superBlockChain superBlock).freeBlocks) :
    ∃ block < fs.numBlocks, block / numBlocksPerSuperblock = superBlock ∧ fs.Free block := by
  rw [counted.counts superBlock inside, freeIn, Finset.card_pos] at room
  obtain ⟨block, member⟩ := room
  obtain ⟨inside, place, free⟩ := Finset.mem_filter.mp member
  exact ⟨block, Finset.mem_range.mp inside, place, free⟩

/-- The block taken from a superblock with room is a free one of it. -/
theorem blockOf_spec (sized : fs.Sized) (counted : fs.Counted)
    (inside : superBlock < fs.superBlocks)
    (room : 0 < (fs.superBlockChain superBlock).freeBlocks) :
    fs.blockOf superBlock < fs.numBlocks ∧
      fs.blockOf superBlock / numBlocksPerSuperblock = superBlock ∧
      fs.Free (fs.blockOf superBlock) := by
  obtain ⟨block, below, place, free⟩ := counted.exists_free inside room
  have share := sized.shares superBlock inside
  have part {i : Nat} (less : i < (fs.superBlockChain superBlock).numBlocks) :
      superBlock * numBlocksPerSuperblock + i < fs.numBlocks ∧
        (superBlock * numBlocksPerSuperblock + i) / numBlocksPerSuperblock = superBlock := by
    unfold numBlocksPerSuperblock at share ⊢
    omega
  unfold blockOf
  split
  · next known =>
    have some_ : (fs.superBlockChain superBlock).numBlocks ≠ 0 := by
      unfold numBlocksPerSuperblock at share place
      omega
    obtain ⟨less, free'⟩ := counted.hints superBlock inside known some_
    exact ⟨(part less).1, (part less).2, free'⟩
  · cases search : (List.range (fs.superBlockChain superBlock).numBlocks).find?
      fun i => fs.Free (superBlock * numBlocksPerSuperblock + i) with
    | some i =>
      have less := List.mem_range.mp (List.mem_of_find?_eq_some search)
      have free' : fs.Free (superBlock * numBlocksPerSuperblock + i) := by
        simpa using List.find?_some search
      exact ⟨(part less).1, (part less).2, free'⟩
    | none =>
      have taken := List.find?_eq_none.mp search (block % numBlocksPerSuperblock) (by
        rw [List.mem_range, share]
        unfold numBlocksPerSuperblock at place ⊢
        omega)
      have same : superBlock * numBlocksPerSuperblock + block % numBlocksPerSuperblock = block := by
        unfold numBlocksPerSuperblock at place ⊢
        omega
      rw [same] at taken
      exact absurd (decide_eq_true free) taken

/-- An allocation takes a free block, unless there is none. -/
theorem allocateBlock_cases (sized : fs.Sized) (counted : fs.Counted) (prev : Nat) :
    (∃ block < fs.numBlocks, fs.Free block ∧ fs.allocateBlock prev =
      (fs.take (block / numBlocksPerSuperblock) block prev, block)) ∨
    (∀ block < fs.numBlocks, ¬fs.Free block) ∧ fs.allocateBlock prev = (fs, noBlock) := by
  cases search : fs.superBlockWithRoom with
  | some superBlock =>
    have inside := List.mem_range.mp (List.mem_of_find?_eq_some search)
    have room : 0 < (fs.superBlockChain superBlock).freeBlocks := by
      simpa using List.find?_some search
    obtain ⟨below, place, free⟩ := blockOf_spec sized counted inside room
    refine .inl ⟨fs.blockOf superBlock, below, free, ?_⟩
    rw [allocateBlock, search, place]
  | none =>
    refine .inr ⟨fun block inside free => ?_, by rw [allocateBlock, search]⟩
    have place := superBlock_lt sized inside
    have none_ := List.find?_eq_none.mp search _ (List.mem_range.mpr place)
    have room : 0 < fs.freeIn (block / numBlocksPerSuperblock) :=
      Finset.card_pos.mpr ⟨block, Finset.mem_filter.mpr ⟨Finset.mem_range.mpr inside, rfl, free⟩⟩
    rw [← counted.counts _ place] at room
    exact none_ (decide_eq_true room)

@[simp] theorem superBlockChain_take :
    (fs.take superBlock block prev).superBlockChain superBlock = {
      fs.superBlockChain superBlock with
      freeBlocks := (fs.superBlockChain superBlock).freeBlocks - 1, nextFreeBlock := 255 } := by
  simp [take]

theorem superBlockChain_take_of_ne {other : Nat} (different : other ≠ superBlock) :
    (fs.take superBlock block prev).superBlockChain other = fs.superBlockChain other := by
  simp [take, different]

@[simp] theorem superBlockChain_release :
    (fs.release block).superBlockChain (block / numBlocksPerSuperblock) =
      { fs.superBlockChain (block / numBlocksPerSuperblock) with
        freeBlocks :=
          ((fs.superBlockChain (block / numBlocksPerSuperblock)).freeBlocks + 1) % 2 ^ 8
        nextFreeBlock := block % numBlocksPerSuperblock } := by
  have mask : block &&& (numBlocksPerSuperblock - 1) = block % numBlocksPerSuperblock :=
    Nat.and_two_pow_sub_one_eq_mod block 7
  simp [release, mask]

theorem superBlockChain_release_of_ne {other : Nat}
    (different : other ≠ block / numBlocksPerSuperblock) :
    (fs.release block).superBlockChain other = fs.superBlockChain other := by
  simp [release, different]

theorem Sized.take (sized : fs.Sized) : (fs.take superBlock block prev).Sized := by
  refine ⟨sized.words, sized.superBlocks, fun other less => .trans ?_ (sized.shares other less)⟩
  by_cases here : other = superBlock
  · rw [here, superBlockChain_take]
  · rw [superBlockChain_take_of_ne here]

theorem Sized.release (sized : fs.Sized) : (fs.release block).Sized := by
  refine ⟨sized.words, sized.superBlocks, fun other less => .trans ?_ (sized.shares other less)⟩
  by_cases here : other = block / numBlocksPerSuperblock
  · rw [here, superBlockChain_release]
  · rw [superBlockChain_release_of_ne here]

theorem ne_noBlock (sized : fs.Sized) (inside : block < fs.numBlocks) : block ≠ noBlock := by
  have := sized.words
  omega

/-- The marks of a superblock decide its count. -/
theorem freeIn_congr {fs' : RamFilesystem} (size : fs'.numBlocks = fs.numBlocks)
    (same : ∀ x < fs.numBlocks, x / numBlocksPerSuperblock = superBlock →
      (fs'.Free x ↔ fs.Free x)) : fs'.freeIn superBlock = fs.freeIn superBlock := by
  unfold freeIn
  rw [size]
  refine congrArg Finset.card (Finset.filter_congr fun x member => ?_)
  exact and_congr_right (same x (Finset.mem_range.mp member))

/-- One more block of a superblock is marked as free. -/
theorem freeIn_join {fs' : RamFilesystem} (size : fs'.numBlocks = fs.numBlocks)
    (inside : block < fs.numBlocks) (taken : ¬fs.Free block)
    (joined : ∀ x < fs.numBlocks, fs'.Free x ↔ fs.Free x ∨ x = block) :
    fs'.freeIn (block / numBlocksPerSuperblock) =
      fs.freeIn (block / numBlocksPerSuperblock) + 1 := by
  unfold freeIn
  rw [size]
  refine card_join (Finset.mem_range.mpr inside) (fun free => taken free.2) fun x member => ?_
  rw [joined x (Finset.mem_range.mp member)]
  constructor
  · rintro ⟨place, free | here⟩
    · exact .inl ⟨place, free⟩
    · exact .inr here
  · rintro (⟨place, free⟩ | rfl)
    · exact ⟨place, .inl free⟩
    · exact ⟨rfl, .inr rfl⟩

section Construct

variable {start size : Nat}

theorem free_construct (block : Nat) : (construct start size).Free block := rfl

theorem superBlockChain_construct (inside : superBlock < (construct start size).superBlocks) :
    ((construct start size).superBlockChain superBlock).freeBlocks =
        min numBlocksPerSuperblock
          ((construct start size).numBlocks - superBlock * numBlocksPerSuperblock) ∧
      ((construct start size).superBlockChain superBlock).numBlocks =
        ((construct start size).superBlockChain superBlock).freeBlocks ∧
      ((construct start size).superBlockChain superBlock).nextFreeBlock = 0 := by
  unfold construct at inside ⊢
  generalize blockChainEntries start size = n at inside ⊢
  by_cases last : superBlock = n / numBlocksPerSuperblock
  · subst last
    simp only [Nat.add_sub_cancel, Function.update_self, and_self, and_true]
    unfold numBlocksPerSuperblock
    omega
  · simp only [Nat.add_sub_cancel, ne_eq, last, not_false_eq_true, Function.update_of_ne, and_self,
      and_true]
    unfold numBlocksPerSuperblock at inside last ⊢
    simp only at inside
    omega

theorem sized_construct (start size : Nat) : (construct start size).Sized := by
  refine ⟨?_, rfl, fun superBlock inside => ?_⟩
  · have word : (construct start size).numBlocks < 2 ^ 32 := Nat.mod_lt _ (by decide)
    unfold noBlock
    omega
  · obtain ⟨free, all, _⟩ := superBlockChain_construct inside
    rw [all, free]

/-- In the beginning every block is free. -/
theorem counted_construct : (construct start size).Counted := by
  have counts (superBlock : Nat) (inside : superBlock < (construct start size).superBlocks) :
      ((construct start size).superBlockChain superBlock).freeBlocks =
        (construct start size).freeIn superBlock := by
    obtain ⟨free, _, _⟩ := superBlockChain_construct inside
    have whole : ((Finset.range (construct start size).numBlocks).filter fun block =>
        block / numBlocksPerSuperblock = superBlock ∧ (construct start size).Free block) =
        Finset.Ico (superBlock * numBlocksPerSuperblock)
          (min (construct start size).numBlocks
            (superBlock * numBlocksPerSuperblock + numBlocksPerSuperblock)) := by
      ext block
      rw [Finset.mem_filter, Finset.mem_range, Finset.mem_Ico, and_iff_left (free_construct block)]
      unfold numBlocksPerSuperblock
      omega
    rw [free, freeIn, whole, Nat.card_Ico]
    omega
  refine ⟨counts, ?_, fun superBlock inside _ some_ => ?_⟩
  · have all : ((Finset.range (construct start size).numBlocks).filter fun block =>
        (construct start size).Free block) = Finset.range (construct start size).numBlocks :=
      Finset.filter_true_of_mem fun block _ => free_construct block
    have total := sum_freeIn (sized_construct start size)
    rw [all, Finset.card_range] at total
    refine total.symm.trans (Finset.sum_congr rfl fun superBlock member => ?_)
    exact (counts superBlock (Finset.mem_range.mp member)).symm
  · obtain ⟨_, _, hint⟩ := superBlockChain_construct inside
    rw [hint]
    exact ⟨Nat.pos_of_ne_zero some_, free_construct _⟩

theorem sound_construct (start size : Nat) : (construct start size).Sound :=
  ⟨sized_construct start size, counted_construct,
    fun x _ known => absurd (free_construct x) known.2,
    fun x _ _ known => absurd (free_construct x) known.2,
    fun x known => absurd (free_construct x) known.2⟩

end Construct

section Take

variable (sized : fs.Sized) (inside : block < fs.numBlocks) (free : fs.Free block)
  (follows : prev = noBlock ∨ fs.Used prev)

include sized inside free follows

theorem free_take (x : Nat) :
    (fs.take superBlock block prev).Free x ↔ fs.Free x ∧ x ≠ block := by
  have mark := ne_noBlock sized inside
  unfold Free RamFilesystem.take
  rcases follows with rfl | used
  · simp only [ne_eq, not_true_eq_false, if_false]
    by_cases here : x = block
    · simp [here, noBlock]
    · simp [here]
  · have words := ne_noBlock sized used.1
    have other : prev ≠ block := fun same => used.2 (same ▸ free)
    simp only [ne_eq, words, not_false_eq_true, if_true]
    by_cases last : x = prev
    · have taken := used.2
      unfold Free at taken
      simp [last, mark, taken]
    · by_cases here : x = block
      · simp [here, other.symm, noBlock]
      · simp [here, last]

theorem Counted.take (counted : fs.Counted) :
    (fs.take (block / numBlocksPerSuperblock) block prev).Counted := by
  have place := superBlock_lt sized inside
  have marks (x : Nat) :
      (fs.take (block / numBlocksPerSuperblock) block prev).Free x ↔ fs.Free x ∧ x ≠ block :=
    free_take sized inside free follows x
  have less : fs.freeIn (block / numBlocksPerSuperblock) =
      (fs.take (block / numBlocksPerSuperblock) block prev).freeIn
        (block / numBlocksPerSuperblock) + 1 := by
    refine freeIn_join rfl inside (fun again => ((marks block).mp again).2 rfl) fun x _ => ?_
    rw [marks x]
    by_cases here : x = block
    · simp [here, free]
    · simp [here]
  have count := counted.counts _ place
  have same (other : Nat) (different : other ≠ block / numBlocksPerSuperblock) :
      (fs.take (block / numBlocksPerSuperblock) block prev).superBlockChain other =
        fs.superBlockChain other := superBlockChain_take_of_ne different
  refine ⟨fun other below => ?_, ?_, fun other below known some_ => ?_⟩
  · by_cases here : other = block / numBlocksPerSuperblock
    · rw [here, superBlockChain_take]
      change _ - 1 = _
      omega
    · rw [same other here, counted.counts other below]
      apply Eq.symm
      apply freeIn_congr (by rfl)
      intro x _ of
      rw [marks x, and_iff_left]
      rintro rfl
      exact here of.symm
  · have change_ := sum_change (s := Finset.range fs.superBlocks)
      (f := fun other => (fs.superBlockChain other).freeBlocks)
      (g := fun other =>
        ((fs.take (block / numBlocksPerSuperblock) block prev).superBlockChain other).freeBlocks)
      (Finset.mem_range.mpr place) fun other _ different => by rw [same other different]
    rw [superBlockChain_take, ← counted.total] at change_
    have bound := counted.total_le sized
    have words := sized.words
    change wordSub fs.freeBlocks 1 = ∑ other ∈ Finset.range fs.superBlocks, _
    rw [wordSub]
    unfold noBlock at words
    change _ + _ = _ + (_ - 1) at change_
    omega
  · by_cases here : other = block / numBlocksPerSuperblock
    · rw [here, superBlockChain_take] at known
      exact absurd rfl known
    · rw [same other here] at known some_ ⊢
      obtain ⟨low, free'⟩ := counted.hints other below known some_
      refine ⟨low, (marks _).mpr ⟨free', ?_⟩⟩
      rintro rfl
      have share := sized.shares other below
      unfold numBlocksPerSuperblock at here share
      omega

end Take

section Release

variable (sized : fs.Sized) (used : fs.Used block)

theorem free_release (x : Nat) : (fs.release block).Free x ↔ fs.Free x ∨ x = block := by
  unfold Free RamFilesystem.release
  by_cases here : x = block
  · simp [here]
  · simp [here]

include sized used

theorem Counted.release (counted : fs.Counted) : (fs.release block).Counted := by
  have place := superBlock_lt sized used.1
  have more : (fs.release block).freeIn (block / numBlocksPerSuperblock) =
      fs.freeIn (block / numBlocksPerSuperblock) + 1 :=
    freeIn_join rfl used.1 used.2 fun x _ => free_release x
  have count := counted.counts _ place
  have small : (fs.release block).freeIn (block / numBlocksPerSuperblock) ≤ 128 := freeIn_le
  have same (other : Nat) (different : other ≠ block / numBlocksPerSuperblock) :
      (fs.release block).superBlockChain other = fs.superBlockChain other :=
    superBlockChain_release_of_ne different
  refine ⟨fun other below => ?_, ?_, fun other below known some_ => ?_⟩
  · by_cases here : other = block / numBlocksPerSuperblock
    · rw [here, superBlockChain_release]
      change (_ + 1) % 2 ^ 8 = _
      omega
    · rw [same other here, counted.counts other below]
      apply Eq.symm
      apply freeIn_congr (by rfl)
      intro x _ of
      rw [free_release x, or_iff_left]
      rintro rfl
      exact here of.symm
  · have change_ := sum_change (s := Finset.range fs.superBlocks)
      (f := fun other => (fs.superBlockChain other).freeBlocks)
      (g := fun other => ((fs.release block).superBlockChain other).freeBlocks)
      (Finset.mem_range.mpr place) fun other _ different => by rw [same other different]
    rw [superBlockChain_release, ← counted.total] at change_
    have bound := counted.total_lt sized used
    have words := sized.words
    change wordAdd fs.freeBlocks 1 = ∑ other ∈ Finset.range fs.superBlocks, _
    rw [wordAdd]
    unfold noBlock at words
    change _ + _ = _ + (_ + 1) % 2 ^ 8 at change_
    omega
  · by_cases here : other = block / numBlocksPerSuperblock
    · have share := sized.shares _ place
      have inside := used.1
      rw [here, superBlockChain_release]
      refine ⟨?_, (free_release _).mpr (.inr ?_)⟩
      · change block % _ < (fs.superBlockChain _).numBlocks
        rw [share]
        unfold numBlocksPerSuperblock
        omega
      · exact Nat.div_add_mod' block _
    · rw [same other here] at known some_ ⊢
      obtain ⟨low, free'⟩ := counted.hints other below known some_
      exact ⟨low, (free_release _).mpr (.inl free')⟩

end Release

section Chains

theorem next_eq (block : Nat) (known : block ≠ noBlock) :
    fs.next block = if fs.blockChain block = 0 then none else some (fs.blockChain block) := by
  simp [next, getNextBlock, known]

theorem next_congr {fs' : RamFilesystem} {x : Nat} (same : fs'.blockChain x = fs.blockChain x) :
    fs'.next x = fs.next x := by
  by_cases known : x = noBlock
  · simp [next, getNextBlock, known]
  · rw [next_eq x known, next_eq x known, same]

theorem blockChain_eq (known : block ≠ noBlock) : fs.blockChain block = (fs.next block).getD 0 := by
  rw [next_eq block known]
  split
  · next last => exact last
  · rfl

theorem ne_zero_of_next {x y : Nat} (leads : fs.next x = some y) : y ≠ 0 := by
  unfold next at leads
  split at leads
  · cases leads
  · next more =>
    rw [← Option.some.inj leads]
    exact more

/-- Only the first block of a list may be the block zero. -/
theorem ne_zero_of_linked {x : Nat} (linked : Linked fs.next (x :: blocks)) :
    ∀ block ∈ blocks, block ≠ 0 := by
  induction blocks generalizing x with
  | nil => simp
  | cons y blocks ih =>
    intro block member
    rcases List.mem_cons.mp member with rfl | later
    · exact ne_zero_of_next linked.1
    · exact ih linked.2 block later

theorem next_release_of_ne (different : block ≠ prev) :
    (fs.release prev).next block = fs.next block :=
  next_congr (Function.update_of_ne different _ _)

theorem used_release (x : Nat) :
    (fs.release block).Used x ↔ fs.Used x ∧ x ≠ block := by
  have size : (fs.release block).numBlocks = fs.numBlocks := rfl
  unfold Used
  rw [size, free_release, not_or, and_assoc]

/-- All blocks of a list are released. -/
def releaseAll (fs : RamFilesystem) (blocks : List Nat) : RamFilesystem :=
  blocks.foldl release fs

/-- What releasing a list of blocks in use leaves. -/
theorem releaseAll_spec (sized : fs.Sized) (counted : fs.Counted) (distinct : blocks.Nodup)
    (used : ∀ block ∈ blocks, fs.Used block) :
    (fs.releaseAll blocks).Sized ∧ (fs.releaseAll blocks).Counted ∧
      (fs.releaseAll blocks).numBlocks = fs.numBlocks ∧
      (∀ x, (fs.releaseAll blocks).Used x ↔ fs.Used x ∧ x ∉ blocks) ∧
      ∀ x, x ∉ blocks → (fs.releaseAll blocks).next x = fs.next x := by
  induction blocks generalizing fs with
  | nil => exact ⟨sized, counted, rfl, by simp [releaseAll], fun _ _ => rfl⟩
  | cons block blocks ih =>
    obtain ⟨fresh, distinct⟩ := List.nodup_cons.mp distinct
    have first := used block (by simp)
    have marks (x : Nat) : (fs.release block).Used x ↔ fs.Used x ∧ x ≠ block := used_release x
    obtain ⟨sized', counted', size, left, same⟩ := ih sized.release
      (counted.release sized first) distinct fun x member => (marks x).mpr
        ⟨used x (by simp [member]), fun here => fresh (here ▸ member)⟩
    refine ⟨sized', counted', size, fun x => ?_, fun x outside => ?_⟩
    · change ((fs.release block).releaseAll blocks).Used x ↔ _
      rw [left x, marks x, List.mem_cons, not_or, and_assoc]
    · obtain ⟨different, later⟩ := not_or.mp (List.mem_cons.not.mp outside)
      exact (same x later).trans (next_release_of_ne different)

/-- The loop of `freeBlock` releases the list it is led along. -/
theorem loop_freeRound (sized : fs.Sized) (linked : Linked fs.next blocks)
    (used : ∀ block ∈ blocks, fs.Used block) (nonzero : ∀ block ∈ blocks, block ≠ 0)
    (enough : blocks.length < rounds) :
    loop freeRound rounds (fs, blocks.head?.getD 0) = some (fs.releaseAll blocks) := by
  obtain ⟨rounds, rfl⟩ : ∃ more, rounds = more + 1 := ⟨rounds - 1, by omega⟩
  induction blocks generalizing fs rounds with
  | nil => exact loop_done rfl
  | cons block blocks ih =>
    have first := used block (by simp)
    have known := ne_noBlock sized first.1
    have fresh := (List.nodup_cons.mp linked.nodup).1
    have step : freeRound (fs, block) = .again (fs.release block, blocks.head?.getD 0) := by
      rw [freeRound, if_pos ⟨nonzero block (by simp), known⟩, ← linked.1, blockChain_eq known]
    have apart (x : Nat) (member : x ∈ blocks) : x ≠ block := fun here => fresh (here ▸ member)
    obtain ⟨rounds, rfl⟩ : ∃ more, rounds = more + 1 :=
      ⟨rounds - 1, by rw [List.length_cons] at enough; omega⟩
    exact (loop_again step).trans (ih sized.release
      (linked.2.congr fun x member => next_release_of_ne (apart x member))
      (fun x member => (used_release x).mpr ⟨used x (by simp [member]), apart x member⟩)
      (fun x member => nonzero x (by simp [member])) rounds
      (by rw [List.length_cons] at enough; omega))

/-- Freeing a list from its first block on releases all its blocks. -/
theorem freeBlock_eq (sized : fs.Sized) (linked : Linked fs.next (block :: blocks))
    (used : ∀ x ∈ block :: blocks, fs.Used x) (enough : blocks.length < rounds) :
    fs.freeBlock rounds block = some (fs.releaseAll (block :: blocks)) := by
  have first := used block (by simp)
  have known := ne_noBlock sized first.1
  have fresh := (List.nodup_cons.mp linked.nodup).1
  have apart (x : Nat) (member : x ∈ blocks) : x ≠ block := fun here => fresh (here ▸ member)
  rw [freeBlock, if_pos known, blockChain_eq known, linked.1]
  exact loop_freeRound sized.release
    (linked.2.congr fun x member => next_release_of_ne (apart x member))
    (fun x member => (used_release x).mpr ⟨used x (by simp [member]), apart x member⟩)
    (ne_zero_of_linked linked) enough

/-- A list of blocks in use is no longer than the file system. -/
theorem length_le (distinct : blocks.Nodup) (used : ∀ x ∈ blocks, fs.Used x) :
    blocks.length ≤ fs.numBlocks := by
  have inside : blocks ⊆ List.range fs.numBlocks := fun x member =>
    List.mem_range.mpr (used x member).1
  have short := (distinct.subperm inside).length_le
  rwa [List.length_range] at short

theorem used_take (sized : fs.Sized) (inside : block < fs.numBlocks) (free : fs.Free block)
    (follows : prev = noBlock ∨ fs.Used prev) (x : Nat) :
    (fs.take superBlock block prev).Used x ↔ fs.Used x ∨ x = block := by
  have size : (fs.take superBlock block prev).numBlocks = fs.numBlocks := rfl
  unfold Used
  rw [size, free_take sized inside free follows x]
  by_cases here : x = block
  · simp [here, inside]
  · simp [here]

theorem next_take (sized : fs.Sized) (inside : block < fs.numBlocks) :
    (different : block ≠ prev) → (fs.take superBlock block prev).next block = none := by
  intro different
  have known := ne_noBlock sized inside
  rw [next_eq block known, if_pos]
  unfold RamFilesystem.take
  by_cases first : prev = noBlock
  · simp [first]
  · simp [first, different]

theorem next_take_of_ne {x : Nat} (different : x ≠ block) (behind : x ≠ prev) :
    (fs.take superBlock block prev).next x = fs.next x := by
  apply next_congr
  unfold RamFilesystem.take
  by_cases first : prev = noBlock
  · simp [first, different]
  · simp [first, different, behind]

/-- The block zero behind another one is taken for the end. -/
theorem next_take_prev (sized : fs.Sized) (used : fs.Used prev) :
    (fs.take superBlock block prev).next prev = if block = 0 then none else some block := by
  have known := ne_noBlock sized used.1
  rw [next_eq prev known]
  simp [RamFilesystem.take, known]

/-- The blocks in use stay a forest when one is taken and put behind another one. -/
theorem forest_take (sized : fs.Sized) (forest : Forest fs.next fs.Used)
    (inside : block < fs.numBlocks) (free : fs.Free block)
    (follows : prev = noBlock ∨ fs.Used prev) :
    Forest (fs.take superBlock block prev).next (fs.take superBlock block prev).Used := by
  have used' : (fs.take superBlock block prev).Used = fun x => fs.Used x ∨ x = block :=
    funext fun x => propext (used_take sized inside free follows x)
  have fresh : ¬fs.Used block := fun used => used.2 free
  have words := ne_noBlock sized inside
  rw [used']
  rcases follows with rfl | used
  · refine forest.add fresh (next_take sized inside words) fun x known => ?_
    exact next_take_of_ne (fun here => fresh (here ▸ known)) (ne_noBlock sized known.1)
  · have behind : block ≠ prev := fun here => fresh (here ▸ used)
    have grown : Forest (Function.update fs.next block none) fun x => fs.Used x ∨ x = block :=
      forest.add fresh (by simp) fun x known => by
        have other : x ≠ block := fun here => fresh (here ▸ known)
        exact Function.update_of_ne other _ _
    have same (x : Nat) (_ : fs.Used x ∨ x = block) (different : x ≠ prev) :
        (fs.take superBlock block prev).next x = Function.update fs.next block none x := by
      by_cases here : x = block
      · rw [here, Function.update_self]
        exact next_take sized inside behind
      · rw [Function.update_of_ne here]
        exact next_take_of_ne here different
    by_cases zero : block = 0
    · refine grown.cut ?_ same
      rw [next_take_prev sized used, if_pos zero]
    · have first : First (Function.update fs.next block none)
          (fun x => fs.Used x ∨ x = block) block := by
        refine ⟨.inr rfl, fun y known leads => ?_⟩
        by_cases here : y = block
        · rw [here, Function.update_self] at leads
          cases leads
        · rw [Function.update_of_ne here] at leads
          exact fresh (forest.closed y block (known.resolve_right here) leads)
      have alone : Linked (Function.update fs.next block none) [block] :=
        ⟨Function.update_self .., trivial⟩
      refine grown.link (.inl used) first alone (by simpa using behind.symm) ?_ same
      rw [next_take_prev sized used, if_neg zero]

end Chains

section Operations

variable (sound : fs.Sound)

include sound

theorem Sound.allocateBlock (follows : prev = noBlock ∨ fs.Used prev) :
    (fs.allocateBlock prev).1.Sound := by
  rcases allocateBlock_cases sound.sized sound.counted prev with
    ⟨block, inside, free, result⟩ | ⟨_, result⟩
  · rw [result]
    exact ⟨sound.sized.take, sound.counted.take sound.sized inside free follows,
      forest_take sound.sized sound.forest inside free follows⟩
  · rwa [result]

theorem Sound.releaseAll (first : First fs.next fs.Used block)
    (linked : Linked fs.next (block :: blocks)) : (fs.releaseAll (block :: blocks)).Sound := by
  have used := sound.forest.used_of_linked first.1 linked
  obtain ⟨sized, counted, _, left, same⟩ :=
    releaseAll_spec sound.sized sound.counted linked.nodup used
  exact ⟨sized, counted, sound.forest.remove first linked left fun x known =>
    same x ((left x).mp known).2⟩

/-- Freeing a list from its first block on ends, and the bookkeeping stays right. -/
theorem Sound.freeBlock (first : First fs.next fs.Used block) (enough : fs.numBlocks ≤ rounds) :
    ∃ blocks, Linked fs.next (block :: blocks) ∧
      fs.freeBlock rounds block = some (fs.releaseAll (block :: blocks)) ∧
      (fs.releaseAll (block :: blocks)).Sound := by
  obtain ⟨blocks, linked⟩ := sound.forest.ends block first.1
  have used := sound.forest.used_of_linked first.1 linked
  have short := length_le linked.nodup used
  rw [List.length_cons] at short
  exact ⟨blocks, linked, freeBlock_eq sound.sized linked used (by omega),
    sound.releaseAll first linked⟩

end Operations

end Orcos.Source.Files.RamFilesystem
