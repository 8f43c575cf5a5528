import Orcos.Source.Files.RamFilesystem

/-!
# Blocks of the ram file system

Source: src/source/filesystem/ram/RamFilesystem.cc, `RamFilesystem`, `allocateBlock`,
`freeBlock`.

The counters, the hints and the chains agree after every run of allocations behind
blocks in use and of releases from first blocks on. A release of a block that is free
already, or of one that another block leads to, is not checked.

A region of more than two pages has room for its superblocks, for the chain and for the
blocks; a superblock takes four bytes for up to 128 blocks.
-/
namespace Orcos.Guarantees.RamBlocks
open Lib.Successors Source Source.Files Source.Files.RamFilesystem

inductive Call
  | allocateBlock (prev : Nat)
  | freeBlock (blockNum : Nat)

variable {rounds start size : Nat} {fs fs' : RamFilesystem} {calls : List Call} {call : Call}

def perform (rounds : Nat) (fs : RamFilesystem) : Call → Option RamFilesystem
  | .allocateBlock prev => some (fs.allocateBlock prev).1
  | .freeBlock blockNum => fs.freeBlock rounds blockNum

/-- The state after the calls, when each of them returns. -/
def performAll (rounds : Nat) : RamFilesystem → List Call → Option RamFilesystem
  | fs, [] => some fs
  | fs, call :: calls => (perform rounds fs call).bind fun fs' => performAll rounds fs' calls

/-- A new block is put behind none or behind a block in use; a list is freed from its
first block on. -/
def Allowed (fs : RamFilesystem) : Call → Prop
  | .allocateBlock prev => prev = noBlock ∨ fs.Used prev
  | .freeBlock blockNum => blockNum = noBlock ∨ First fs.next fs.Used blockNum

/-- Every call is allowed in the state it is made in. -/
def Conforming (rounds : Nat) : RamFilesystem → List Call → Prop
  | _, [] => True
  | fs, call :: calls =>
    Allowed fs call ∧ ∀ fs', perform rounds fs call = some fs' → Conforming rounds fs' calls

/-- The counters of the superblocks, the total and the hints agree with the chain. A
superblock without blocks has no hint to speak of. -/
structure Bookkept (fs : RamFilesystem) : Prop where
  counts : ∀ superBlock < fs.superBlocks,
    (fs.superBlockChain superBlock).freeBlocks = fs.freeIn superBlock
  total : fs.freeBlocks =
    ∑ superBlock ∈ Finset.range fs.superBlocks, (fs.superBlockChain superBlock).freeBlocks
  hints : ∀ superBlock < fs.superBlocks, (fs.superBlockChain superBlock).nextFreeBlock ≠ 255 →
    superBlock * numBlocksPerSuperblock < fs.numBlocks →
    superBlock * numBlocksPerSuperblock + (fs.superBlockChain superBlock).nextFreeBlock <
        fs.numBlocks ∧
      (fs.superBlockChain superBlock).nextFreeBlock < numBlocksPerSuperblock ∧
      fs.Free (superBlock * numBlocksPerSuperblock +
        (fs.superBlockChain superBlock).nextFreeBlock)

/-- The chains of the blocks in use end without a repetition, and those of two first
blocks share no block. -/
structure Apart (fs : RamFilesystem) : Prop where
  acyclic : ∀ block, fs.Used block → ∃ blocks, Linked fs.next (block :: blocks) ∧
    (block :: blocks).Nodup ∧ ∀ x ∈ block :: blocks, fs.Used x
  disjoint : ∀ block block' blocks blocks', First fs.next fs.Used block →
    First fs.next fs.Used block' → block ≠ block' → Linked fs.next (block :: blocks) →
    Linked fs.next (block' :: blocks') → List.Disjoint (block :: blocks) (block' :: blocks')

theorem bookkept_of_sound (sound : fs.Sound) : Bookkept fs := by
  refine ⟨sound.counted.counts, sound.counted.total, fun superBlock inside known some_ => ?_⟩
  have share := sound.sized.shares superBlock inside
  have blocks : (fs.superBlockChain superBlock).numBlocks ≠ 0 := by
    unfold numBlocksPerSuperblock at share some_
    omega
  obtain ⟨less, free⟩ := sound.counted.hints superBlock inside known blocks
  refine ⟨?_, ?_, free⟩
  · omega
  · omega

theorem apart_of_sound (sound : fs.Sound) : Apart fs := by
  refine ⟨fun block used => ?_, fun block block' blocks blocks' first first' other linked
    linked' => sound.forest.disjoint first first' other linked linked'⟩
  obtain ⟨blocks, linked⟩ := sound.forest.ends block used
  exact ⟨blocks, linked, linked.nodup, sound.forest.used_of_linked used linked⟩

theorem numBlocks_allocateBlock (fs : RamFilesystem) (prev : Nat) :
    (fs.allocateBlock prev).1.numBlocks = fs.numBlocks := by
  unfold allocateBlock
  split <;> rfl

/-- An allowed call returns and keeps the bookkeeping right. -/
theorem perform_sound (sound : fs.Sound) (allowed : Allowed fs call)
    (enough : fs.numBlocks ≤ rounds) :
    ∃ fs', perform rounds fs call = some fs' ∧ fs'.Sound ∧ fs'.numBlocks = fs.numBlocks := by
  cases call with
  | allocateBlock prev =>
    exact ⟨_, rfl, sound.allocateBlock allowed, numBlocks_allocateBlock fs prev⟩
  | freeBlock blockNum =>
    rcases allowed with rfl | first
    · exact ⟨fs, by simp [perform, freeBlock], sound, rfl⟩
    · obtain ⟨blocks, linked, freed, sound'⟩ := sound.freeBlock first enough
      have used := sound.forest.used_of_linked first.1 linked
      exact ⟨_, freed, sound',
        (releaseAll_spec sound.sized sound.counted linked.nodup used).2.2.1⟩

theorem performAll_sound (sound : fs.Sound) (conforming : Conforming rounds fs calls)
    (enough : fs.numBlocks ≤ rounds) :
    ∃ fs', performAll rounds fs calls = some fs' ∧ fs'.Sound := by
  induction calls generalizing fs with
  | nil => exact ⟨fs, rfl, sound⟩
  | cons call calls ih =>
    obtain ⟨allowed, later⟩ := conforming
    obtain ⟨next, result, sound', size⟩ := perform_sound sound allowed enough
    obtain ⟨last, results, sound''⟩ := ih sound' (later next result) (by omega)
    exact ⟨last, by rw [performAll, result]; exact results, sound''⟩

/-- Every conforming run from the fresh file system returns and leaves the counters,
the hints and the chains in agreement. -/
theorem bookkept_apart (start size rounds : Nat) (calls : List Call)
    (enough : (construct start size).numBlocks ≤ rounds)
    (conforming : Conforming rounds (construct start size) calls) :
    ∃ fs, performAll rounds (construct start size) calls = some fs ∧ Bookkept fs ∧ Apart fs := by
  obtain ⟨fs, result, sound⟩ := performAll_sound (sound_construct start size) conforming enough
  exact ⟨fs, result, bookkept_of_sound sound, apart_of_sound sound⟩

/-- Two blocks of a list are taken, and the list is freed. -/
theorem bookkept_apart_twoBlocks :
    ∃ fs, performAll 13 (construct 0 65536) [.allocateBlock noBlock, .allocateBlock 0,
      .freeBlock 0] = some fs ∧ Bookkept fs ∧ Apart fs := by
  refine bookkept_apart 0 65536 13 _ (by decide) ⟨.inl rfl, ?_⟩
  rintro _ ⟨⟩
  refine ⟨.inr ⟨by decide, by decide⟩, ?_⟩
  rintro _ ⟨⟩
  refine ⟨.inr ⟨⟨by decide, by decide⟩, ?_⟩, fun _ _ => trivial⟩
  intro block used leads
  exact ne_zero_of_next leads rfl

/-- Freeing a block that is free already is counted. -/
theorem free_twice : ¬∀ (start size rounds : Nat) (calls : List Call) (fs : RamFilesystem),
    performAll rounds (construct start size) calls = some fs → Bookkept fs := by
  intro always
  have counted := (always 0 65536 1 [.freeBlock 0] _ rfl).counts 0 (by decide)
  revert counted
  decide +kernel

/-- What the constructor lays out: the records of the superblocks, the entries of the chain
and the blocks. -/
inductive Part
  | superBlock (i : Nat)
  | chainEntry (i : Nat)
  | block (i : Nat)

namespace Part

/-- The part is one of those of a region. -/
def Of (start size : Nat) : Part → Prop
  | .superBlock i => i < (construct start size).superBlocks
  | .chainEntry i => i < (construct start size).numBlocks
  | .block i => i < (construct start size).numBlocks

def base (start size : Nat) : Part → Nat
  | .superBlock i => start + 4 * i
  | .chainEntry i => blockChainAddress start size + 4 * i
  | .block i => (construct start size).firstBlock + ramdiskBlockSize * i

def length : Part → Nat
  | .superBlock _ => 4
  | .chainEntry _ => 4
  | .block _ => ramdiskBlockSize

end Part

/-- The parts lie in the region and do not overlap. -/
structure LaidOut (start size : Nat) : Prop where
  inside : ∀ part : Part, part.Of start size →
    start ≤ part.base start size ∧ part.base start size + part.length ≤ start + size
  apart : ∀ part other : Part, part.Of start size → other.Of start size → part ≠ other →
    part.base start size + part.length ≤ other.base start size ∨
      other.base start size + other.length ≤ part.base start size

/-- The blocks, and the pages with the records of the superblocks, are at most the pages of
the region. -/
def Counted (start size : Nat) : Prop :=
  (construct start size).numBlocks + (4 * (construct start size).superBlocks + 4095) / 4096 ≤
    size / 4096

/-- The last address is right, and nothing is subtracted from less. -/
structure NoUnderflow (start size : Nat) : Prop where
  last : wordSub (wordAdd start size) 1 = start + size - 1
  region : start ≤ wordSub (wordAdd start size) 1
  chains : 4 * ((size - 1) / ramdiskBlockSize) / ramdiskBlockSize + 1 +
    ((size - 1) / ramdiskBlockSize / numBlocksPerSuperblock + 1) * 4 / ramdiskBlockSize + 1 ≤
      (size - 1) / ramdiskBlockSize
  superBlocks : 1 ≤ (construct start size).superBlocks
  rest : ((construct start size).superBlocks - 1) * numBlocksPerSuperblock ≤
    (construct start size).numBlocks

theorem last_eq (some_ : 0 < size) (fits : start + size ≤ 2 ^ 32) :
    wordSub (wordAdd start size) 1 = start + size - 1 := by
  unfold wordSub wordAdd
  omega

theorem numBlocks_eq (large : 2 * 4096 < size) (fits : start + size ≤ 2 ^ 32) :
    (construct start size).numBlocks =
      (size - 1) / 4096 - ((size - 1) / 4096 / 1024 + 1) -
        (((size - 1) / 4096 / 128 + 1) / 1024 + 1) := by
  have pages : wordSub (wordSub (wordAdd start size) 1) start = size - 1 := by
    rw [last_eq (by omega) fits]
    unfold wordSub
    omega
  have first : wordSub ((size - 1) / 4096) (4 * ((size - 1) / 4096) / 4096 + 1) =
      (size - 1) / 4096 - ((size - 1) / 4096 / 1024 + 1) := by
    rw [wordSub_eq (by omega) (by omega)]
    omega
  change blockChainEntries start size = _
  simp only [blockChainEntries, ramdiskBlockSize, numBlocksPerSuperblock, pages, first]
  rw [wordSub_eq (by omega) (by omega)]
  omega

theorem superBlocks_eq (start size : Nat) : (construct start size).superBlocks =
    (construct start size).numBlocks / 128 + 1 := rfl

/-- The chain starts at the page behind the records, the blocks at the page behind the
chain, and the last page of the region stays free. -/
theorem addresses (aligned : 4096 ∣ start) (large : 2 * 4096 < size)
    (fits : start + size ≤ 2 ^ 32) :
    blockChainAddress start size =
        start + (4 * (construct start size).superBlocks + 4095) / 4096 * 4096 ∧
      (construct start size).firstBlock = blockChainAddress start size +
        (4 * (construct start size).numBlocks + 4095) / 4096 * 4096 ∧
      (construct start size).firstBlock + 4096 * (construct start size).numBlocks ≤
        start + (size - 1) / 4096 * 4096 := by
  have blocks := numBlocks_eq large fits
  have superBlocks : (construct start size).superBlocks =
    (construct start size).numBlocks / 128 + 1 := rfl
  have chain : blockChainAddress start size =
      start + (4 * (construct start size).superBlocks + 4095) / 4096 * 4096 := by
    unfold blockChainAddress ramdiskBlockSize
    rw [alignCeil_eq (n := 4096) (k := 12) (by omega) (by decide) (by decide)]
    omega
  have first : (construct start size).firstBlock = blockChainAddress start size +
      (4 * (construct start size).numBlocks + 4095) / 4096 * 4096 := by
    change alignCeil (wordAdd (blockChainAddress start size)
      (4 * (construct start size).numBlocks % 2 ^ 32)) ramdiskBlockSize = _
    unfold ramdiskBlockSize
    rw [wordAdd_eq (by omega), Nat.mod_eq_of_lt (by omega),
      alignCeil_eq (n := 4096) (k := 12) (by omega) (by decide) (by decide)]
    omega
  have fewer : (construct start size).numBlocks / 128 ≤ (size - 1) / 4096 / 128 :=
    Nat.div_le_div_right (by omega)
  have records : (4 * (construct start size).superBlocks + 4095) / 4096 ≤
      ((size - 1) / 4096 / 128 + 1) / 1024 + 1 := by omega
  have entries : (4 * (construct start size).numBlocks + 4095) / 4096 ≤
      (size - 1) / 4096 / 1024 + 1 := by omega
  refine ⟨chain, first, ?_⟩
  rw [first, chain]
  omega

theorem laidOut (aligned : 4096 ∣ start) (large : 2 * 4096 < size)
    (fits : start + size ≤ 2 ^ 32) : LaidOut start size := by
  obtain ⟨chain, first, last⟩ := addresses aligned large fits
  have pages := Nat.div_mul_le_self (size - 1) 4096
  constructor
  · intro part of
    cases part <;>
      simp only [Part.Of, Part.base, Part.length, ramdiskBlockSize] at of ⊢ <;> omega
  · intro part other of ofOther different
    cases part <;> cases other <;>
      simp only [Part.Of, Part.base, Part.length, ramdiskBlockSize, ne_eq, Part.superBlock.injEq,
        Part.chainEntry.injEq, Part.block.injEq] at of ofOther different ⊢ <;> omega

theorem counted (large : 2 * 4096 < size) (fits : start + size ≤ 2 ^ 32) :
    Counted start size := by
  have blocks := numBlocks_eq large fits
  have superBlocks := superBlocks_eq start size
  unfold Counted
  omega

theorem noUnderflow (large : 2 * 4096 < size) (fits : start + size ≤ 2 ^ 32) :
    NoUnderflow start size where
  last := last_eq (by omega) fits
  region := by
    rw [last_eq (by omega) fits]
    omega
  chains := by
    unfold ramdiskBlockSize numBlocksPerSuperblock
    omega
  superBlocks := by
    rw [superBlocks_eq]
    exact Nat.succ_pos _
  rest := by
    rw [superBlocks_eq, Nat.add_sub_cancel]
    exact Nat.div_mul_le_self _ _

/-- A region of more than two pages that starts at a page is laid out without an overlap,
counted right and without an underflow. -/
theorem construct_laidOut (start size : Nat) (aligned : 4096 ∣ start) (large : 2 * 4096 < size)
    (fits : start + size ≤ 2 ^ 32) :
    LaidOut start size ∧ Counted start size ∧ NoUnderflow start size :=
  ⟨laidOut aligned large fits, counted large fits, noUnderflow large fits⟩

theorem construct_laidOut_threePages :
    LaidOut 0x80000000 (3 * 4096) ∧ Counted 0x80000000 (3 * 4096) ∧
      NoUnderflow 0x80000000 (3 * 4096) :=
  construct_laidOut 0x80000000 (3 * 4096) (by decide) (by decide) (by decide)

/-- In a region of 387 pages there are 384 blocks with four superblocks. -/
theorem superBlocks_beyond : ¬∀ start size : Nat, 4096 ∣ start → 4096 ∣ size → 0 < size →
    start + size ≤ 2 ^ 32 →
      (construct start size).numBlocks + (construct start size).superBlocks ≤ size / 4096 := by
  intro all
  exact absurd (all 0x80000000 (387 * 4096) (by decide) (by decide) (by decide) (by decide))
    (by decide)

end Orcos.Guarantees.RamBlocks
