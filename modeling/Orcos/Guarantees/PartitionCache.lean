import Orcos.Lib.Runs
import Orcos.Source.PartitionRequests

/-!
# The block cache after failed transfers

Sectors are read and written and partitions are flushed, while any transfer may
fail. A write counts once it is acknowledged. The cache stays truthful as long
as only write-backs of dropped entries fail: after a failed read the entry
already has its new name, and a flush clears the flag of an entry whatever the
device answers.
-/
namespace Orcos.Guarantees.BlockTransfers
open Lib Lib.Extents Source Source.PartitionCache

/-- What makes the cache transfer blocks. -/
inductive Request (π : Type) (size : Nat)
  | accessSector (p : π) (sectorNum : Nat) (operation : Operation size)
  | flushCache (p : π)

/-- The cache, and the content the device would have if each acknowledged write
had reached it. -/
structure Tracked (π : Type) (size : Nat) where
  cache : Source.PartitionCache π size
  acknowledged : Nat → Sector size

variable {π : Type} {size : Nat} [DecidableEq π] (partitions : π → Partition)

def step (s : Tracked π size) : Request π size → Tracked π size
  | .accessSector p sectorNum operation =>
    let (cache, _, error) := s.cache.accessSector partitions p sectorNum operation
    ⟨cache, if isError error then s.acknowledged
      else operation.applied s.acknowledged ((partitions p).lbaStart + sectorNum)⟩
  | .flushCache p => { s with cache := s.cache.flushCache partitions p }

/-- A block is read without failure when it is not cached, and no write of a
flush fails; the sector is one of the partition and cached for no other one. -/
def Undisturbed (s : Tracked π size) : Request π size → Prop
  | .accessSector p sectorNum _ =>
    sectorNum < (partitions p).sectors ∧
      s.cache.Separate partitions p (blockNum size sectorNum) ∧
      (s.cache.find p (blockNum size sectorNum) = none → s.cache.FetchSucceeds)
  | .flushCache p => s.cache.FlushSucceeds p

variable {partitions} {s : Tracked π size} {p : π} {sectorNum : Nat} {operation : Operation size}

theorem step_coherent (geometry : Geometry size partitions) (request : Request π size)
    (coherent : s.cache.Coherent partitions s.acknowledged)
    (undisturbed : Undisturbed partitions s request) :
    (step partitions s request).cache.Coherent partitions
      (step partitions s request).acknowledged := by
  cases request with
  | accessSector p sectorNum operation =>
    obtain ⟨below, separate, fetch⟩ := undisturbed
    have accessed := accessSector_coherent geometry coherent below separate fetch operation
    revert accessed
    simp only [step]
    rintro (⟨failed, kept⟩ | ⟨fine, _, kept⟩)
    · rw [if_pos failed]
      exact kept
    · rw [fine]
      exact kept
  | flushCache p => exact flushCache_coherent coherent undisturbed

variable (partitions operation) in
/-- A block that is not cached and cannot be read is reported. -/
theorem accessSector_error {cache : Source.PartitionCache π size}
    (missing : cache.find p (blockNum size sectorNum) = none) (failed : ¬cache.FetchSucceeds) :
    isError (cache.accessSector partitions p sectorNum operation).2.2 = true := by
  have cached : isError (cache.cacheBlock partitions p (blockNum size sectorNum)).2 = true := by
    rw [fetchSucceeds_iff partitions] at failed
    obtain ⟨written, read⟩ := Classical.not_imp.mp failed
    obtain ⟨failure, outcome⟩ := Option.ne_none_iff_exists'.mp read
    simp only [cacheBlock, written, Bool.false_eq_true, if_false, BlockDevice.readBlock, outcome]
    exact failure.negative
  simp only [accessSector, missing, cached, if_true]

/-- An acknowledged read returns what was acknowledged before. -/
theorem read_acknowledged (geometry : Geometry size partitions)
    (coherent : s.cache.Coherent partitions s.acknowledged)
    (below : sectorNum < (partitions p).sectors)
    (separate : s.cache.Separate partitions p (blockNum size sectorNum))
    (fine : (s.cache.accessSector partitions p sectorNum .read).2.2 = cOk) :
    (s.cache.accessSector partitions p sectorNum .read).2.1 =
      [s.acknowledged ((partitions p).lbaStart + sectorNum)] := by
  have fetch : s.cache.find p (blockNum size sectorNum) = none → s.cache.FetchSucceeds := by
    intro missing
    by_contra failed
    have reported := accessSector_error partitions .read missing failed
    rw [fine] at reported
    cases reported
  rcases accessSector_coherent geometry coherent below separate fetch .read with
    ⟨failed, _⟩ | ⟨_, read, _⟩
  · have reported : isError cOk = true := fine ▸ failed
    cases reported
  · exact read

/-- A write-back that fails leaves every entry as it was. -/
theorem blocks_of_writeBack_failed {cache : Source.PartitionCache π size}
    (missing : cache.find p (blockNum size sectorNum) = none)
    (failed : isError (writeBack partitions cache.device (cache.block 4)).2 = true) :
    (cache.accessSector partitions p sectorNum operation).1.blocks = cache.blocks ∧
      isError (cache.accessSector partitions p sectorNum operation).2.2 = true := by
  simp only [accessSector, missing, cacheBlock, failed, if_true]
  exact ⟨trivial, trivial⟩

/-- From any coherent cache and for any pattern of failures: after a run in which
no block fails to be read and no flush fails, a read that is acknowledged
returns what was written, each acknowledged sector is on the device or in a
modified entry, a flush that succeeds writes those of its partition, and an
entry whose write-back fails stays as it is. -/
theorem cache_truthful (partitions : π → Partition) (geometry : Geometry size partitions)
    (start : Tracked π size) (coherent : start.cache.Coherent partitions start.acknowledged)
    (requests : List (Request π size))
    (undisturbed : Runs.Admissible (step partitions) (Undisturbed partitions) start requests) :
    let s := Runs.exec (step partitions) start requests
    (∀ p sectorNum, sectorNum < (partitions p).sectors →
      s.cache.Separate partitions p (blockNum size sectorNum) →
      (s.cache.accessSector partitions p sectorNum .read).2.2 = cOk →
      (s.cache.accessSector partitions p sectorNum .read).2.1 =
        [s.acknowledged ((partitions p).lbaStart + sectorNum)]) ∧
    (∀ a, s.cache.device.content a = s.acknowledged a ∨
      ∃ b ∈ s.cache.blocks, b.modified = true ∧ ∃ lba, b.address partitions = some lba ∧
        Inside lba (sectorsPerBlock size) a ∧ b.buffer (a - lba) = s.acknowledged a) ∧
    (∀ p, s.cache.FlushSucceeds p → s.cache.FlushSeparate partitions p →
      ∀ a, Inside (partitions p).lbaStart (partitions p).sectors a →
        (s.cache.flushCache partitions p).device.content a = s.acknowledged a) ∧
    (∀ p sectorNum operation, s.cache.find p (blockNum size sectorNum) = none →
      isError (writeBack partitions s.cache.device (s.cache.block 4)).2 = true →
      (s.cache.accessSector partitions p sectorNum operation).1.blocks = s.cache.blocks ∧
        isError (s.cache.accessSector partitions p sectorNum operation).2.2 = true) := by
  intro s
  have reached : s.cache.Coherent partitions s.acknowledged :=
    Runs.exec_invariant (fun s => s.cache.Coherent partitions s.acknowledged)
      (fun s request coherent => step_coherent geometry request coherent) requests start coherent
      undisturbed
  refine ⟨fun p sectorNum => read_acknowledged geometry reached, reached.accounted, ?_, ?_⟩
  · intro p succeeds separate a
    exact flushCache_stored reached succeeds separate
  · intro p sectorNum operation
    exact blocks_of_writeBack_failed

/-- A device of 512-byte sectors, all of whose bytes are 1. One of its transfers
fails and leaves zeros. -/
def failing (transfer : Nat) : BlockDevice 512 where
  content _ _ := 1
  outcome k := if k = transfer then some ⟨cError, rfl, fun _ _ => 0⟩ else none
  transfers := 0

/-- One partition of a hundred sectors. -/
def single : Unit → Partition := fun _ => ⟨0, 100⟩

theorem single_separate (s : Source.PartitionCache Unit 512) (num : Nat) :
    s.Separate single () num :=
  fun _ _ q _ other => absurd (Subsingleton.elim q ()) other

/-- The first write-back of the modified entry fails, the second one succeeds. -/
theorem cache_truthful_single :
    let start : Tracked Unit 512 := ⟨initial (failing 5), (failing 5).content⟩
    let requests : List (Request Unit 512) :=
      [.accessSector () 0 (.write fun _ => 2), .accessSector () 16 .read,
        .accessSector () 32 .read, .accessSector () 48 .read, .accessSector () 64 .read,
        .accessSector () 80 .read, .accessSector () 80 .read, .flushCache ()]
    let s := Runs.exec (step single) start requests
    ∀ a, s.cache.device.content a = s.acknowledged a ∨
      ∃ b ∈ s.cache.blocks, b.modified = true ∧ ∃ lba, b.address single = some lba ∧
        Inside lba (sectorsPerBlock 512) a ∧ b.buffer (a - lba) = s.acknowledged a := by
  intro start requests
  have geometry : Geometry 512 single :=
    ⟨⟨9, by decide, rfl⟩, fun _ => show 0 + 100 ≤ 2 ^ 32 by decide⟩
  have undisturbed : Runs.Admissible (step single) (Undisturbed single) start requests :=
    ⟨⟨by decide, single_separate _ _, fun _ => by decide +kernel⟩,
      ⟨by decide, single_separate _ _, fun _ => by decide +kernel⟩,
      ⟨by decide, single_separate _ _, fun _ => by decide +kernel⟩,
      ⟨by decide, single_separate _ _, fun _ => by decide +kernel⟩,
      ⟨by decide, single_separate _ _, fun _ => by decide +kernel⟩,
      ⟨by decide, single_separate _ _, fun _ => by decide +kernel⟩,
      ⟨by decide, single_separate _ _, fun _ => by decide +kernel⟩,
      show FlushSucceeds _ () by decide +kernel, trivial⟩
  exact (cache_truthful single geometry start (initial_coherent _) requests
    undisturbed).2.1

/-- A block that could not be read is served from the cache afterwards, and an
entry that could not be flushed is not modified any more. -/
theorem failed_transfers_forgotten :
    (let first := (initial (failing 0)).accessSector single () 0 .read
      let second := first.1.accessSector single () 0 .read
      isError first.2.2 = true ∧ second.2.2 = cOk ∧
        second.2.1.map (fun sector => sector 0) = [0] ∧ (failing 0).content 0 0 = 1) ∧
    (let written := (initial (failing 1)).accessSector single () 0 (.write fun _ => 2)
      let flushed := written.1.flushCache single ()
      let again := flushed.flushCache single ()
      written.2.2 = cOk ∧ flushed.blocks.all (fun b => !b.modified) = true ∧
        again.device.content 0 0 = 0) := by
  decide +kernel

end Orcos.Guarantees.BlockTransfers

/-! ## The block cache of the partitions is transparent

Every call on a partition is compared with the same call on a device without a
cache, on which each write takes effect at once. They answer alike as long as a
call touches no sector that the cache holds for another partition, bytes are
cleared only where nothing is cached and no partition is deleted with a
modified block.
-/
namespace Orcos.Guarantees.PartitionCache
open Lib Lib.Extents Source Source.PartitionCache

/-- A call on a partition. -/
inductive Request (π : Type) (size : Nat)
  | readSectors (p : π) (sectorStart numSectors : Nat)
  | writeSectors (p : π) (sectorStart : Nat) (buffer : Nat → Sector size) (numSectors : Nat)
  | clearBytes (p : π) (sectorStart offset length : Nat)
  | flushCache (p : π)
  | destroy (p : π) (mountedFileSystem : Bool)

/-- The error code, and the sectors that the caller is given or, for a flush,
the ones that the device has for the partition afterwards. -/
abbrev Answer (size : Nat) := ErrorT × List (Sector size)

variable {π : Type} {size : Nat}

/-- The sectors of a partition on the device. -/
def region (partition : Partition) (content : Nat → Sector size) : List (Sector size) :=
  (List.range' partition.lbaStart partition.sectors).map content

/-- A call as the code performs it; the number of bytes that `clearBytes` returns
is not looked at. -/
def perform [DecidableEq π] (partitions : π → Partition) (s : Source.PartitionCache π size) :
    Request π size → Source.PartitionCache π size × Answer size
  | .readSectors p sectorStart numSectors =>
    let (s, read, error) := s.readSectors partitions p sectorStart numSectors
    (s, error, read)
  | .writeSectors p sectorStart buffer numSectors =>
    let (s, error) := s.writeSectors partitions p sectorStart buffer numSectors
    (s, error, [])
  | .clearBytes p sectorStart offset length =>
    ((s.clearBytes partitions p sectorStart offset length).1, cOk, [])
  | .flushCache p =>
    let s := s.flushCache partitions p
    (s, cOk, region (partitions p) s.device.content)
  | .destroy p mountedFileSystem => (s.destroy p mountedFileSystem, cOk, [])

/-- The call on the content the device is to have. -/
def specify (partitions : π → Partition) (expected : Nat → Sector size) :
    Request π size → (Nat → Sector size) × Answer size
  | .readSectors p sectorStart numSectors =>
    let partition := partitions p
    if sectorStart + numSectors < partition.sectors then
      (expected, cOk,
        (List.range' (partition.lbaStart + sectorStart) numSectors).map expected)
    else (expected, cError, [])
  | .writeSectors p sectorStart buffer numSectors =>
    let partition := partitions p
    if sectorStart + numSectors < partition.sectors then
      (overwrite expected (partition.lbaStart + sectorStart) numSectors buffer, cOk, [])
    else (expected, cError, [])
  | .clearBytes p sectorStart offset length =>
    if 1024 < size then (expected, cOk, [])
    else (clear (partitions p) sectorStart offset length expected, cOk, [])
  | .flushCache p => (expected, cOk, region (partitions p) expected)
  | .destroy _ _ => (expected, cOk, [])

/-- What a call must not do for the cache to stay transparent. -/
def Harmless (partitions : π → Partition) (s : Source.PartitionCache π size) :
    Request π size → Prop
  | .readSectors p sectorStart numSectors | .writeSectors p sectorStart _ numSectors =>
    wordAdd sectorStart numSectors < (partitions p).sectors →
      sectorStart + numSectors < 2 ^ 32 ∧ s.SeparateFrom partitions p sectorStart numSectors
  | .clearBytes p sectorStart offset length =>
    size ≤ 1024 → offset ≤ size ∧ offset + length < 2 ^ 32 ∧
      s.ClearSeparate partitions p sectorStart offset length
  | .flushCache p => s.FlushSeparate partitions p
  | .destroy p _ => s.Written p

variable {partitions : π → Partition} {expected : Nat → Sector size}
  {s : Source.PartitionCache π size} {p : π}

variable [DecidableEq π] (geometry : Geometry size partitions) (reliable : s.Reliable)
  (coherent : s.Coherent partitions expected)

include geometry reliable coherent

/-- The code and the device without a cache do the same for this call. -/
def Agrees (partitions : π → Partition) (s : Source.PartitionCache π size)
    (expected : Nat → Sector size) (request : Request π size) : Prop :=
  let after := perform partitions s request
  let required := specify partitions expected request
  (after.1.Coherent partitions required.1 ∧ after.1.Reliable) ∧ after.2 = required.2

theorem readSectors_agrees {sectorStart numSectors : Nat}
    (harmless : Harmless partitions s (.readSectors p sectorStart numSectors)) :
    Agrees partitions s expected (.readSectors p sectorStart numSectors) := by
  simp only [Agrees, perform, specify, readSectors]
  by_cases accepted : wordAdd sectorStart numSectors < (partitions p).sectors
  · obtain ⟨word, separate⟩ := harmless accepted
    rw [wordAdd_eq word] at accepted
    obtain ⟨fine, read, kept, reliable⟩ := readLoop_reliable geometry numSectors reliable coherent
      (show sectorStart + numSectors ≤ (partitions p).sectors by omega) separate
    simp only [wordAdd_eq word, accepted, if_true]
    exact ⟨⟨kept, reliable⟩, by rw [fine, read]⟩
  · have rejected : ¬sectorStart + numSectors < (partitions p).sectors := by
      have := Nat.mod_le (sectorStart + numSectors) (2 ^ 32)
      rw [wordAdd] at accepted
      omega
    simp only [accepted, rejected, if_false]
    exact ⟨⟨coherent, reliable⟩, trivial⟩

theorem writeSectors_agrees {sectorStart numSectors : Nat} {buffer : Nat → Sector size}
    (harmless : Harmless partitions s (.writeSectors p sectorStart buffer numSectors)) :
    Agrees partitions s expected (.writeSectors p sectorStart buffer numSectors) := by
  simp only [Agrees, perform, specify, writeSectors]
  by_cases accepted : wordAdd sectorStart numSectors < (partitions p).sectors
  · obtain ⟨word, separate⟩ := harmless accepted
    rw [wordAdd_eq word] at accepted
    obtain ⟨fine, kept, reliable⟩ := writeLoop_reliable geometry numSectors reliable coherent
      (show sectorStart + numSectors ≤ (partitions p).sectors by omega) separate buffer
    simp only [wordAdd_eq word, accepted, if_true]
    exact ⟨⟨kept, reliable⟩, by rw [fine]⟩
  · have rejected : ¬sectorStart + numSectors < (partitions p).sectors := by
      have := Nat.mod_le (sectorStart + numSectors) (2 ^ 32)
      rw [wordAdd] at accepted
      omega
    simp only [accepted, rejected, if_false]
    exact ⟨⟨coherent, reliable⟩, trivial⟩

theorem clearBytes_agrees {sectorStart offset length : Nat}
    (harmless : Harmless partitions s (.clearBytes p sectorStart offset length)) :
    Agrees partitions s expected (.clearBytes p sectorStart offset length) := by
  have outcome := clearBytes_outcome partitions s p sectorStart offset length
  have kept : (s.clearBytes partitions p sectorStart offset length).1.Reliable :=
    fun k => by rw [outcome, reliable k]
  simp only [Agrees, perform, specify]
  by_cases large : 1024 < size
  · simp only [large, if_true, clearBytes]
    exact ⟨⟨coherent, reliable⟩, trivial⟩
  · obtain ⟨small, word, separate⟩ := harmless (Nat.le_of_not_lt large)
    simp only [large, if_false, and_true]
    exact ⟨clearBytes_coherent geometry reliable coherent small word (Nat.le_of_not_lt large)
      separate, kept⟩

omit geometry in
theorem flushCache_agrees (harmless : Harmless partitions s (.flushCache p)) :
    Agrees partitions s expected (.flushCache p) := by
  have succeeds : s.FlushSucceeds p := fun k _ => reliable _
  have outcome : (s.flushCache partitions p).device.outcome = s.device.outcome :=
    flushBlocks_outcome s.device s.blocks
  simp only [Agrees, perform, specify]
  refine ⟨⟨flushCache_coherent coherent succeeds, fun k => by rw [outcome, reliable k]⟩, ?_⟩
  have same : region (partitions p) (s.flushCache partitions p).device.content =
      region (partitions p) expected := by
    refine List.map_congr_left fun a member => ?_
    rw [List.mem_range'_1] at member
    exact flushCache_stored coherent succeeds harmless member
  rw [same]

omit geometry in
theorem destroy_agrees {mountedFileSystem : Bool}
    (harmless : Harmless partitions s (.destroy p mountedFileSystem)) :
    Agrees partitions s expected (.destroy p mountedFileSystem) := by
  simp only [Agrees, perform, specify]
  refine ⟨⟨destroy_coherent coherent harmless mountedFileSystem, ?_⟩, trivial⟩
  rw [destroy]
  split
  · exact reliable
  · exact reliable

/-- Each harmless call agrees, whatever the cache holds. -/
theorem perform_agrees {request : Request π size} (harmless : Harmless partitions s request) :
    Agrees partitions s expected request := by
  cases request with
  | readSectors => exact readSectors_agrees geometry reliable coherent harmless
  | writeSectors => exact writeSectors_agrees geometry reliable coherent harmless
  | clearBytes => exact clearBytes_agrees geometry reliable coherent harmless
  | flushCache => exact flushCache_agrees reliable coherent harmless
  | destroy => exact destroy_agrees reliable coherent harmless

omit geometry reliable coherent

/-- The state of the cache after the calls. -/
def after (partitions : π → Partition) (device : BlockDevice size)
    (requests : List (Request π size)) : Source.PartitionCache π size :=
  Runs.exec (fun s request => (perform partitions s request).1) (initial device) requests

/-- The content the device is to have after the calls. -/
def required (partitions : π → Partition) (device : BlockDevice size)
    (requests : List (Request π size)) : Nat → Sector size :=
  Runs.exec (fun expected request => (specify partitions expected request).1) device.content
    requests

/-- A device of 512-byte sectors that never fails, all of whose bytes are 1. -/
def ones : BlockDevice 512 := ⟨fun _ _ => 1, fun _ => none, 0⟩

/-- One partition of a hundred sectors. -/
def whole : Unit → Partition := fun _ => ⟨0, 100⟩

theorem whole_geometry : Geometry 512 whole :=
  ⟨⟨9, by decide, rfl⟩, fun _ => show 0 + 100 ≤ 2 ^ 32 by decide⟩

/-- With one partition only the clearing of bytes can do harm. -/
theorem whole_separate (s : Source.PartitionCache Unit 512) (sector n : Nat) :
    s.SeparateFrom whole () sector n :=
  fun _ _ _ _ _ q _ other => absurd (Subsingleton.elim q ()) other

end Orcos.Guarantees.PartitionCache
