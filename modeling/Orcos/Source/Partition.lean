import Mathlib.Data.List.Basic
import Mathlib.Data.List.Perm.Basic
import Mathlib.Data.List.Pairwise
import Orcos.Lib.Extents
import Orcos.Source.Alignment

/-!
# Partitions and their block cache

Source: src/source/filesystem/Partition.cc and Partition.hh;
src/source/hal/BlockDeviceDriver.hh for the two transfers.

The partitions share one device, whose sectors have `size` bytes. The outcome of
each transfer is decided beforehand, in the order in which they are made. The
name, the number and the resource part of a partition have no effect on data
and are left out.
-/
namespace Orcos.Source
open Lib.Extents

/-- `BLOCK_SIZE`. -/
def blockSize : Nat := 4096 * 2

def sectorsPerBlock (size : Nat) : Nat := blockSize / size

abbrev Sector (size : Nat) := Fin size → BitVec 8

/-- A transfer that fails returns an error and leaves something in the sectors
it was to fill. -/
structure Failure (size : Nat) where
  error : ErrorT
  negative : isError error
  left : Nat → Sector size

structure BlockDevice (size : Nat) where
  content : Nat → Sector size
  outcome : Nat → Option (Failure size)
  transfers : Nat

namespace BlockDevice

variable {size : Nat} (d : BlockDevice size)

def readBlock (blockNum : Nat) (buffer : Nat → Sector size) (length : Nat) :
    BlockDevice size × (Nat → Sector size) × ErrorT :=
  let d' := { d with transfers := d.transfers + 1 }
  match d.outcome d.transfers with
  | none => (d', overwrite buffer 0 length fun i => d.content (blockNum + i), cOk)
  | some failure => (d', overwrite buffer 0 length failure.left, failure.error)

def writeBlock (blockNum : Nat) (buffer : Nat → Sector size) (length : Nat) :
    BlockDevice size × ErrorT :=
  let d' := { d with transfers := d.transfers + 1 }
  match d.outcome d.transfers with
  | none => ({ d' with content := overwrite d.content blockNum length buffer }, cOk)
  | some failure =>
    ({ d' with content := overwrite d.content blockNum length failure.left }, failure.error)

end BlockDevice

structure Partition where
  lbaStart : Nat
  sectors : Nat

/-- `tPartitionBlockCache`; `blockStart` is -1 as a word in an unused entry. -/
structure CacheBlock (π : Type) (size : Nat) where
  buffer : Nat → Sector size
  blockStart : Nat
  modified : Bool
  pPartition : Option π

/-- `CachedBlocks` in the order of `BlockCacheList`, the last one used first. -/
structure PartitionCache (π : Type) (size : Nat) where
  device : BlockDevice size
  blocks : List (CacheBlock π size)
  five : blocks.length = 5

inductive Operation (size : Nat)
  | read
  | write (buffer : Sector size)

namespace PartitionCache

variable {π : Type} {size : Nat}

/-- `Partition::initialize`. -/
def initial (device : BlockDevice size) : PartitionCache π size where
  device := device
  blocks := List.replicate 5 ⟨fun _ _ => 0, 2 ^ 32 - 1, false, none⟩
  five := List.length_replicate

def block (s : PartitionCache π size) (litem : Fin 5) : CacheBlock π size :=
  s.blocks.get (litem.cast s.five.symm)

def setBlock (s : PartitionCache π size) (litem : Fin 5) (b : CacheBlock π size) :
    PartitionCache π size :=
  { s with blocks := s.blocks.set litem b, five := by rw [List.length_set, s.five] }

/-- `litem->remove()` and `BlockCacheList->addHead(litem)`. -/
def putAtHead (s : PartitionCache π size) (litem : Fin 5) : PartitionCache π size :=
  { s with
    blocks := s.block litem :: s.blocks.eraseIdx litem
    five := by
      have := litem.isLt
      rw [List.length_cons, List.length_eraseIdx_of_lt (by rw [s.five]; omega), s.five] }

/-- The number of the first sector of the block that holds a sector. -/
def blockNum (size sectorNum : Nat) : Nat := alignFloor sectorNum (sectorsPerBlock size)

/-- The entry of a block, searched from the head on. -/
def find [DecidableEq π] (s : PartitionCache π size) (p : π) (num : Nat) : Option (Fin 5) :=
  (s.blocks.findFinIdx? fun b => b.pPartition = some p && b.blockStart = num).map
    (Fin.cast s.five)

variable (partitions : π → Partition)

/-- The write-back of an entry that is to be dropped. -/
def writeBack (device : BlockDevice size) (b : CacheBlock π size) :
    BlockDevice size × ErrorT :=
  match b.pPartition with
  | some q =>
    if b.modified then
      device.writeBlock (wordAdd (partitions q).lbaStart b.blockStart) b.buffer
        (sectorsPerBlock size)
    else (device, cOk)
  | none => (device, cOk)

/-- The part of `accessSector` for a block that is not cached. The entry is
taken over before the block is read, and stays so when the read fails. -/
def cacheBlock (s : PartitionCache π size) (p : π) (num : Nat) : PartitionCache π size × ErrorT :=
  let b := s.block 4
  let (device, error) := writeBack partitions s.device b
  if isError error then ({ s with device := device }, error)
  else
    let (device, buffer, error) :=
      device.readBlock (wordAdd (partitions p).lbaStart num) b.buffer (sectorsPerBlock size)
    (({ s with device := device }).setBlock 4 ⟨buffer, num, false, some p⟩, error)

/-- The part of `accessSector` for a block found in the cache. -/
def serve (s : PartitionCache π size) (litem : Fin 5) (offset : Nat) :
    Operation size → PartitionCache π size × List (Sector size)
  | .read => (s.putAtHead litem, [(s.block litem).buffer offset])
  | .write buffer =>
    let b := s.block litem
    ((s.setBlock litem { b with
      modified := true
      buffer := Function.update b.buffer offset buffer }).putAtHead litem, [])

variable [DecidableEq π]

/-- Returns the sector that a read copies to the caller's buffer. -/
def accessSector (s : PartitionCache π size) (p : π) (sectorNum : Nat)
    (operation : Operation size) : PartitionCache π size × List (Sector size) × ErrorT :=
  let num := blockNum size sectorNum
  let offset := sectorNum &&& (sectorsPerBlock size - 1)
  match s.find p num with
  | some litem =>
    let (s, read) := s.serve litem offset operation
    (s, read, cOk)
  | none =>
    let (s, error) := s.cacheBlock partitions p num
    if isError error then (s, [], error)
    else
      let (s, read) := s.serve 4 offset operation
      (s, read, cOk)

/-- The walk of `flushCache`; the flag is cleared first and the result of the
transfer is not looked at. -/
def flushBlocks (p : π) (device : BlockDevice size) :
    List (CacheBlock π size) → BlockDevice size × List (CacheBlock π size)
  | [] => (device, [])
  | b :: bs =>
    if b.pPartition = some p ∧ b.modified then
      let device := (device.writeBlock (wordAdd (partitions p).lbaStart b.blockStart) b.buffer
        (sectorsPerBlock size)).1
      let (device, bs) := flushBlocks p device bs
      (device, { b with modified := false } :: bs)
    else
      let (device, bs) := flushBlocks p device bs
      (device, b :: bs)

theorem length_flushBlocks (p : π) (device : BlockDevice size) (bs : List (CacheBlock π size)) :
    (flushBlocks partitions p device bs).2.length = bs.length := by
  induction bs generalizing device with
  | nil => rfl
  | cons b bs ih =>
    rw [flushBlocks]
    split
    · simp only [List.length_cons, ih]
    · simp only [List.length_cons, ih]

def flushCache (s : PartitionCache π size) (p : π) : PartitionCache π size where
  device := (flushBlocks partitions p s.device s.blocks).1
  blocks := (flushBlocks partitions p s.device s.blocks).2
  five := by rw [length_flushBlocks, s.five]

/-- The loop of `readSectors` over the `n` sectors from `sector` on. -/
def readLoop (p : π) : Nat → PartitionCache π size → Nat →
    PartitionCache π size × List (Sector size) × ErrorT
  | 0, s, _ => (s, [], cOk)
  | n + 1, s, sector =>
    let (s, read, error) := s.accessSector partitions p sector .read
    if isError error then (s, read, error)
    else
      let (s, more, error) := readLoop p n s (sector + 1)
      (s, read ++ more, error)

/-- The sum is a word. -/
def readSectors (s : PartitionCache π size) (p : π) (sectorStart numSectors : Nat) :
    PartitionCache π size × List (Sector size) × ErrorT :=
  if wordAdd sectorStart numSectors < (partitions p).sectors then
    readLoop partitions p numSectors s sectorStart
  else (s, [], cError)

/-- The loop of `writeSectors`; `buffer` is what remains of the caller's. -/
def writeLoop (p : π) : Nat → PartitionCache π size → Nat → (Nat → Sector size) →
    PartitionCache π size × ErrorT
  | 0, s, _, _ => (s, cOk)
  | n + 1, s, sector, buffer =>
    let (s, _, error) := s.accessSector partitions p sector (.write (buffer 0))
    if isError error then (s, error)
    else writeLoop p n s (sector + 1) fun i => buffer (i + 1)

def writeSectors (s : PartitionCache π size) (p : π) (sectorStart : Nat)
    (buffer : Nat → Sector size) (numSectors : Nat) : PartitionCache π size × ErrorT :=
  if wordAdd sectorStart numSectors < (partitions p).sectors then
    writeLoop partitions p numSectors s sectorStart buffer
  else (s, cError)

/-- `memset(buffer + offset, 0, len)`. -/
def clearSector (buffer : Sector size) (offset len : Nat) : Sector size := fun i =>
  if offset ≤ i ∧ i < offset + len then 0 else buffer i

/-- The body of the loop of `clearBytes`. The static buffer is either filled by
the read or cleared as a whole, so its former content is of no account. -/
def clearStep (device : BlockDevice size) (lba offset len : Nat) : BlockDevice size :=
  let buffer : Nat → Sector size := fun _ _ => 0
  let (device, buffer) :=
    if 0 < offset ∨ len < size then
      let (device, buffer, _) := device.readBlock lba buffer 1
      (device, buffer)
    else (device, buffer)
  (device.writeBlock lba (fun _ => clearSector (buffer 0) offset len) 1).1

/-- The loop of `clearBytes`, with the number of sectors up to the end of the
partition. It uses the device directly. -/
def clearLoop (lbaStart : Nat) : Nat → BlockDevice size → Nat → Nat → Nat → Nat →
    BlockDevice size × Nat
  | 0, device, _, _, _, bytesCleared => (device, bytesCleared)
  | remaining + 1, device, sector, offset, length, bytesCleared =>
    if length = 0 then (device, bytesCleared)
    else
      let len := if size < wordAdd offset length then size - offset else length
      clearLoop lbaStart remaining (clearStep device (wordAdd lbaStart sector) offset len)
        (sector + 1) 0 (length - len) (bytesCleared + len)

def clearBytes (s : PartitionCache π size) (p : π) (sectorStart offset length : Nat) :
    PartitionCache π size × ErrorT :=
  if 1024 < size then (s, cError)
  else
    let (sector, offset) :=
      if size < offset then (wordAdd sectorStart (size / offset), offset % size)
      else (sectorStart, offset)
    let sectors := (partitions p).sectors
    if sector < sectors then
      let (device, bytesCleared) := clearLoop (partitions p).lbaStart (sectors - sector) s.device
        sector offset length 0
      ({ s with device := device }, (BitVec.ofNat 32 bytesCleared).toInt)
    else (s, cError)

/-- The walk of the destructor: the first entry of the partition is reset, and
then the walk ends. -/
def resetBlock (p : π) : List (CacheBlock π size) → List (CacheBlock π size)
  | [] => []
  | b :: bs =>
    if b.pPartition = some p then
      { b with pPartition := none, blockStart := 2 ^ 32 - 1, modified := false } :: bs
    else b :: resetBlock p bs

theorem length_resetBlock (p : π) (bs : List (CacheBlock π size)) :
    (resetBlock p bs).length = bs.length := by
  induction bs with
  | nil => rfl
  | cons b bs ih =>
    rw [resetBlock]
    split
    · rfl
    · rw [List.length_cons, ih, List.length_cons]

/-- `Partition::~Partition`; only with a mounted file system is the cache looked at. -/
def destroy (s : PartitionCache π size) (p : π) (mountedFileSystem : Bool) :
    PartitionCache π size :=
  if mountedFileSystem then
    { s with blocks := resetBlock p s.blocks, five := by rw [length_resetBlock, s.five] }
  else s

end PartitionCache

end Orcos.Source

/-!
What the entries of the block cache have to do with the device.

`expected` is the content the device should have, one value for each of its
sectors. The invariant relates it to the entries and to the content the device
does have; each part of `Partition.cc` that touches an entry keeps it.
-/
namespace Orcos.Source
open Lib.Extents

/-- The sectors of the device are of a size that divides a block, and the
partitions lie on the device. -/
structure Geometry {π : Type} (size : Nat) (partitions : π → Partition) : Prop where
  sectorSize : ∃ bits ≤ 13, size = 2 ^ bits
  inside : ∀ p, (partitions p).lbaStart + (partitions p).sectors ≤ 2 ^ 32

namespace Geometry

variable {π : Type} {size : Nat} {partitions : π → Partition}

theorem sectorsPerBlock_eq (geometry : Geometry size partitions) :
    ∃ bits ≤ 13, sectorsPerBlock size = 2 ^ bits := by
  obtain ⟨bits, bound, rfl⟩ := geometry.sectorSize
  refine ⟨13 - bits, by omega, ?_⟩
  rw [sectorsPerBlock, show blockSize = 2 ^ 13 from rfl, Nat.pow_div bound (by decide)]

theorem sectorsPerBlock_pos (geometry : Geometry size partitions) : 0 < sectorsPerBlock size := by
  obtain ⟨bits, _, power⟩ := geometry.sectorsPerBlock_eq
  rw [power]
  exact Nat.two_pow_pos bits

variable {p : π} {sector : Nat} (geometry : Geometry size partitions)
  (below : sector < (partitions p).sectors)

include geometry below

theorem wordAdd_eq : wordAdd (partitions p).lbaStart sector = (partitions p).lbaStart + sector := by
  have inside := geometry.inside p
  exact Source.wordAdd_eq (by omega)

theorem blockNum_eq : PartitionCache.blockNum size sector =
    sector / sectorsPerBlock size * sectorsPerBlock size := by
  obtain ⟨bits, bound, power⟩ := geometry.sectorsPerBlock_eq
  have inside := geometry.inside p
  exact alignFloor_eq (by omega) power (by omega)

theorem blockNum_lt : PartitionCache.blockNum size sector < (partitions p).sectors := by
  rw [geometry.blockNum_eq below]
  exact Nat.lt_of_le_of_lt (Nat.div_mul_le_self ..) below

omit below in
theorem offset_eq (sector : Nat) :
    sector &&& (sectorsPerBlock size - 1) = sector % sectorsPerBlock size := by
  obtain ⟨bits, _, power⟩ := geometry.sectorsPerBlock_eq
  rw [power]
  exact Nat.and_two_pow_sub_one_eq_mod sector bits

/-- Block and offset lead to the sector of the device. -/
theorem address_add_offset :
    wordAdd (partitions p).lbaStart (PartitionCache.blockNum size sector) +
      (sector &&& (sectorsPerBlock size - 1)) = (partitions p).lbaStart + sector := by
  rw [geometry.wordAdd_eq (geometry.blockNum_lt below), geometry.offset_eq,
    geometry.blockNum_eq below]
  have split := Nat.div_add_mod' sector (sectorsPerBlock size)
  omega

end Geometry

namespace CacheBlock

variable {π : Type} {size : Nat} (partitions : π → Partition) (expected : Nat → Sector size)

/-- The first device sector of the cached block. -/
def address (b : CacheBlock π size) : Option Nat :=
  b.pPartition.map fun p => wordAdd (partitions p).lbaStart b.blockStart

/-- The device sector `a` is cached in this entry. -/
def Covers (b : CacheBlock π size) (a : Nat) : Prop :=
  ∃ lba, b.address partitions = some lba ∧ Inside lba (sectorsPerBlock size) a

/-- The entry caches a block that starts inside its partition. -/
def Located (b : CacheBlock π size) : Prop :=
  ∀ p, b.pPartition = some p →
    b.blockStart < (partitions p).sectors ∧ sectorsPerBlock size ∣ b.blockStart

/-- The sectors cached in this entry have their expected content. -/
def Holds (b : CacheBlock π size) : Prop :=
  ∀ lba, b.address partitions = some lba → ∀ i < sectorsPerBlock size,
    b.buffer i = expected (lba + i)

/-- The two entries cache no sector in common. -/
def ApartFrom (b c : CacheBlock π size) : Prop :=
  ∀ lba lba', b.address partitions = some lba → c.address partitions = some lba' →
    Apart (sectorsPerBlock size) lba lba'

variable {partitions}

theorem ApartFrom.symm {b c : CacheBlock π size} (apart : b.ApartFrom partitions c) :
    c.ApartFrom partitions b :=
  fun lba lba' here there => (apart lba' lba there here).symm

theorem ApartFrom.not_covers {b c : CacheBlock π size} {a : Nat}
    (apart : b.ApartFrom partitions c) (covers : b.Covers partitions a) :
    ¬c.Covers partitions a := by
  rintro ⟨lba', there, inside'⟩
  obtain ⟨lba, here, inside⟩ := covers
  exact (apart lba lba' here there).not_inside inside inside'

end CacheBlock

/-- The entries agree with the expected content, and so does the device in
every sector that no modified entry caches. -/
structure Coherent {π : Type} {size : Nat} (partitions : π → Partition)
    (expected content : Nat → Sector size) (blocks : List (CacheBlock π size)) : Prop where
  located : ∀ b ∈ blocks, b.Located partitions
  apart : blocks.Pairwise (CacheBlock.ApartFrom partitions)
  holds : ∀ b ∈ blocks, b.Holds partitions expected
  stored : ∀ a, content a = expected a ∨
    ∃ b ∈ blocks, b.modified = true ∧ b.Covers partitions a

namespace Coherent

variable {π : Type} {size : Nat} {partitions : π → Partition}
  {expected content content' : Nat → Sector size} {blocks blocks' : List (CacheBlock π size)}

/-- The order of the entries is of no account. -/
theorem perm (coherent : Coherent partitions expected content blocks) (same : blocks.Perm blocks') :
    Coherent partitions expected content blocks' where
  located b member := coherent.located b (same.mem_iff.mpr member)
  apart := same.pairwise coherent.apart fun apart => apart.symm
  holds b member := coherent.holds b (same.mem_iff.mpr member)
  stored a := by
    rcases coherent.stored a with stored | ⟨b, member, dirty⟩
    · exact .inl stored
    · exact .inr ⟨b, same.mem_iff.mp member, dirty⟩

/-- An entry that is clean or unused may be given up. -/
theorem drop {b : CacheBlock π size} (coherent : Coherent partitions expected content (b :: blocks))
    (idle : b.modified = true → b.pPartition = none) :
    Coherent partitions expected content blocks where
  located c member := coherent.located c (.tail _ member)
  apart := (List.pairwise_cons.mp coherent.apart).2
  holds c member := coherent.holds c (.tail _ member)
  stored a := by
    rcases coherent.stored a with stored | ⟨c, member, dirty, covers⟩
    · exact .inl stored
    · rcases List.mem_cons.mp member with rfl | member
      · obtain ⟨lba, here, _⟩ := covers
        rw [CacheBlock.address, idle dirty] at here
        cases here
      · exact .inr ⟨c, member, dirty, covers⟩

/-- A block read from the device may be taken up, when no other entry caches
one of its sectors. -/
theorem take {b : CacheBlock π size} (coherent : Coherent partitions expected content blocks)
    (located : b.Located partitions) (clean : b.modified = false)
    (apart : ∀ c ∈ blocks, b.ApartFrom partitions c)
    (read : b.Holds partitions content) :
    Coherent partitions expected content (b :: blocks) where
  located c member := by
    rcases List.mem_cons.mp member with rfl | member
    · exact located
    · exact coherent.located c member
  apart := List.pairwise_cons.mpr ⟨apart, coherent.apart⟩
  holds c member := by
    rcases List.mem_cons.mp member with rfl | member
    · intro lba here i below
      rw [read lba here i below]
      have inside : Inside lba (sectorsPerBlock size) (lba + i) := ⟨by omega, by omega⟩
      rcases coherent.stored (lba + i) with stored | ⟨d, other, _, covers⟩
      · exact stored
      · exact absurd covers ((apart d other).not_covers ⟨lba, here, inside⟩)
    · exact coherent.holds c member
  stored a := by
    rcases coherent.stored a with stored | ⟨c, member, dirty⟩
    · exact .inl stored
    · exact .inr ⟨c, .tail _ member, dirty⟩

/-- Whatever a transfer leaves in the sectors of a modified entry, the entry
still has them. -/
theorem disturb {b : CacheBlock π size} {lba : Nat}
    (coherent : Coherent partitions expected content (b :: blocks))
    (dirty : b.modified = true) (here : b.address partitions = some lba)
    (left : Nat → Sector size) :
    Coherent partitions expected (overwrite content lba (sectorsPerBlock size) left)
      (b :: blocks) where
  located := coherent.located
  apart := coherent.apart
  holds := coherent.holds
  stored a := by
    by_cases inside : Inside lba (sectorsPerBlock size) a
    · exact .inr ⟨b, .head _, dirty, lba, here, inside⟩
    · rw [overwrite_outside inside]
      exact coherent.stored a

/-- After the write-back the entry is clean. -/
theorem clean {b : CacheBlock π size} {lba : Nat}
    (coherent : Coherent partitions expected content (b :: blocks))
    (here : b.address partitions = some lba) :
    Coherent partitions expected (overwrite content lba (sectorsPerBlock size) b.buffer)
      ({ b with modified := false } :: blocks) where
  located c member := by
    rcases List.mem_cons.mp member with rfl | member
    · exact coherent.located b (.head _)
    · exact coherent.located c (.tail _ member)
  apart := by
    have apart := List.pairwise_cons.mp coherent.apart
    exact List.pairwise_cons.mpr ⟨apart.1, apart.2⟩
  holds c member := by
    rcases List.mem_cons.mp member with rfl | member
    · exact coherent.holds b (.head _)
    · exact coherent.holds c (.tail _ member)
  stored a := by
    by_cases inside : Inside lba (sectorsPerBlock size) a
    · left
      exact overwrite_eq (coherent.holds b (.head _) lba here) inside
    · rw [overwrite_outside inside]
      rcases coherent.stored a with stored | ⟨c, member, dirty, covers⟩
      · exact .inl stored
      · rcases List.mem_cons.mp member with rfl | member
        · obtain ⟨lba', there, inside'⟩ := covers
          rw [here] at there
          cases there
          exact absurd inside' inside
        · exact .inr ⟨c, .tail _ member, dirty, covers⟩

/-- A write into the entry of the sector makes the entry a modified one. -/
theorem write {b : CacheBlock π size} {lba offset : Nat}
    (coherent : Coherent partitions expected content (b :: blocks))
    (here : b.address partitions = some lba) (below : offset < sectorsPerBlock size)
    (sector : Sector size) :
    Coherent partitions (Function.update expected (lba + offset) sector) content
      ({ b with modified := true, buffer := Function.update b.buffer offset sector } ::
        blocks) where
  located c member := by
    rcases List.mem_cons.mp member with rfl | member
    · exact coherent.located b (.head _)
    · exact coherent.located c (.tail _ member)
  apart := by
    have apart := List.pairwise_cons.mp coherent.apart
    exact List.pairwise_cons.mpr ⟨apart.1, apart.2⟩
  holds c member := by
    rcases List.mem_cons.mp member with rfl | member
    · intro lba' there i bound
      cases here.symm.trans there
      by_cases same : i = offset
      · subst same
        simp only [Function.update_self]
      · change Function.update b.buffer offset sector i = _
        rw [Function.update_of_ne same, Function.update_of_ne (by omega)]
        exact coherent.holds b (.head _) lba here i bound
    · intro lba' there i bound
      have apart := (List.pairwise_cons.mp coherent.apart).1 c member lba lba' here there
      rw [Function.update_of_ne (by rcases apart with before | after <;> omega)]
      exact coherent.holds c (.tail _ member) lba' there i bound
  stored a := by
    by_cases same : a = lba + offset
    · subst same
      exact .inr ⟨_, .head _, rfl, lba, here, by omega, by omega⟩
    · rw [Function.update_of_ne same]
      rcases coherent.stored a with stored | ⟨c, member, dirty, covers⟩
      · exact .inl stored
      · rcases List.mem_cons.mp member with rfl | member
        · exact .inr ⟨_, .head _, rfl, covers⟩
        · exact .inr ⟨c, .tail _ member, dirty, covers⟩

/-- A sector that the device does not have is in a modified entry. -/
theorem accounted (coherent : Coherent partitions expected content blocks) (a : Nat) :
    content a = expected a ∨ ∃ b ∈ blocks, b.modified = true ∧ ∃ lba,
      b.address partitions = some lba ∧ Inside lba (sectorsPerBlock size) a ∧
        b.buffer (a - lba) = expected a := by
  rcases coherent.stored a with stored | ⟨b, member, modified, lba, here, inside⟩
  · exact .inl stored
  · refine .inr ⟨b, member, modified, lba, here, inside, ?_⟩
    have low := inside.1
    have high := inside.2
    rw [coherent.holds b member lba here (a - lba) (by omega), Nat.add_sub_cancel' low]

end Coherent

namespace Operation

variable {size : Nat} (expected : Nat → Sector size) (a : Nat)

/-- What the operation on the device sector `a` is to return. -/
def answer : Operation size → List (Sector size)
  | .read => [expected a]
  | .write _ => []

/-- The expected content after the operation on the device sector `a`. -/
def applied : Operation size → Nat → Sector size
  | .read => expected
  | .write buffer => Function.update expected a buffer

end Operation

namespace PartitionCache

variable {π : Type} {size : Nat} {partitions : π → Partition} {expected : Nat → Sector size}
  {s : PartitionCache π size} {p : π} {litem : Fin 5} {num offset : Nat}

section Positions

theorem perm_block (s : PartitionCache π size) (litem : Fin 5) :
    s.blocks.Perm (s.block litem :: s.blocks.eraseIdx litem) :=
  (List.getElem_cons_eraseIdx_perm (by rw [s.five]; exact litem.isLt)).symm

theorem perm_setBlock (s : PartitionCache π size) (litem : Fin 5) (b : CacheBlock π size) :
    (s.setBlock litem b).blocks.Perm (b :: s.blocks.eraseIdx litem) := by
  have bound : litem.val < (s.blocks.set litem b).length := by
    rw [List.length_set, s.five]
    exact litem.isLt
  have perm := (List.getElem_cons_eraseIdx_perm bound).symm
  rwa [List.getElem_set_self, List.eraseIdx_set_eq] at perm

theorem perm_putAtHead (s : PartitionCache π size) (litem : Fin 5) :
    (s.putAtHead litem).blocks.Perm s.blocks := (perm_block s litem).symm

theorem block_setBlock (s : PartitionCache π size) (litem : Fin 5) (b : CacheBlock π size) :
    (s.setBlock litem b).block litem = b := List.getElem_set_self _

variable [DecidableEq π]

theorem find_some (found : s.find p num = some litem) :
    (s.block litem).pPartition = some p ∧ (s.block litem).blockStart = num := by
  rw [find, Option.map_eq_some_iff] at found
  obtain ⟨i, first, rfl⟩ := found
  have holds := (List.findFinIdx?_eq_some_iff.mp first).1
  simp only [Bool.and_eq_true, decide_eq_true_eq] at holds
  exact holds

theorem find_none (missing : s.find p num = none) {b : CacheBlock π size} (member : b ∈ s.blocks)
    (owned : b.pPartition = some p) : b.blockStart ≠ num := by
  intro same
  rw [find, Option.map_eq_none_iff, List.findFinIdx?_eq_none_iff] at missing
  have other := missing b member
  simp [owned, same] at other

end Positions

/-- The invariant of the cache. -/
def Coherent (partitions : π → Partition) (expected : Nat → Sector size)
    (s : PartitionCache π size) : Prop :=
  Source.Coherent partitions expected s.device.content s.blocks

theorem initial_coherent (device : BlockDevice size) :
    (initial device : PartitionCache π size).Coherent partitions device.content where
  located b member p owner := by
    rw [List.eq_of_mem_replicate member] at owner
    cases owner
  apart := List.pairwise_replicate.mpr (.inr fun lba _ here => by cases here)
  holds b member lba here := by
    rw [List.eq_of_mem_replicate member] at here
    cases here
  stored a := .inl rfl

/-- No entry of another partition caches a sector of the block. -/
def Separate (partitions : π → Partition) (s : PartitionCache π size) (p : π) (num : Nat) : Prop :=
  ∀ b ∈ s.blocks, ∀ q, b.pPartition = some q → q ≠ p →
    Apart (sectorsPerBlock size) (wordAdd (partitions p).lbaStart num)
      (wordAdd (partitions q).lbaStart b.blockStart)

/-- On a miss the transfer that reads the block succeeds, unless the one that
writes the dropped entry back fails before it. -/
def FetchSucceeds (s : PartitionCache π size) : Prop :=
  let b := s.block (Fin.last 4)
  let d := s.device
  if b.pPartition.isSome ∧ b.modified then
    (d.outcome d.transfers).isSome ∨ d.outcome (d.transfers + 1) = none
  else d.outcome d.transfers = none

instance (s : PartitionCache π size) : Decidable s.FetchSucceeds :=
  inferInstanceAs (Decidable (if (s.block (Fin.last 4)).pPartition.isSome ∧
      (s.block (Fin.last 4)).modified then
    (s.device.outcome s.device.transfers).isSome ∨
      s.device.outcome (s.device.transfers + 1) = none
    else s.device.outcome s.device.transfers = none))

section Transfers

/-- A failed write-back leaves the entry modified; after one that did not fail
the entry may be given up. -/
theorem writeBack_coherent {device : BlockDevice size} {b : CacheBlock π size}
    {blocks : List (CacheBlock π size)}
    (coherent : Source.Coherent partitions expected device.content (b :: blocks)) :
    let written := writeBack partitions device b
    (isError written.2 = true →
      Source.Coherent partitions expected written.1.content (b :: blocks)) ∧
    (isError written.2 = false →
      Source.Coherent partitions expected written.1.content blocks) := by
  simp only [writeBack]
  cases owner : b.pPartition with
  | none => exact ⟨fun _ => coherent, fun _ => coherent.drop fun _ => owner⟩
  | some q =>
    have here : b.address partitions = some (wordAdd (partitions q).lbaStart b.blockStart) := by
      rw [CacheBlock.address, owner, Option.map_some]
    by_cases dirty : b.modified = true
    · simp only [dirty, if_true, BlockDevice.writeBlock]
      cases device.outcome device.transfers with
      | none => exact ⟨fun failed => absurd failed Bool.false_ne_true, fun _ =>
          (coherent.clean here).drop fun flag => absurd flag Bool.false_ne_true⟩
      | some failure => exact ⟨fun _ => coherent.disturb dirty here _, fun fine =>
          absurd (failure.negative.symm.trans fine) (by decide)⟩
    · simp only [dirty]
      exact ⟨fun _ => coherent, fun _ => coherent.drop fun flag => absurd flag dirty⟩

variable (partitions) in
theorem writeBack_outcome (device : BlockDevice size) (b : CacheBlock π size) :
    (writeBack partitions device b).1.outcome = device.outcome := by
  simp only [writeBack, BlockDevice.writeBlock]
  split
  · split
    · split
      · rfl
      · rfl
    · rfl
  · rfl

variable (partitions) in
/-- When the write-back does not fail, the next transfer is the read. -/
theorem fetchSucceeds_iff : s.FetchSucceeds ↔
    (isError (writeBack partitions s.device (s.block 4)).2 = false →
      (writeBack partitions s.device (s.block 4)).1.outcome
        (writeBack partitions s.device (s.block 4)).1.transfers = none) := by
  have unfailing : isError cOk = false := rfl
  have fetch : s.FetchSucceeds ↔ if (s.block 4).pPartition.isSome ∧ (s.block 4).modified then
      (s.device.outcome s.device.transfers).isSome ∨
        s.device.outcome (s.device.transfers + 1) = none
      else s.device.outcome s.device.transfers = none := Iff.rfl
  simp only [fetch, writeBack, BlockDevice.writeBlock]
  cases owner : (s.block 4).pPartition with
  | none => simp [unfailing]
  | some q =>
    by_cases dirty : (s.block 4).modified = true
    · simp only [dirty, Option.isSome_some, and_self, if_true]
      cases outcome : s.device.outcome s.device.transfers with
      | none => simp [unfailing]
      | some failure => simp [failure.negative]
    · simp [dirty, unfailing]

end Transfers

/-- The entries of other partitions were entries before. -/
def OthersFrom (p : π) (s s' : PartitionCache π size) : Prop :=
  s'.device.outcome = s.device.outcome ∧
    ∀ b ∈ s'.blocks, b.pPartition ≠ some p →
      ∃ c ∈ s.blocks, c.pPartition = b.pPartition ∧ c.blockStart = b.blockStart

theorem Separate.mono {s' : PartitionCache π size} (others : OthersFrom p s s')
    (separate : s.Separate partitions p num) : s'.Separate partitions p num := by
  intro b member q owner other
  obtain ⟨c, before, owner', start⟩ := others.2 b member (by simpa [owner] using other)
  rw [← start]
  exact separate c before q (owner'.trans owner) other

/-- Blocks of the same partition start at different multiples of the block length. -/
theorem apart_of_separate (geometry : Geometry size partitions)
    (located : ∀ b ∈ s.blocks, b.Located partitions) (separate : s.Separate partitions p num)
    (inside : num < (partitions p).sectors) (aligned : sectorsPerBlock size ∣ num)
    (missing : ∀ b ∈ s.blocks, b.pPartition = some p → b.blockStart ≠ num)
    {fetched b : CacheBlock π size} (owner : fetched.pPartition = some p)
    (start : fetched.blockStart = num) (member : b ∈ s.blocks) :
    fetched.ApartFrom partitions b := by
  intro lba lba' here there
  obtain ⟨q, owner', rfl⟩ := Option.map_eq_some_iff.mp there
  rw [CacheBlock.address, owner, Option.map_some, Option.some.injEq, start] at here
  rw [← here]
  by_cases same : q = p
  · subst same
    obtain ⟨inside', aligned'⟩ := located b member q owner'
    rw [geometry.wordAdd_eq inside, geometry.wordAdd_eq inside']
    exact apart_of_dvd _ aligned aligned' (missing b member owner').symm
  · exact separate b member q owner' same

section Access

theorem OthersFrom.trans {s' s'' : PartitionCache π size} (first : OthersFrom p s s')
    (second : OthersFrom p s' s'') : OthersFrom p s s'' := by
  refine ⟨second.1.trans first.1, fun b member other => ?_⟩
  obtain ⟨c, between, owner, start⟩ := second.2 b member other
  obtain ⟨d, before, owner', start'⟩ := first.2 c between (by rw [owner]; exact other)
  exact ⟨d, before, owner'.trans owner, start'.trans start⟩

theorem others_putAtHead (p : π) (s : PartitionCache π size) (litem : Fin 5) :
    OthersFrom p s (s.putAtHead litem) :=
  ⟨rfl, fun b member _ => ⟨b, (perm_putAtHead s litem).mem_iff.mp member, rfl, rfl⟩⟩

/-- An entry replaced by one of the partition, or by one for the same block. -/
theorem others_setBlock {b : CacheBlock π size}
    (own : b.pPartition = some p ∨ (b.pPartition = (s.block litem).pPartition ∧
      b.blockStart = (s.block litem).blockStart)) : OthersFrom p s (s.setBlock litem b) := by
  refine ⟨rfl, fun c member other => ?_⟩
  rcases List.mem_cons.mp ((perm_setBlock s litem b).mem_iff.mp member) with rfl | rest
  · rcases own with owner | ⟨owner, start⟩
    · exact absurd owner other
    · exact ⟨s.block litem, (perm_block s litem).mem_iff.mpr (.head _), owner.symm, start.symm⟩
  · exact ⟨c, (perm_block s litem).mem_iff.mpr (.tail _ rest), rfl, rfl⟩

theorem others_serve (p : π) (s : PartitionCache π size) (litem : Fin 5) (offset : Nat)
    (operation : Operation size) : OthersFrom p s (s.serve litem offset operation).1 := by
  cases operation with
  | read => exact others_putAtHead p s litem
  | write buffer =>
    have replaced : OthersFrom p s (s.setBlock litem { s.block litem with
        modified := true
        buffer := Function.update (s.block litem).buffer offset buffer }) :=
      others_setBlock (.inr ⟨rfl, rfl⟩)
    exact replaced.trans (others_putAtHead p _ litem)

variable (partitions) in
theorem others_cacheBlock (s : PartitionCache π size) (p : π) (num : Nat) :
    OthersFrom p s (s.cacheBlock partitions p num).1 := by
  have written := writeBack_outcome partitions s.device (s.block 4)
  simp only [cacheBlock, BlockDevice.readBlock]
  split
  · exact ⟨written, fun b member _ => ⟨b, member, rfl, rfl⟩⟩
  · have device : ∀ d : BlockDevice size, d.outcome = s.device.outcome →
        OthersFrom p s { s with device := d } :=
      fun d same => ⟨same, fun b member _ => ⟨b, member, rfl, rfl⟩⟩
    split
    · exact (device _ written).trans (others_setBlock (.inl rfl))
    · exact (device _ written).trans (others_setBlock (.inl rfl))

/-- The entry taken for a block that was not cached holds it, when the read
did not fail. -/
theorem cacheBlock_coherent [DecidableEq π] (geometry : Geometry size partitions)
    (coherent : s.Coherent partitions expected) (missing : s.find p num = none)
    (inside : num < (partitions p).sectors) (aligned : sectorsPerBlock size ∣ num)
    (separate : s.Separate partitions p num) (fetch : s.FetchSucceeds) :
    let cached := s.cacheBlock partitions p num
    cached.1.Coherent partitions expected ∧ (isError cached.2 = false →
      cached.2 = cOk ∧ (cached.1.block 4).pPartition = some p ∧
        (cached.1.block 4).blockStart = num) := by
  have front := coherent.perm (perm_block s 4)
  have written := writeBack_coherent front
  have fetched := (fetchSucceeds_iff partitions).mp fetch
  simp only [cacheBlock]
  cases error : isError (writeBack partitions s.device (s.block 4)).2 with
  | true =>
    refine ⟨(written.1 error).perm (perm_block s 4).symm, fun fine => ?_⟩
    simp [error] at fine
  | false =>
    simp only [Bool.false_eq_true, if_false, BlockDevice.readBlock, fetched error,
      block_setBlock, and_self, implies_true, and_true]
    refine Coherent.perm ?_ (perm_setBlock _ 4 _).symm
    refine (written.2 error).take (fun q owner => ?_) rfl (fun b member => ?_)
      fun lba here i low => ?_
    · cases owner
      exact ⟨inside, aligned⟩
    · exact apart_of_separate geometry coherent.located separate inside aligned
        (fun b => find_none missing) rfl rfl
        ((perm_block s 4).mem_iff.mpr (.tail _ member))
    · rw [CacheBlock.address, Option.map_some, Option.some.injEq] at here
      have within : Inside 0 (sectorsPerBlock size) i := ⟨Nat.zero_le i, by omega⟩
      dsimp only
      rw [overwrite_inside within, Nat.sub_zero, ← here]

/-- An entry that caches the block is read or written in place. -/
theorem serve_coherent (coherent : s.Coherent partitions expected)
    (owner : (s.block litem).pPartition = some p) (start : (s.block litem).blockStart = num)
    (below : offset < sectorsPerBlock size) (operation : Operation size) :
    let a := wordAdd (partitions p).lbaStart num + offset
    let served := s.serve litem offset operation
    served.1.Coherent partitions (operation.applied expected a) ∧
      served.2 = operation.answer expected a := by
  have here : (s.block litem).address partitions = some (wordAdd (partitions p).lbaStart num) := by
    rw [CacheBlock.address, owner, Option.map_some, start]
  have front := coherent.perm (perm_block s litem)
  cases operation with
  | read =>
    refine ⟨coherent.perm (perm_putAtHead s litem).symm, ?_⟩
    rw [serve, Operation.answer, front.holds _ (.head _) _ here offset below]
  | write buffer =>
    refine ⟨?_, rfl⟩
    refine (front.write here below buffer).perm ?_
    exact ((perm_putAtHead _ litem).trans (perm_setBlock s litem _)).symm

variable [DecidableEq π] {sector : Nat}

variable (partitions) in
theorem others_accessSector (s : PartitionCache π size) (p : π) (sector : Nat)
    (operation : Operation size) :
    OthersFrom p s (s.accessSector partitions p sector operation).1 := by
  simp only [accessSector]
  split
  · exact others_serve p s _ _ operation
  · have cached := others_cacheBlock partitions s p (blockNum size sector)
    split
    · exact cached
    · exact cached.trans (others_serve p _ 4 _ operation)

/-- A sector access either fails and changes no expected content, or returns
what is expected and changes the content as asked. -/
theorem accessSector_coherent (geometry : Geometry size partitions)
    (coherent : s.Coherent partitions expected) (below : sector < (partitions p).sectors)
    (separate : s.Separate partitions p (blockNum size sector))
    (fetch : s.find p (blockNum size sector) = none → s.FetchSucceeds)
    (operation : Operation size) :
    let a := (partitions p).lbaStart + sector
    let (s', read, error) := s.accessSector partitions p sector operation
    (isError error = true ∧ s'.Coherent partitions expected) ∨
      (error = cOk ∧ read = operation.answer expected a ∧
        s'.Coherent partitions (operation.applied expected a)) := by
  have address := geometry.address_add_offset below
  have offset : sector &&& (sectorsPerBlock size - 1) < sectorsPerBlock size := by
    rw [geometry.offset_eq]
    exact Nat.mod_lt _ geometry.sectorsPerBlock_pos
  simp only [accessSector]
  rw [← address]
  cases found : s.find p (blockNum size sector) with
  | some litem =>
    obtain ⟨owner, start⟩ := find_some found
    obtain ⟨served, answer⟩ := serve_coherent coherent owner start offset operation
    exact .inr ⟨rfl, answer, served⟩
  | none =>
    have aligned : sectorsPerBlock size ∣ blockNum size sector := by
      rw [geometry.blockNum_eq below]
      exact Nat.dvd_mul_left ..
    obtain ⟨cached, entry⟩ := cacheBlock_coherent geometry coherent found
      (geometry.blockNum_lt below) aligned separate (fetch found)
    cases error : isError (s.cacheBlock partitions p (blockNum size sector)).2 with
    | true =>
      simp only [error, if_true]
      exact .inl ⟨trivial, cached⟩
    | false =>
      obtain ⟨_, owner, start⟩ := entry error
      obtain ⟨served, answer⟩ := serve_coherent cached owner start offset operation
      simp only [Bool.false_eq_true, if_false]
      exact .inr ⟨trivial, answer, served⟩

end Access

end PartitionCache

end Orcos.Source
