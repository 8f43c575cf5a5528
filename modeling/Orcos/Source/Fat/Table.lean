import Orcos.Lib.Successors
import Orcos.Source.Fat.FileSystem

/-!
# The allocation table as a function

The value of every cluster's entry, the sector that follows a sector, and the
cluster chains of a volume. Without allocation the functions of the file system
read these values off the medium and change nothing.
-/
namespace Orcos.Source.Fat
open Lib.ByteMemory Lib.Successors

theorem two_pow_dvd_succ_iff {s g : Nat} (word : s + 1 < 2 ^ 32) :
    s >>> g ≠ wordAdd s 1 >>> g ↔ 2 ^ g ∣ s + 1 := by
  rw [wordAdd_eq word, Nat.shiftRight_eq_div_pow, Nat.shiftRight_eq_div_pow, Nat.succ_div]
  split
  · next divides => simp [divides]
  · next not => simp [not]

namespace FATFileSystem

/-- What the constructor leaves when it found a valid boot sector. -/
structure Constructed (uninitialised : Nat) (buffer : Memory) (fs : FATFileSystem) : Prop where
  bpb : fs.myFATBPB = .ofBytes buffer
  bpb32 : fs.myFAT32BPB = .ofBytes buffer
  bytes : fs.myFATBPB.bytsPerSec = 512
  root : fs.rootDirSectors = fs.myFATBPB.rootDirSectors
  first : fs.firstDataSector = fs.myFATBPB.firstDataSector fs.myFAT32BPB
  data : fs.dataSec = wordSub fs.myFATBPB.totSec fs.firstDataSector
  count : fs.countOfClusters = fs.dataSec / fs.myFATBPB.secPerClus
  enough : 4085 ≤ fs.countOfClusters
  type : fs.myFatType = if fs.countOfClusters < 65525 then .fat16 else .fat32
  shift : fs.sectorShiftValue = fs.myFATBPB.sectorShiftValue uninitialised

theorem constructed_of_ofBootSector {uninitialised : Nat} {buffer : Memory} {fs : FATFileSystem}
    (valid : ofBootSector uninitialised buffer = some fs) :
    Constructed uninitialised buffer fs := by
  dsimp only [ofBootSector] at valid
  split at valid
  · next signature =>
    split at valid
    · cases valid
    · next enough =>
      cases valid
      exact ⟨rfl, rfl, signature.2, rfl, rfl, rfl, rfl, Nat.le_of_not_lt enough, rfl, rfl⟩
  · cases valid

theorem constructed_of_mount {uninitialised : Nat} {m : Medium} {fs : FATFileSystem}
    (mounted : (mount uninitialised m).2 = some fs) :
    Constructed uninitialised (m.content 0) fs := by
  rw [mount, Medium.readSectors] at mounted
  split at mounted
  · cases mounted
  · next read =>
    simp only [Prod.mk.injEq] at read
    obtain ⟨_, read⟩ := read
    split at read
    · cases read
    · cases read
      exact constructed_of_ofBootSector mounted

namespace Constructed

variable {uninitialised : Nat} {buffer : Memory} {fs : FATFileSystem}
  (constructed : Constructed uninitialised buffer fs)

include constructed

theorem totSec_lt : fs.myFATBPB.totSec < 2 ^ 32 := by
  have low := read16_lt buffer 19
  have high := read32_lt buffer 32
  rw [constructed.bpb, BsBpb.totSec]
  split
  · exact Nat.lt_trans low (by decide)
  · exact high

theorem secPerClus_pos : 0 < fs.myFATBPB.secPerClus := by
  have enough := constructed.enough
  rw [constructed.count] at enough
  apply Nat.pos_of_ne_zero
  intro zero
  rw [zero, Nat.div_zero] at enough
  omega

/-- The root directory of a FAT16 volume lies among the first sectors. -/
theorem root_lt : fs.firstRootDirSecNum + fs.rootDirSectors < EOC := by
  have reserved := read16_lt buffer 14
  have tables := (buffer 16).isLt
  have size := read16_lt buffer 22
  have entries := read16_lt buffer 17
  have product : (buffer 16).toNat * read16 buffer 22 ≤ 2 ^ 8 * 2 ^ 16 :=
    Nat.mul_le_mul (by omega) (by omega)
  have rounded : fs.rootDirSectors ≤ 4096 := by
    rw [constructed.root, BsBpb.rootDirSectors, constructed.bytes, constructed.bpb]
    simp only [BsBpb.ofBytes]
    omega
  have start : fs.firstRootDirSecNum ≤ 2 ^ 16 + 2 ^ 8 * 2 ^ 16 := by
    rw [firstRootDirSecNum, constructed.bpb]
    refine Nat.le_trans (Nat.mod_le _ _) ?_
    simp only [BsBpb.ofBytes]
    omega
  rw [EOC]
  omega

end Constructed

variable (fs : FATFileSystem) (m : Medium)

/-- The sector that holds the entry of a cluster. -/
def entrySector (cluster : Nat) : Nat := fs.fatSecNum (fs.entryAddr cluster)

/-- The entry of a cluster. -/
def entry (content : Nat → Memory) (cluster : Nat) : Nat :=
  let buffer := content (fs.entrySector cluster)
  let fatentoffset := fatEntOffset (fs.entryAddr cluster)
  if fs.myFatType = .fat16 then read16 buffer fatentoffset
  else read32 buffer fatentoffset &&& 0x0FFFFFFF

/-- What the file system takes for the entry: nothing can be read outside the
partition. -/
def lookup (cluster : Nat) : Nat :=
  if m.InRange (fs.entrySector cluster) then fs.entry m.content cluster else EOC

/-- The sector that the entry of a cluster leads to. -/
def onward (cluster : Nat) : Nat :=
  if fs.endOfChain ≤ fs.lookup m cluster then EOC else fs.clusterToSector (fs.lookup m cluster)

/-- The sector after a sector of a cluster. -/
def nextSector (currentSector currentCluster : Nat) : Nat :=
  if currentSector >>> fs.sectorShiftValue ≠
      wordAdd currentSector 1 >>> fs.sectorShiftValue then fs.onward m currentCluster
  else wordAdd currentSector 1

/-- The successor of a cluster in its chain. -/
def successor (content : Nat → Memory) (cluster : Nat) : Option Nat :=
  if fs.endOfChain ≤ fs.entry content cluster then none else some (fs.entry content cluster)

/-- A cluster of the volume: it has a number that ends no chain, its sectors lie
among the sectors of the volume and its entry on the partition. -/
structure OnVolume (cluster : Nat) : Prop where
  two : 2 ≤ cluster
  number : cluster < fs.endOfChain
  inside : fs.firstDataSector + (cluster - 1) * fs.myFATBPB.secPerClus ≤ fs.myFATBPB.totSec
  table : m.InRange (fs.entrySector cluster)

/-- The clusters of a chain in their order. A chain that ends has no cycle. -/
structure ClusterChain (cs : List Nat) : Prop where
  nonempty : cs ≠ []
  onVolume : ∀ c ∈ cs, fs.OnVolume m c
  linked : Linked (fs.successor m.content) cs

/-- The first sector of a cluster. -/
def firstSector (cluster : Nat) : Nat :=
  fs.firstDataSector + (cluster - 2) * fs.myFATBPB.secPerClus

/-- The sectors of a cluster. -/
def clusterSectors (cluster : Nat) : List Nat :=
  List.range' (fs.firstSector cluster) fs.myFATBPB.secPerClus

variable {fs m} {c d s i : Nat} {m' : Medium}

theorem lookup_same (same : m.Same m') : fs.lookup m' c = fs.lookup m c := by
  simp only [lookup, same.inRange, same.content]

theorem nextSector_same (same : m.Same m') : fs.nextSector m' s c = fs.nextSector m s c := by
  rw [nextSector, nextSector, onward, onward, lookup_same same]

theorem getFATTableEntry_read (reliable : m.Reliable) :
    fs.getFATTableEntry m c false =
      (m.ask (.read (fs.entrySector c)), fs.lookup m c) := by
  have sector : fs.fatSecNum (fs.entryAddr c) = fs.entrySector c := rfl
  by_cases inside : m.InRange (fs.entrySector c)
  · rw [getFATTableEntry, sector, Medium.readSectors_ok reliable inside]
    simp only [lookup, if_pos inside, entry, Bool.false_eq_true, and_false, if_false]
    split <;> rfl
  · rw [getFATTableEntry, sector, Medium.readSectors_outside inside, lookup, if_neg inside]

/-- Without allocation the next sector is read off the table. -/
theorem getNextSector_read (reliable : m.Reliable) :
    m.Same (fs.getNextSector m s c false).1 ∧
      (fs.getNextSector m s c false).2 = fs.nextSector m s c := by
  rw [getNextSector, nextSector, getFATTableEntry_read reliable]
  split
  · exact ⟨⟨rfl, rfl, rfl⟩, rfl⟩
  · exact ⟨.refl m, rfl⟩

theorem nextSector_inside (word : s + 1 < 2 ^ 32) (inside : ¬2 ^ fs.sectorShiftValue ∣ s + 1) :
    fs.nextSector m s c = s + 1 := by
  rw [nextSector, if_neg (mt (two_pow_dvd_succ_iff word).mp inside), wordAdd_eq word]

theorem nextSector_boundary (word : s + 1 < 2 ^ 32) (boundary : 2 ^ fs.sectorShiftValue ∣ s + 1) :
    fs.nextSector m s c = fs.onward m c := by
  rw [nextSector, if_pos ((two_pow_dvd_succ_iff word).mpr boundary)]

theorem clusterToSector_eq (two : 2 ≤ c)
    (fits : fs.firstDataSector + (c - 2) * 2 ^ fs.sectorShiftValue < 2 ^ 32) :
    fs.clusterToSector c = fs.firstDataSector + (c - 2) * 2 ^ fs.sectorShiftValue := by
  have power := Nat.two_pow_pos fs.sectorShiftValue
  have small : c - 2 ≤ (c - 2) * 2 ^ fs.sectorShiftValue := Nat.le_mul_of_pos_right _ power
  have number : wordSub c 2 = c - 2 := by
    rw [wordSub]
    omega
  rw [clusterToSector, number, Nat.shiftLeft_eq, Nat.mod_eq_of_lt (by omega), wordAdd_eq fits]

theorem sectorToCluster_eq (two : 2 ≤ c) (number : c < 2 ^ 32) (below : i < 2 ^ fs.sectorShiftValue)
    (fits : fs.firstDataSector + (c - 2) * 2 ^ fs.sectorShiftValue + i < 2 ^ 32) :
    fs.sectorToCluster (fs.firstDataSector + (c - 2) * 2 ^ fs.sectorShiftValue + i) = c := by
  have power := Nat.two_pow_pos fs.sectorShiftValue
  rw [sectorToCluster, wordSub_eq (by omega) fits, Nat.add_assoc, Nat.add_sub_cancel_left,
    Nat.shiftRight_eq_div_pow, Nat.mul_comm, Nat.mul_add_div power, Nat.div_eq_of_lt below,
    Nat.add_zero, wordAdd_eq (by omega)]
  omega

theorem endOfChain_le : fs.endOfChain ≤ EOC := by
  rw [endOfChain]
  split <;> decide

/-- The entry of a cluster of the volume is what the file system takes it for. -/
theorem OnVolume.lookup_eq (onVolume : fs.OnVolume m c) :
    fs.lookup m c = fs.entry m.content c := if_pos onVolume.table

theorem OnVolume.lt (onVolume : fs.OnVolume m c) : c < EOC :=
  Nat.lt_of_lt_of_le onVolume.number endOfChain_le

section Words

variable (fs) (content : Nat → Memory)

/-- The number of sectors of one table. -/
def fatSz : Nat := fs.myFATBPB.fatSz fs.myFAT32BPB

/-- The word of a cluster's entry on a FAT32 volume, its upper four bits included. -/
def tableWord (c : Nat) : Nat :=
  read32 (content (fs.myFATBPB.rsvdSecCnt + c / 128)) (c % 128 * 4)

/-- The contents with another word as the entry of a cluster. -/
def setTableWord (c v : Nat) : Nat → Memory :=
  Function.update content (fs.myFATBPB.rsvdSecCnt + c / 128)
    (write32 (content (fs.myFATBPB.rsvdSecCnt + c / 128)) (c % 128 * 4) v)

/-- A FAT32 volume on a partition that holds it: the table has an entry for every
cluster, the information sector lies before it. -/
structure Fat32Volume (m : Medium) : Prop where
  type : fs.myFatType = .fat32
  bytes : fs.myFATBPB.bytsPerSec = 512
  numbers : fs.countOfClusters + 2 ≤ 0x0FFFFFF7
  table : fs.countOfClusters + 2 ≤ 128 * fs.fatSz
  info : fs.fsinfoLba < fs.myFATBPB.rsvdSecCnt
  partition : fs.myFATBPB.rsvdSecCnt + fs.fatSz < m.sectors
  word : m.sectors ≤ 2 ^ 32

/-- The sectors of the table. -/
def InTable (sector : Nat) : Prop :=
  fs.myFATBPB.rsvdSecCnt ≤ sector ∧ sector < fs.myFATBPB.rsvdSecCnt + fs.fatSz

variable {fs content} {v : Nat}

theorem and_mask (v : Nat) : v &&& 0x0FFFFFFF = v % 2 ^ 28 := Nat.and_two_pow_sub_one_eq_mod v 28

theorem fatEntOffset_eq (c : Nat) : fatEntOffset (c * 4) = c % 128 * 4 := by
  have low : c * 4 &&& 2 ^ 9 - 1 = c * 4 % 2 ^ 9 := Nat.and_two_pow_sub_one_eq_mod _ 9
  rw [fatEntOffset, show 512 - 1 = 2 ^ 9 - 1 from rfl, low]
  omega

theorem tableWord_setTableWord (word : v < 2 ^ 32) :
    fs.tableWord (fs.setTableWord content c v) c = v := by
  rw [tableWord, setTableWord, Function.update_self, read32_write32 _ _ word]

theorem tableWord_setTableWord_of_ne (other : d ≠ c) :
    fs.tableWord (fs.setTableWord content c v) d = fs.tableWord content d := by
  rw [tableWord, setTableWord, tableWord]
  by_cases sector : fs.myFATBPB.rsvdSecCnt + d / 128 = fs.myFATBPB.rsvdSecCnt + c / 128
  · rw [sector, Function.update_self, read32_write32_of_apart (by omega)]
  · rw [Function.update_of_ne sector]

theorem setTableWord_elsewhere (apart : s ≠ fs.myFATBPB.rsvdSecCnt + c / 128) :
    fs.setTableWord content c v s = content s := Function.update_of_ne apart _ _

theorem inTable (inside : c < 128 * fs.fatSz) :
    fs.InTable (fs.myFATBPB.rsvdSecCnt + c / 128) := ⟨Nat.le_add_right _ _, by omega⟩

namespace Fat32Volume

variable (volume : fs.Fat32Volume m)

include volume

theorem not_fat16 : fs.myFatType ≠ .fat16 := by
  rw [volume.type]
  decide

theorem same (same : m.Same m') : fs.Fat32Volume m' :=
  ⟨volume.type, volume.bytes, volume.numbers, volume.table, volume.info,
    by rw [same.sectors]; exact volume.partition, by rw [same.sectors]; exact volume.word⟩

theorem inRange (inside : s < fs.myFATBPB.rsvdSecCnt + fs.fatSz) : m.InRange s := by
  have partition := volume.partition
  have word := volume.word
  rw [Medium.InRange, wordAdd_eq (by omega)]
  omega

/-- The sector and the offset of an entry of the table. -/
theorem fatSecNum_eq (inside : c < 128 * fs.fatSz) :
    fs.fatSecNum (c * 4) = fs.myFATBPB.rsvdSecCnt + c / 128 := by
  have partition := volume.partition
  have word := volume.word
  rw [fatSecNum, show c * 4 / 512 = c / 128 by omega, wordAdd_eq (by omega)]

theorem entry_eq (inside : c < 128 * fs.fatSz) (small : c < 2 ^ 30) :
    fs.entry content c = fs.tableWord content c % 2 ^ 28 := by
  rw [entry, if_neg volume.not_fat16, entrySector, entryAddr, if_neg volume.not_fat16,
    Nat.mod_eq_of_lt (by omega), volume.fatSecNum_eq inside, fatEntOffset_eq, and_mask]
  rfl

end Fat32Volume

end Words

end FATFileSystem

end Orcos.Source.Fat
