import Mathlib.Logic.Function.Basic
import Orcos.Lib.ByteMemory
import Orcos.Source.Alignment
import Orcos.Lib.Loop

/-!
# The partition under a FAT file system

Source: src/source/filesystem/Partition.cc, `readSectors` and `writeSectors`,
as the FAT code calls them: for one sector of 512 bytes. Contents are those
seen through the block cache.

A request is a transfer when the sector lies in the range the partition checks.
The outcomes of the transfers are decided beforehand, in the order in which they
are made. A transfer that fails changes neither the medium nor the buffer. The
bytes of a buffer from 512 on are never looked at.
-/
namespace Orcos.Source.Fat
open Lib.ByteMemory

/-- A request and the sector it names. -/
inductive Request
  | read (sector : Nat)
  | write (sector : Nat)
  deriving DecidableEq

def Request.sector : Request → Nat
  | .read sector => sector
  | .write sector => sector

/-- `requests` is what was asked for so far, the last request first. -/
structure Medium where
  content : Nat → Memory
  sectors : Nat
  outcome : Nat → ErrorT
  requests : List Request

namespace Medium

variable (m : Medium) (sector : Nat)

/-- The check of both functions for one sector; the sum is a word. -/
def InRange : Prop := wordAdd sector 1 < m.sectors

instance : Decidable (m.InRange sector) := inferInstanceAs (Decidable (_ < _))

/-- What the check and the transfer report for the next request. -/
def status : ErrorT := if m.InRange sector then m.outcome m.requests.length else cError

def ask (request : Request) : Medium := { m with requests := request :: m.requests }

def readSectors : Medium × Except ErrorT Memory :=
  let error := m.status sector
  (m.ask (.read sector), if isError error then .error error else .ok (m.content sector))

def writeSectors (buffer : Memory) : Medium × ErrorT :=
  let error := m.status sector
  let content := if isError error then m.content else Function.update m.content sector buffer
  ({ m with content := content }.ask (.write sector), error)

/-- No transfer fails. -/
def Reliable : Prop := ∀ n, m.outcome n = cOk

/-- The media agree but for the requests made so far. -/
structure Same (m m' : Medium) : Prop where
  content : m'.content = m.content
  sectors : m'.sectors = m.sectors
  outcome : m'.outcome = m.outcome

variable {m sector} {m' m'' : Medium} {buffer : Memory} {request : Request}

@[simp] theorem ask_content : (m.ask request).content = m.content := rfl
@[simp] theorem ask_sectors : (m.ask request).sectors = m.sectors := rfl
@[simp] theorem ask_outcome : (m.ask request).outcome = m.outcome := rfl
@[simp] theorem ask_requests : (m.ask request).requests = request :: m.requests := rfl
@[simp] theorem ask_inRange {s : Nat} : (m.ask request).InRange s ↔ m.InRange s := Iff.rfl
@[simp] theorem ask_reliable : (m.ask request).Reliable ↔ m.Reliable := Iff.rfl

@[refl] theorem Same.refl (m : Medium) : Same m m := ⟨rfl, rfl, rfl⟩

theorem Same.trans (first : Same m m') (second : Same m' m'') : Same m m'' :=
  ⟨second.content.trans first.content, second.sectors.trans first.sectors,
    second.outcome.trans first.outcome⟩

theorem Same.symm (same : Same m m') : Same m' m :=
  ⟨same.content.symm, same.sectors.symm, same.outcome.symm⟩

theorem Same.ask (m : Medium) (request : Request) : Same m (m.ask request) := ⟨rfl, rfl, rfl⟩

theorem Same.reliable (same : Same m m') (reliable : m.Reliable) : m'.Reliable := fun n => by
  rw [same.outcome, reliable]

theorem Same.inRange (same : Same m m') {s : Nat} : m'.InRange s ↔ m.InRange s := by
  unfold InRange
  rw [same.sectors]

theorem status_ok (reliable : m.Reliable) (inside : m.InRange sector) : m.status sector = cOk := by
  rw [status, if_pos inside, reliable]

theorem readSectors_ok (reliable : m.Reliable) (inside : m.InRange sector) :
    m.readSectors sector = (m.ask (.read sector), .ok (m.content sector)) := by
  rw [readSectors, status_ok reliable inside]
  rfl

theorem readSectors_outside (outside : ¬m.InRange sector) :
    m.readSectors sector = (m.ask (.read sector), .error cError) := by
  rw [readSectors, status, if_neg outside]
  rfl

/-- One sector was written. -/
structure Wrote (m m' : Medium) (sector : Nat) (buffer : Memory) : Prop where
  content : m'.content = Function.update m.content sector buffer
  sectors : m'.sectors = m.sectors
  outcome : m'.outcome = m.outcome
  requests : m'.requests = .write sector :: m.requests

theorem Wrote.reliable (wrote : Wrote m m' sector buffer) (reliable : m.Reliable) :
    m'.Reliable := fun n => by rw [wrote.outcome, reliable]

theorem Wrote.inRange (wrote : Wrote m m' sector buffer) {s : Nat} :
    m'.InRange s ↔ m.InRange s := by
  unfold InRange
  rw [wrote.sectors]

theorem writeSectors_ok (reliable : m.Reliable) (inside : m.InRange sector) (buffer : Memory) :
    ∃ m', Wrote m m' sector buffer ∧ m.writeSectors sector buffer = (m', cOk) := by
  refine ⟨{ m with content := Function.update m.content sector buffer }.ask (.write sector),
    ⟨rfl, rfl, rfl, rfl⟩, ?_⟩
  rw [writeSectors, status_ok reliable inside]
  rfl

/-- Between the two states only sectors with this property were asked for. -/
def AsksOnly (p : Nat → Prop) (m m' : Medium) : Prop :=
  ∃ new, m'.requests = new ++ m.requests ∧ ∀ request ∈ new, p request.sector

variable {p : Nat → Prop}

theorem AsksOnly.refl (m : Medium) : AsksOnly p m m := ⟨[], rfl, by simp⟩

theorem AsksOnly.trans (first : AsksOnly p m m') (second : AsksOnly p m' m'') :
    AsksOnly p m m'' := by
  obtain ⟨new, eq, all⟩ := first
  obtain ⟨new', eq', all'⟩ := second
  refine ⟨new' ++ new, by rw [eq', eq, List.append_assoc], fun request member => ?_⟩
  rcases List.mem_append.mp member with later | earlier
  · exact all' request later
  · exact all request earlier

theorem AsksOnly.mono {q : Nat → Prop} (asks : AsksOnly p m m') (weaker : ∀ s, p s → q s) :
    AsksOnly q m m' := by
  obtain ⟨new, eq, all⟩ := asks
  exact ⟨new, eq, fun request member => weaker _ (all request member)⟩

theorem AsksOnly.one (asked : m'.requests = request :: m.requests) (holds : p request.sector) :
    AsksOnly p m m' :=
  ⟨[request], asked, fun other member => by rwa [List.mem_singleton.mp member]⟩

end Medium

end Orcos.Source.Fat

/-! ## The FAT file system: mounting and the allocation table

Source: src/source/filesystem/fat/FATFileSystem.cc and FATFileSystem.hh. All
words are unsigned; fields on the medium are little-endian and characters are
unsigned, as on the ports that mount such volumes. `buffer` and `temp_buf` are
filled before they are used in every function, so their former contents are no
part of the state. The mutex around the buffers, the names of volumes and the
log are left out.
-/
namespace Orcos.Source.Fat
open Lib.ByteMemory Lib.Loop

inductive FatType
  | fat12
  | fat16
  | fat32
  deriving DecidableEq

/-- End of chain, also the answer of the functions that find no cluster or
sector. -/
def EOC : Nat := 0x0FFFFFFF

/-- An error code in an unsigned word. -/
def errorWord (error : ErrorT) : Nat := (BitVec.ofInt 32 error).toNat

/-- The fields of `FAT_BS_BPB` that are looked at. -/
structure BsBpb where
  jmpBoot : Nat
  bytsPerSec : Nat
  secPerClus : Nat
  rsvdSecCnt : Nat
  numFATs : Nat
  rootEntCnt : Nat
  totSec16 : Nat
  fatSz16 : Nat
  totSec32 : Nat
  deriving DecidableEq

/-- The fields of `FAT32_BPB` that are looked at. -/
structure Fat32Bpb where
  fatSz32 : Nat
  rootClus : Nat
  fsInfo : Nat
  deriving DecidableEq

def BsBpb.ofBytes (buffer : Memory) : BsBpb where
  jmpBoot := (buffer 0).toNat
  bytsPerSec := read16 buffer 11
  secPerClus := (buffer 13).toNat
  rsvdSecCnt := read16 buffer 14
  numFATs := (buffer 16).toNat
  rootEntCnt := read16 buffer 17
  totSec16 := read16 buffer 19
  fatSz16 := read16 buffer 22
  totSec32 := read32 buffer 32

def Fat32Bpb.ofBytes (buffer : Memory) : Fat32Bpb where
  fatSz32 := read32 buffer 36
  rootClus := read32 buffer 44
  fsInfo := read16 buffer 48

structure FATFileSystem where
  myFatType : FatType
  myFATBPB : BsBpb
  myFAT32BPB : Fat32Bpb
  rootDirSectors : Nat
  firstDataSector : Nat
  dataSec : Nat
  countOfClusters : Nat
  sectorShiftValue : Nat
  deriving DecidableEq

namespace BsBpb

variable (bpb : BsBpb) (bpb32 : Fat32Bpb)

def fatSz : Nat := if bpb.fatSz16 ≠ 0 then bpb.fatSz16 else bpb32.fatSz32

def totSec : Nat := if bpb.totSec16 ≠ 0 then bpb.totSec16 else bpb.totSec32

def rootDirSectors : Nat := (bpb.rootEntCnt * 32 + (bpb.bytsPerSec - 1)) / bpb.bytsPerSec

def firstDataSector : Nat :=
  (bpb.rsvdSecCnt + bpb.numFATs * bpb.fatSz bpb32 + bpb.rootDirSectors) % 2 ^ 32

/-- The cases of the constructor; in any other the member keeps what the memory
held before. -/
def sectorShiftValue (uninitialised : Nat) : Nat :=
  match bpb.secPerClus with
  | 1 => 0
  | 2 => 1
  | 4 => 2
  | 8 => 3
  | 16 => 4
  | 32 => 5
  | 64 => 6
  | 128 => 7
  | _ => uninitialised

end BsBpb

/-- The constructor after the first sector was read; `none` when the file system
is not valid. The sectors of the partition have 512 bytes. -/
def FATFileSystem.ofBootSector (uninitialised : Nat) (buffer : Memory) : Option FATFileSystem :=
  let bpb := BsBpb.ofBytes buffer
  let bpb32 := Fat32Bpb.ofBytes buffer
  if (bpb.jmpBoot = 0xeb ∨ bpb.jmpBoot = 0xe9) ∧ bpb.bytsPerSec = 512 then
    let firstDataSector := bpb.firstDataSector bpb32
    let dataSec := wordSub (bpb.totSec) firstDataSector
    let countOfClusters := dataSec / bpb.secPerClus
    if countOfClusters < 4085 then none
    else some
      { myFatType := if countOfClusters < 65525 then .fat16 else .fat32
        myFATBPB := bpb
        myFAT32BPB := bpb32
        rootDirSectors := bpb.rootDirSectors
        firstDataSector := firstDataSector
        dataSec := dataSec
        countOfClusters := countOfClusters
        sectorShiftValue := bpb.sectorShiftValue uninitialised }
  else none

/-- The file system the constructor leaves on a partition. -/
def mount (uninitialised : Nat) (m : Medium) : Medium × Option FATFileSystem :=
  match m.readSectors 0 with
  | (m, .error _) => (m, none)
  | (m, .ok buffer) => (m, FATFileSystem.ofBootSector uninitialised buffer)

namespace FATFileSystem

variable (fs : FATFileSystem)

def sectorToCluster (sectornum : Nat) : Nat :=
  wordAdd (wordSub sectornum fs.firstDataSector >>> fs.sectorShiftValue) 2

def clusterToSector (clusternum : Nat) : Nat :=
  wordAdd fs.firstDataSector ((wordSub clusternum 2 <<< fs.sectorShiftValue) % 2 ^ 32)

/-- The first sector of the root directory of a FAT16 volume. -/
def firstRootDirSecNum : Nat :=
  (fs.myFATBPB.rsvdSecCnt + fs.myFATBPB.numFATs * fs.myFATBPB.fatSz16) % 2 ^ 32

/-- The sector of the FAT32 information, in sectors of the partition. -/
def fsinfoLba : Nat := fs.myFAT32BPB.fsInfo * (fs.myFATBPB.bytsPerSec / 512)

/-- The sector that holds the table entry at a byte address of the table. -/
def fatSecNum (addr : Nat) : Nat := wordAdd fs.myFATBPB.rsvdSecCnt (addr / 512)

def fatEntOffset (addr : Nat) : Nat := addr &&& (512 - 1)

/-- The variables of the search for a free entry. -/
structure Search where
  fatEntryValue : Nat
  fatentoffset : Nat
  currentCluster : Nat
  currentClusterAddr : Nat
  deriving DecidableEq

/-- The loop over the entries of one sector. -/
def searchSector (buffer : Memory) (s : Search) : Search :=
  if s.fatEntryValue ≠ 0 ∧ s.fatentoffset < 512 then
    searchSector buffer
      { fatEntryValue := read32 buffer s.fatentoffset &&& 0x0FFFFFFF
        fatentoffset := s.fatentoffset + 4
        currentCluster := s.currentCluster + 1
        currentClusterAddr := wordAdd s.currentClusterAddr 4 }
  else s
termination_by 512 - s.fatentoffset

theorem le_searchSector (buffer : Memory) (s : Search) :
    s.currentCluster ≤ (searchSector buffer s).currentCluster := by
  fun_induction searchSector buffer s with
  | case1 s more ih => exact Nat.le_trans (Nat.le_succ _) ih
  | case2 s ended => exact Nat.le_refl _

/-- In a sector that is entered at one of its bytes one entry at least is
looked at. -/
theorem lt_searchSector (buffer : Memory) (s : Search) (value : s.fatEntryValue ≠ 0)
    (inside : s.fatentoffset < 512) :
    s.currentCluster < (searchSector buffer s).currentCluster := by
  rw [searchSector, if_pos ⟨value, inside⟩]
  exact le_searchSector buffer ⟨_, _, s.currentCluster + 1, _⟩

theorem fatEntOffset_lt (addr : Nat) : fatEntOffset addr < 512 :=
  Nat.lt_of_le_of_lt Nat.and_le_right (by decide)

/-- The loop over the sectors of the table. Ends with the sector read last and
its contents, or with `none` when a sector cannot be read. -/
def searchTable (m : Medium) (s : Search) (fatsecnum : Nat) (buffer : Memory) :
    Medium × Option (Search × Nat × Memory) :=
  if _more : s.fatEntryValue ≠ 0 ∧ s.currentCluster < fs.countOfClusters then
    let fatsecnum := fs.fatSecNum s.currentClusterAddr
    match m.readSectors fatsecnum with
    | (m, .error _) => (m, none)
    | (m, .ok buffer) =>
      searchTable m (searchSector buffer { s with
        fatentoffset := fatEntOffset s.currentClusterAddr }) fatsecnum buffer
  else (m, some (s, fatsecnum, buffer))
termination_by fs.countOfClusters - s.currentCluster
decreasing_by
  have advances := lt_searchSector buffer
    { s with fatentoffset := fatEntOffset s.currentClusterAddr } _more.1 (fatEntOffset_lt _)
  simp only at advances
  omega

/-- The update of the free count and of the hint after a cluster was taken. -/
def takeFsInfo (m : Medium) (currentCluster : Nat) : Medium × Nat :=
  match m.readSectors fs.fsinfoLba with
  | (m, .error _) => (m, EOC)
  | (m, .ok fsinfo) =>
    let fsinfo := write32 fsinfo 488 (wordSub (read32 fsinfo 488) 1)
    let fsinfo := write32 fsinfo 492 (wordAdd currentCluster 1)
    let (m, error) := m.writeSectors fs.fsinfoLba fsinfo
    if isError error then (m, EOC) else (m, currentCluster)

/-- The part of `allocateCluster` after the search: the free entry is marked as
the end of a chain. -/
def takeEntry (found : Medium × Option (Search × Nat × Memory)) : Medium × Nat :=
  match found with
  | (m, none) => (m, EOC)
  | (m, some (s, fatsecnum, buffer)) =>
    if s.fatEntryValue = 0 then
      let fatentoffset := s.fatentoffset - 4
      let currentCluster := s.currentCluster - 1
      let (m, error) := m.writeSectors fatsecnum (write32 buffer fatentoffset 0xffffff8)
      if isError error then (m, EOC) else takeFsInfo fs m currentCluster
    else (m, EOC)

def allocateCluster (m : Medium) : Medium × Nat :=
  match fs.myFatType with
  | .fat16 => (m, 0xFFFF)
  | _ =>
    match m.readSectors fs.fsinfoLba with
    | (m, .error _) => (m, errorWord cError)
    | (m, .ok fsinfo) =>
      let hint := read32 fsinfo 492
      let clusterStart := if hint = 0xFFFFFFFF then 2 else hint
      takeEntry fs (searchTable fs m ⟨EOC, 0, clusterStart, clusterStart * 4 % 2 ^ 32⟩ 0 fsinfo)

/-- The variables of `freeClusterChain`; the entry that was read last is
`fatEntryValue`. -/
structure Release where
  medium : Medium
  buffer : Memory
  fatEntryValue : Nat
  fatEntryAddr : Nat
  fatentoffset : Nat
  fatsecnum : Nat
  freeCount : Nat

/-- The body of the loop of `freeClusterChain`. The results of the transfers
inside it are not looked at, so a sector that cannot be read leaves the buffer
as it was. -/
def releaseEntry (s : Release) : Round Release Release :=
  if s.fatEntryValue ≠ 0x0ffffff8 ∧ s.fatentoffset < fs.myFATBPB.bytsPerSec then
    let fatEntryValue := read32 s.buffer s.fatentoffset &&& 0x0FFFFFFF
    if fatEntryValue = 0 then .done { s with fatEntryValue := fatEntryValue }
    else
      let s := { s with
        fatEntryValue := fatEntryValue
        buffer := write32 s.buffer s.fatentoffset 0
        freeCount := wordAdd s.freeCount 1 }
      if 0xffffff8 ≤ fatEntryValue then .done s
      else
        let fatEntryAddr := fatEntryValue * 4 % 2 ^ 32
        let nextfatsecnum := fs.fatSecNum fatEntryAddr
        let s := { s with
          fatEntryAddr := fatEntryAddr
          fatentoffset := fatEntOffset fatEntryAddr }
        if nextfatsecnum ≠ s.fatsecnum then
          let (m, _) := s.medium.writeSectors s.fatsecnum s.buffer
          let (m, read) := m.readSectors nextfatsecnum
          .again { s with
            medium := m
            fatsecnum := nextfatsecnum
            buffer := read.toOption.getD s.buffer }
        else .again s
  else .done s

/-- The update of the free count and of the hint after a chain was freed. A
failed read leaves the table sector in the buffer. -/
def releaseFsInfo (s : Release) (clusterStart : Nat) : Medium × Bool :=
  let (m, read) := s.medium.readSectors fs.fsinfoLba
  let fsinfo := read.toOption.getD s.buffer
  let fsinfo := write32 fsinfo 488 (wordAdd (read32 fsinfo 488) s.freeCount)
  let fsinfo :=
    if clusterStart < read32 fsinfo 492 then write32 fsinfo 492 clusterStart else fsinfo
  let (m, error) := m.writeSectors fs.fsinfoLba fsinfo
  (m, !isError error)

/-- `none` when so many rounds of the loop do not suffice. -/
def freeClusterChain (rounds : Nat) (m : Medium) (clusterStart : Nat) : Option (Medium × Bool) :=
  match fs.myFatType with
  | .fat16 => some (m, false)
  | _ =>
    let fatEntryAddr := clusterStart * 4 % 2 ^ 32
    let fatsecnum := fs.fatSecNum fatEntryAddr
    match m.readSectors fatsecnum with
    | (m, .error _) => some (m, false)
    | (m, .ok buffer) =>
      (loop (releaseEntry fs) rounds
        ⟨m, buffer, 0, fatEntryAddr, fatEntOffset fatEntryAddr, fatsecnum, 0⟩).map fun s =>
          let (m, _) := s.medium.writeSectors s.fatsecnum s.buffer
          releaseFsInfo fs { s with medium := m } clusterStart

/-- The byte address of the entry of a cluster in the table. -/
def entryAddr (clusterNum : Nat) : Nat :=
  clusterNum * (if fs.myFatType = .fat16 then 2 else 4) % 2 ^ 32

/-- The entry of a cluster on a FAT16 or FAT32 volume. With `allocate` an end of
chain is replaced by what `allocateCluster` answers; the read before the write
is not checked. -/
def getFATTableEntry (m : Medium) (clusterNum : Nat) (allocate : Bool) : Medium × Nat :=
  let fatentoffset := fatEntOffset (fs.entryAddr clusterNum)
  let fatsecnum := fs.fatSecNum (fs.entryAddr clusterNum)
  match m.readSectors fatsecnum with
  | (m, .error _) => (m, EOC)
  | (m, .ok buffer) =>
    if fs.myFatType = .fat16 then
      let nextCluster := read16 buffer fatentoffset
      if 0xFFF8 ≤ nextCluster ∧ allocate then
        let (m, cluster) := fs.allocateCluster m
        let nextCluster := cluster % 2 ^ 16
        let (m, read) := m.readSectors fatsecnum
        let (m, error) := m.writeSectors fatsecnum
          (write16 (read.toOption.getD buffer) fatentoffset nextCluster)
        (m, if isError error then EOC else nextCluster)
      else (m, nextCluster)
    else
      let nextCluster := read32 buffer fatentoffset &&& 0x0FFFFFFF
      if 0xFFFFFF8 ≤ nextCluster ∧ allocate then
        let (m, nextCluster) := fs.allocateCluster m
        let (m, read) := m.readSectors fatsecnum
        let (m, error) := m.writeSectors fatsecnum
          (write32 (read.toOption.getD buffer) fatentoffset nextCluster)
        (m, if isError error then EOC else nextCluster)
      else (m, nextCluster)

/-- The values from this one on end a chain. -/
def endOfChain : Nat := if fs.myFatType = .fat16 then 0xFFF8 else 0xFFFFFF8

def getNextSector (m : Medium) (currentSector currentCluster : Nat) (allocate : Bool) :
    Medium × Nat :=
  if currentSector >>> fs.sectorShiftValue ≠
      wordAdd currentSector 1 >>> fs.sectorShiftValue then
    let (m, nextClusterNum) := fs.getFATTableEntry m currentCluster allocate
    (m, if fs.endOfChain ≤ nextClusterNum then EOC else fs.clusterToSector nextClusterNum)
  else (m, wordAdd currentSector 1)

end FATFileSystem

end Orcos.Source.Fat
