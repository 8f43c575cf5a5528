import Orcos.Source.Fat.File
import Orcos.Guarantees.ChainExtension
import Orcos.Guarantees.ClusterWalks
import Orcos.Lib.Extents

/-!
# Volumes whose files can be followed

Source: src/source/filesystem/fat/FATFileSystem.cc, `getFATTableEntry` with `allocate`,
`getNextSector`; src/source/filesystem/fat/FATFile.cc, `writeBytes`.

On an aligned volume the sectors of a chain are apart from each other and from the table.
Asking the last cluster for a successor changes the table only: a free cluster becomes the new
last one, or nothing is free.
-/
namespace Orcos.Guarantees.FatVolumes
open Orcos.Source Orcos.Source.Fat Orcos.Lib.ByteMemory Orcos.Lib.Successors Orcos.Lib.Extents
open Orcos.Guarantees.ClusterWalks (chainSectors chainSectors_cons length_chainSectors)

/-- A volume whose files can be followed sector by sector, on a medium without faults: the
data area lies behind the table and inside the partition, at a multiple of the cluster size,
and no sector has the number that reports the end of a chain. -/
structure Usable (fs : FATFileSystem) (m : Medium) : Prop where
  partition : fs.OnPartition m
  reliable : m.Reliable
  shift : 2 ^ fs.sectorShiftValue = fs.myFATBPB.secPerClus
  aligned : fs.myFATBPB.secPerClus ∣ fs.firstDataSector
  table : fs.myFATBPB.rsvdSecCnt + fs.fatSz ≤ fs.firstDataSector
  sectors : fs.firstDataSector + fs.countOfClusters * fs.myFATBPB.secPerClus < m.sectors
  ends : m.sectors ≤ EOC

/-- A cluster of the volume. -/
def InVolume (fs : FATFileSystem) (c : Nat) : Prop := 2 ≤ c ∧ c < fs.countOfClusters + 2

/-- The bytes of the clusters of a chain. -/
def chainBytes (fs : FATFileSystem) (content : Nat → Memory) (clusters : List Nat) : List Byte :=
  (chainSectors fs clusters).flatMap fun sector => bytesAt (content sector) 0 512

variable {fs : FATFileSystem} {m m' : Medium} {s s' : FileState} {clusters : List Nat}
  {c d k n sector : Nat} {bytes : List Byte}

namespace Usable

variable (usable : Usable fs m)

include usable

theorem same (sectors : m'.sectors = m.sectors) (outcome : m'.outcome = m.outcome) :
    Usable fs m' :=
  { usable with
    partition := by
      rcases usable.partition with fat16 | fat32
      · exact .inl { fat16 with
          partition := by rw [sectors]; exact fat16.partition
          word := by rw [sectors]; exact fat16.word }
      · exact .inr { fat32 with
          partition := by rw [sectors]; exact fat32.partition
          word := by rw [sectors]; exact fat32.word }
    reliable := fun n => by rw [outcome, usable.reliable]
    sectors := by rw [sectors]; exact usable.sectors
    ends := by rw [sectors]; exact usable.ends }

theorem positive : 0 < fs.myFATBPB.secPerClus := by
  rw [← usable.shift]
  exact Nat.two_pow_pos _

/-- The sectors of a cluster lie inside the data area. -/
theorem sector_lt (inVolume : InVolume fs c) (inside : n < fs.myFATBPB.secPerClus) :
    fs.firstSector c + n + 1 < m.sectors := by
  obtain ⟨two, high⟩ := inVolume
  have sectors := usable.sectors
  have step : (c - 2) * fs.myFATBPB.secPerClus + fs.myFATBPB.secPerClus ≤
      fs.countOfClusters * fs.myFATBPB.secPerClus := by
    rw [← Nat.succ_mul]
    exact Nat.mul_le_mul_right _ (by omega)
  rw [FATFileSystem.firstSector]
  omega

theorem inRange (inVolume : InVolume fs c) (inside : n < fs.myFATBPB.secPerClus) :
    m.InRange (fs.firstSector c + n) := by
  have less := usable.sector_lt inVolume inside
  have ends := usable.ends
  rw [EOC] at ends
  rw [Medium.InRange, wordAdd_eq (by omega)]
  exact less

theorem clusterToSector_eq (inVolume : InVolume fs c) :
    fs.clusterToSector c = fs.firstSector c := by
  have less := usable.sector_lt inVolume usable.positive
  have ends := usable.ends
  rw [FATFileSystem.firstSector] at less ⊢
  rw [EOC] at ends
  rw [← usable.shift] at less ⊢
  exact FATFileSystem.clusterToSector_eq inVolume.1 (by omega)

theorem sectorToCluster_eq (inVolume : InVolume fs c) (inside : n < fs.myFATBPB.secPerClus) :
    fs.sectorToCluster (fs.firstSector c + n) = c := by
  have less := usable.sector_lt inVolume inside
  have ends := usable.ends
  have number := ChainExtension.lt_EOC usable.partition
  have high := inVolume.2
  rw [FATFileSystem.firstSector] at less ⊢
  rw [EOC] at ends number
  rw [← usable.shift] at less inside ⊢
  exact FATFileSystem.sectorToCluster_eq inVolume.1 (by omega) inside (by omega)

/-- The sector after one of a cluster begins another cluster where the cluster ends. -/
theorem boundary_iff (inside : n < fs.myFATBPB.secPerClus) :
    2 ^ fs.sectorShiftValue ∣ fs.firstSector c + n + 1 ↔ n + 1 = fs.myFATBPB.secPerClus := by
  have area : fs.myFATBPB.secPerClus ∣ fs.firstSector c :=
    Nat.dvd_add usable.aligned (Nat.dvd_mul_left _ _)
  rw [usable.shift, Nat.add_assoc, ← Nat.dvd_add_iff_right area]
  constructor
  · intro divides
    exact Nat.le_antisymm (by omega) (Nat.le_of_dvd (Nat.succ_pos _) divides)
  · intro whole
    rw [whole]

end Usable

theorem getElem?_chainSectors (fs : FATFileSystem) (clusters : List Nat) (k : Nat)
    (inside : n < fs.myFATBPB.secPerClus) :
    (chainSectors fs clusters)[fs.myFATBPB.secPerClus * k + n]? =
      clusters[k]?.map fun c => fs.firstSector c + n := by
  have even : ∀ c ∈ clusters, (fs.clusterSectors c).length = fs.myFATBPB.secPerClus :=
    fun _ _ => List.length_range'
  rw [chainSectors, getElem?_rows even inside]
  cases clusters[k]? with
  | none => rfl
  | some c =>
    simp only [Option.bind_some, Option.map_some, FATFileSystem.clusterSectors]
    rw [List.getElem?_range' inside, Nat.one_mul]

theorem getElem?_chainBytes (fs : FATFileSystem) (content : Nat → Memory) (clusters : List Nat)
    (k : Nat) (inside : n < 512) :
    (chainBytes fs content clusters)[512 * k + n]? =
      (chainSectors fs clusters)[k]?.map fun sector => content sector n := by
  rw [chainBytes, getElem?_rows (fun _ _ => length_bytesAt) inside]
  cases (chainSectors fs clusters)[k]? with
  | none => rfl
  | some sector =>
    simp only [Option.bind_some, Option.map_some]
    rw [List.getElem?_eq_getElem (by rwa [length_bytesAt]), getElem_bytesAt, Nat.zero_add]

theorem length_chainBytes {content : Nat → Memory} :
    (chainBytes fs content clusters).length =
      512 * (fs.myFATBPB.secPerClus * clusters.length) := by
  rw [chainBytes, length_rows fun _ _ => length_bytesAt, length_chainSectors,
    Nat.mul_comm clusters.length]

/-- Other sectors do not matter for the bytes of a chain. -/
theorem chainBytes_congr {content content' : Nat → Memory}
    (same : ∀ sector ∈ chainSectors fs clusters, content' sector = content sector) :
    chainBytes fs content' clusters = chainBytes fs content clusters :=
  List.flatMap_congr fun sector member => by rw [same sector member]

theorem mem_chainSectors : sector ∈ chainSectors fs clusters ↔
    ∃ c ∈ clusters, ∃ n < fs.myFATBPB.secPerClus, sector = fs.firstSector c + n := by
  simp only [chainSectors, List.mem_flatMap, FATFileSystem.clusterSectors, List.mem_range'_1]
  constructor
  · rintro ⟨c, member, low, high⟩
    exact ⟨c, member, sector - fs.firstSector c, by omega, by omega⟩
  · rintro ⟨c, member, n, inside, rfl⟩
    exact ⟨c, member, by omega, by omega⟩

/-- The sectors of two clusters are apart. -/
theorem sector_inj (usable : Usable fs m) (inVolume : InVolume fs c) (inVolume' : InVolume fs d)
    {i : Nat} (inside : n < fs.myFATBPB.secPerClus) (inside' : i < fs.myFATBPB.secPerClus)
    (same : fs.firstSector c + n = fs.firstSector d + i) : c = d ∧ n = i := by
  have first := usable.sectorToCluster_eq inVolume inside
  rw [same, usable.sectorToCluster_eq inVolume' inside'] at first
  exact ⟨first.symm, by rw [first] at same; omega⟩

/-! ### Successors and free clusters -/

/-- How many clusters one allocation after the other finds from a cluster on. -/
def Supply (fs : FATFileSystem) (m : Medium) : Nat → Nat → Prop
  | _, 0 => True
  | start, n + 1 => fs.myFatType ≠ .fat16 ∧
    ∃ f, fs.Found m start f ∧ InVolume fs f ∧ Supply fs m (f + 1) n

/-- No allocation finds a cluster. -/
def Dry (fs : FATFileSystem) (m : Medium) : Prop :=
  fs.myFatType = .fat16 ∨ ¬∃ f, fs.Found m (fs.searchStart m) f

/-- The table and what lies in front of it stay. -/
structure TableKept (fs : FATFileSystem) (m m' : Medium) : Prop where
  sectors : m'.sectors = m.sectors
  outcome : m'.outcome = m.outcome
  content : ∀ s < fs.myFATBPB.rsvdSecCnt + fs.fatSz, m'.content s = m.content s

/-- What lies behind the table stays. -/
structure DataKept (fs : FATFileSystem) (m m' : Medium) : Prop where
  sectors : m'.sectors = m.sectors
  outcome : m'.outcome = m.outcome
  content : ∀ s, fs.myFATBPB.rsvdSecCnt + fs.fatSz ≤ s → m'.content s = m.content s

variable {start f : Nat}

theorem Supply.congr (supply : Supply fs m start n)
    (same : fs.myFatType ≠ .fat16 → ∀ d, start ≤ d → d < fs.searchEnd →
      (fs.entry m'.content d = 0 ↔ fs.entry m.content d = 0)) : Supply fs m' start n := by
  induction n generalizing start with
  | zero => trivial
  | succ n ih =>
    obtain ⟨type, f, found, inVolume, rest⟩ := supply
    have low := found.low
    refine ⟨type, f, ⟨found.started, low, found.high, (same type f low found.high).mpr found.free,
      ?_⟩, inVolume, ih rest fun type d above => same type d (by omega)⟩
    intro d above less
    exact mt (same type d above (Nat.lt_trans less found.high)).mp (found.first d above less)

namespace Usable

variable (usable : Usable fs m)

include usable

/-- The table is in front of the data. -/
theorem slotSector_lt (inVolume : InVolume fs d) :
    fs.slotSector d < fs.myFATBPB.rsvdSecCnt + fs.fatSz := by
  have sector := Nat.div_lt_of_lt_mul (usable.partition.inTable inVolume.2)
  rw [FATFileSystem.slotSector]
  omega

theorem passes (i : Nat) : m.Passes i := by
  rw [Medium.Passes, usable.reliable]
  decide

theorem number_lt (inVolume : InVolume fs d) : d < 2 ^ 28 := by
  have number := ChainExtension.lt_EOC usable.partition
  have high := inVolume.2
  rw [EOC] at number
  omega

theorem entry_of_slot {content content' : Nat → Memory} (inVolume : InVolume fs d)
    (same : fs.slot content' d = fs.slot content d) : fs.entry content' d = fs.entry content d := by
  rw [usable.partition.entry_eq inVolume.2, usable.partition.entry_eq inVolume.2, same]

end Usable

theorem TableKept.trans {m'' : Medium} (first : TableKept fs m m') (second : TableKept fs m' m'') :
    TableKept fs m m'' :=
  ⟨second.sectors.trans first.sectors, second.outcome.trans first.outcome,
    fun s front => (second.content s front).trans (first.content s front)⟩

namespace TableKept

variable (kept : TableKept fs m m') (usable : Usable fs m)

include kept usable

theorem entry_eq (inVolume : InVolume fs d) : fs.entry m'.content d = fs.entry m.content d := by
  apply usable.entry_of_slot inVolume
  rw [FATFileSystem.slot, FATFileSystem.slot, kept.content _ (usable.slotSector_lt inVolume)]

theorem searchStart_eq (type : fs.myFatType ≠ .fat16) : fs.searchStart m' = fs.searchStart m := by
  have info := (usable.partition.fat32 type).info
  rw [FATFileSystem.searchStart, FATFileSystem.searchStart, FATFileSystem.nxtFree,
    FATFileSystem.nxtFree, kept.content _ (by omega)]

theorem free_iff (type : fs.myFatType ≠ .fat16) (inside : d < fs.searchEnd) :
    fs.entry m'.content d = 0 ↔ fs.entry m.content d = 0 := by
  have volume := usable.partition.fat32 type
  have table := volume.table
  have numbers := volume.numbers
  have bound : fs.searchEnd = (fs.countOfClusters + 127) / 128 * 128 := rfl
  rw [volume.entry_eq (by omega) (by omega), volume.entry_eq (by omega) (by omega),
    FATFileSystem.tableWord, FATFileSystem.tableWord, kept.content _ (by omega)]

theorem supply (supply : Supply fs m (fs.searchStart m) n) :
    Supply fs m' (fs.searchStart m') n := by
  cases n with
  | zero => trivial
  | succ n =>
    rw [kept.searchStart_eq usable supply.1]
    exact supply.congr fun type d _ high => kept.free_iff usable type high

theorem dry (dry : Dry fs m) : Dry fs m' := by
  by_cases type : fs.myFatType = .fat16
  · exact .inl type
  · right
    rintro ⟨f, found⟩
    rw [kept.searchStart_eq usable type] at found
    apply dry.resolve_left type
    refine ⟨f, found.started, found.low, found.high,
      (kept.free_iff usable type found.high).mp found.free, fun d low less => ?_⟩
    exact mt (kept.free_iff usable type (Nat.lt_trans less found.high)).mpr (found.first d low less)

end TableKept

/-- What an allocation finds on a medium without faults. -/
theorem allocates_reliable (reliable : m.Reliable) {a : FATFileSystem.Allocated}
    (allocates : fs.Allocates m a) :
    (fs.myFatType ≠ .fat16 ∧ fs.Found m (fs.searchStart m) a.answer ∧ a.marked = some a.answer) ∨
      (Dry fs m ∧ a.marked = none ∧
        a.answer = if fs.myFatType = .fat16 then 0xFFFF else EOC) := by
  have passes (i : Nat) : m.Passes i := by
    rw [Medium.Passes, reliable]
    decide
  cases allocates with
  | fat16 type => exact .inr ⟨.inl type, rfl, (if_pos type).symm⟩
  | unreadable type failed => exact absurd (passes 0) failed
  | nothing type read searched =>
    refine .inr ⟨.inr ?_, rfl, (if_neg type).symm⟩
    cases searched with
    | stopped more used reads failed => exact absurd (passes _) (mt Medium.passes_ask.mpr failed)
    | exhausted used reads =>
      rintro ⟨f, found⟩
      exact used ⟨f, found.same (Medium.Same.ask m (.read fs.fsinfoLba)).symm⟩
  | @found k f type read searched =>
    have taken : FATFileSystem.taken m (k + 1) f = ⟨f, some f, k + 1 + 3⟩ := by
      simp [FATFileSystem.taken, passes]
    rw [taken]
    cases searched with
    | found first reads =>
      exact .inl ⟨type, first.same (.ask m (.read fs.fsinfoLba)), rfl⟩

variable (usable : Usable fs m) (inVolume : InVolume fs c)
  (ends : fs.endOfChain ≤ fs.entry m.content c)

section Extend

include usable inVolume ends

/-- Asking for a successor leaves the data alone. -/
theorem dataKept_extend : DataKept fs m (fs.getFATTableEntry m c true).1 := by
  have volume := usable.partition
  have sector := (volume.entrySector_eq inVolume.2).1
  have table := usable.slotSector_lt inVolume
  have status := mt (Medium.isError_status_iff (volume.inRange inVolume.2)).mp
    (not_not_intro (usable.passes 0))
  have volume' : fs.OnPartition (m.ask (.read (fs.entrySector c))) := volume.same (.ask m _)
  obtain ⟨a, m₁, allocates, answer, leaves⟩ :=
    FATFileSystem.allocateCluster_allocates (volume'.imp_left FATFileSystem.Fat16Volume.type)
  rw [FATFileSystem.getFATTableEntry_extend status ends answer]
  refine ⟨leaves.later.sectors, leaves.later.outcome, fun s behind => ?_⟩
  rw [Medium.writeSectors_elsewhere (by omega), Medium.ask_content, leaves.content s (by omega)]
  cases marked : a.marked with
  | none => rfl
  | some f =>
    obtain ⟨type, found⟩ := ChainExtension.found_of_marked allocates marked
    have inside := (ClusterAllocation.found_lt (volume'.fat32 type) found).1
    exact FATFileSystem.setTableWord_elsewhere (by omega)

/-- The entries when a last cluster was asked for its successor: it has one, or nothing is
free. -/
theorem slot_extended :
    (fs.myFatType ≠ .fat16 ∧ fs.Found m (fs.searchStart m) (fs.getFATTableEntry m c true).2 ∧
      ∀ d, fs.slot (fs.getFATTableEntry m c true).1.content d =
        if d = c then (fs.getFATTableEntry m c true).2
        else if d = (fs.getFATTableEntry m c true).2 then 0xffffff8 else fs.slot m.content d) ∨
    (Dry fs m ∧
      (fs.getFATTableEntry m c true).2 = (if fs.myFatType = .fat16 then 0xFFFF else EOC) ∧
      ∀ d, fs.slot (fs.getFATTableEntry m c true).1.content d =
        if d = c then (fs.getFATTableEntry m c true).2 else fs.slot m.content d) := by
  obtain ⟨a, allocates, answer, places⟩ :=
    ChainExtension.slot_extend usable.partition inVolume.2 (usable.passes 0) ends
  rw [if_pos (usable.passes _)] at answer
  have same := Medium.Same.ask m (.read (fs.entrySector c))
  have reliable := same.reliable usable.reliable
  have places (d : Nat) : fs.slot (fs.getFATTableEntry m c true).1.content d =
      if d = c then a.answer else if a.marked = some d then 0xffffff8 else fs.slot m.content d := by
    rw [places d]
    simp [usable.passes]
  rw [answer]
  rcases allocates_reliable reliable allocates with ⟨type, found, marked⟩ | ⟨dry, marked, value⟩
  · refine .inl ⟨type, found.same same, fun d => ?_⟩
    rw [places d, marked]
    simp only [Option.some.injEq, eq_comm]
  · have dry : Dry fs m := dry.imp_right fun none => by
      rintro ⟨f, found⟩
      exact none ⟨f, found.same same.symm⟩
    refine .inr ⟨dry, value, fun d => ?_⟩
    rw [places d, marked]
    simp

/-- After an allocation the search starts behind the cluster that was found. -/
theorem searchStart_extended (type : fs.myFatType ≠ .fat16)
    (found : fs.Found m (fs.searchStart m) f) (inVolume' : InVolume fs f) :
    fs.searchStart (fs.getFATTableEntry m c true).1 = f + 1 := by
  have volume := usable.partition
  have fat32 := volume.fat32 type
  have info := fat32.info
  have number := usable.number_lt inVolume'
  have sector := (volume.entrySector_eq inVolume.2).1
  have status := mt (Medium.isError_status_iff (volume.inRange inVolume.2)).mp
    (not_not_intro (usable.passes 0))
  have same := Medium.Same.ask m (.read (fs.entrySector c))
  have hint : fs.searchStart m < 2 ^ 30 := by
    have started := found.started
    have numbers := fat32.numbers
    omega
  obtain ⟨m₁, content, _, _, _, answer⟩ := FATFileSystem.allocateCluster_found (fat32.same same)
    (same.reliable usable.reliable) hint (found.same same.symm)
  have apart : fs.fsinfoLba ≠ fs.entrySector c := by
    have low : fs.myFATBPB.rsvdSecCnt ≤ fs.slotSector c := Nat.le_add_right _ _
    omega
  have start : fs.nxtFree (fs.getFATTableEntry m c true).1 = f + 1 := by
    rw [FATFileSystem.getFATTableEntry_extend status ends answer, FATFileSystem.nxtFree,
      Medium.writeSectors_elsewhere apart, Medium.ask_content, content, FATFileSystem.takenContent,
      Function.update_self, wordAdd_eq (by omega), read32_write32 _ _ (by omega)]
  rw [FATFileSystem.searchStart, start, if_neg (by omega)]

end Extend

/-! ### The next sector -/

namespace Usable

variable (usable : Usable fs m)

include usable

theorem ne_EOC (inVolume : InVolume fs c) (inside : n < fs.myFATBPB.secPerClus) :
    fs.firstSector c + n ≠ EOC := by
  have less := usable.sector_lt inVolume inside
  have ends := usable.ends
  omega

theorem word_lt (inVolume : InVolume fs c) (inside : n < fs.myFATBPB.secPerClus) :
    fs.firstSector c + n + 1 < 2 ^ 32 := by
  have less := usable.sector_lt inVolume inside
  have ends := usable.ends
  rw [EOC] at ends
  omega

theorem readable (inVolume : InVolume fs c) : ¬isError (m.status (fs.entrySector c)) :=
  mt (Medium.isError_status_iff (usable.partition.inRange inVolume.2)).mp
    (not_not_intro (usable.passes 0))

/-- Inside a cluster the next sector is the one with the next number. -/
theorem getNextSector_inside (inVolume : InVolume fs c) (more : n + 1 < fs.myFATBPB.secPerClus)
    (d : Nat) (allocate : Bool) :
    fs.getNextSector m (fs.firstSector c + n) d allocate = (m, fs.firstSector c + (n + 1)) := by
  have word := usable.word_lt inVolume (n := n) (by omega)
  have within : ¬2 ^ fs.sectorShiftValue ∣ fs.firstSector c + n + 1 :=
    mt (usable.boundary_iff (by omega)).mp (by omega)
  rw [FATFileSystem.getNextSector, if_neg (mt (two_pow_dvd_succ_iff word).mp within),
    wordAdd_eq word, Nat.add_assoc]

/-- Behind a cluster the table tells what follows. -/
theorem getNextSector_end (inVolume : InVolume fs c) (last : n + 1 = fs.myFATBPB.secPerClus)
    (d : Nat) (allocate : Bool) :
    fs.getNextSector m (fs.firstSector c + n) d allocate =
      ((fs.getFATTableEntry m d allocate).1,
        if fs.endOfChain ≤ (fs.getFATTableEntry m d allocate).2 then EOC
        else fs.clusterToSector (fs.getFATTableEntry m d allocate).2) := by
  have word := usable.word_lt inVolume (n := n) (by omega)
  have boundary : 2 ^ fs.sectorShiftValue ∣ fs.firstSector c + n + 1 :=
    (usable.boundary_iff (by omega)).mpr last
  rw [FATFileSystem.getNextSector, if_pos ((two_pow_dvd_succ_iff word).mpr boundary)]

end Usable

end Orcos.Guarantees.FatVolumes
