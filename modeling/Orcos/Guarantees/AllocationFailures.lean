import Orcos.Source.Fat.Allocation
import Orcos.Source.Fat.Directory
import Orcos.Source.Fat.File

/-!
# No cluster can be allocated

Source: src/source/filesystem/fat/FATFileSystem.cc, `allocateCluster` and
`getFATTableEntry`; FATDirectory.cc, `allocateEntry`; FATFile.cc, `writeBytes`.

`allocateCluster` has three answers for a failure. `writeBytes` reports each of
them. `allocateEntry` takes all but the end of a chain for a cluster, and the
table is given whatever the answer is.
-/
namespace Orcos.Guarantees.AllocationFailures
open Orcos.Source Orcos.Source.Fat Orcos.Lib.ByteMemory Orcos.Lib.Loop

variable (fs : FATFileSystem)

/-- No cluster can be allocated: the type of the volume is not supported, the
information sector cannot be read, or no cluster is found that can be taken. -/
def NoCluster (m : Medium) : Prop :=
  fs.myFatType = .fat16 ∨ isError (m.status fs.fsinfoLba) ∨ (fs.allocateCluster m).2 = EOC

/-- The allocation gets as far as the search for a free entry. -/
def Searches (m : Medium) : Prop := fs.myFatType ≠ .fat16 ∧ ¬isError (m.status fs.fsinfoLba)

/-- A FAT16 volume, or a FAT32 volume that the partition holds. -/
def Volume (m : Medium) : Prop := fs.myFatType = .fat16 ∨ fs.Fat32Volume m

section Table

variable (m : Medium) (c : Nat)

/-- The entry of a cluster can be read and ends a chain. -/
structure LastCluster : Prop where
  readable : ¬isError (m.status (fs.entrySector c))
  ends : fs.endOfChain ≤ fs.entry m.content c

/-- The medium when `getFATTableEntry` asks for a new cluster. -/
def asking : Medium := m.ask (.read (fs.entrySector c))

/-- The chain that ends with a cluster is reported to end there, and its entry still
says so. -/
def EndKept : Prop :=
  fs.endOfChain ≤ (fs.getFATTableEntry m c true).2 ∧
    fs.endOfChain ≤ fs.entry (fs.getFATTableEntry m c true).1.content c

/-- The write of the entry fails after the information sector could not be read. -/
def WriteFails : Prop :=
  isError ((((asking fs m c).ask (.read fs.fsinfoLba)).ask
    (.read (fs.entrySector c))).status (fs.entrySector c))

end Table

section Directory

/-- The entries of a name find a place from the position of the iterator on, and so
does a new end of the directory. -/
def Room (name : List Byte) (attr cluster : Nat) (append : Bool) (place : DirState × Option Nat) :
    Prop :=
  ∃ s number, writeLongEntries fs ((List.range (longEntries name)).map (longEntry name))
      place.1 place.2 = some (s, some number) ∧
    (append → ((s.setEntry number (shortEntry name attr cluster)).getNextEntry fs true true).2 ≠
      none)

/-- The state of a call that asks for a cluster, after it got its answer. -/
def answered (place : DirState × Option Nat) : DirState × Option Nat :=
  ({ place.1 with medium := (fs.allocateCluster place.1.medium).1 }, place.2)

end Directory

section File

/-- A file needs a cluster behind its current sector, and none can be allocated. -/
structure Starves (s : FileState) : Prop where
  boundary : s.file.currentSector >>> fs.sectorShiftValue ≠
    wordAdd s.file.currentSector 1 >>> fs.sectorShiftValue
  last : LastCluster fs s.medium s.file.currentCluster
  none : NoCluster fs (asking fs s.medium s.file.currentCluster)

/-- The loop of `writeBytes` comes to a sector behind which a cluster is needed
and none can be allocated. -/
inductive RunsOut : FileState → List Byte → Bool → Prop
  | here {s s' : FileState} {bytes : List Byte} {newSector : Bool}
      (more : 0 < bytes.length) (full : 512 - s.file.sectorPos ≤ bytes.length)
      (written : s.writeSector bytes newSector = (s', cOk)) (starves : Starves fs s') :
      RunsOut s bytes newSector
  | later {s s' s'' : FileState} {bytes : List Byte} {newSector : Bool}
      (more : 0 < bytes.length) (full : 512 - s.file.sectorPos ≤ bytes.length)
      (written : s.writeSector bytes newSector = (s', cOk))
      (moved : s'.nextSector fs true = (s'', true))
      (rest : RunsOut s'' (bytes.drop (sectorLen s.file.sectorPos bytes.length))
        (s''.file.filesize < s''.file.position)) : RunsOut s bytes newSector

end File

variable {fs} {m : Medium} {c : Nat}

/-- The answers of an allocation that fails. -/
theorem answer_of_noCluster (none : NoCluster fs m) :
    (fs.allocateCluster m).2 = EOC ∨
      fs.myFatType = .fat16 ∧ fs.allocateCluster m = (m, 0xFFFF) ∨
      fs.myFatType ≠ .fat16 ∧ isError (m.status fs.fsinfoLba) ∧
        fs.allocateCluster m = (m.ask (.read fs.fsinfoLba), errorWord cError) := by
  by_cases type : fs.myFatType = .fat16
  · exact .inr (.inl ⟨type, FATFileSystem.allocateCluster_fat16 type⟩)
  · rcases none with fat16 | failed | notFound
    · exact absurd fat16 type
    · exact .inr (.inr ⟨type, failed, FATFileSystem.allocateCluster_unreadable type failed⟩)
    · exact .inl notFound

theorem noCluster_codes : 0xFFFF ≠ EOC ∧ errorWord cError ≠ EOC ∧ errorWord cError < 2 ^ 32 ∧
    0xFFFFFF8 ≤ errorWord cError := by
  decide

theorem answer_lt (none : NoCluster fs m) : (fs.allocateCluster m).2 < 2 ^ 32 := by
  rcases answer_of_noCluster none with answer | ⟨_, answer⟩ | ⟨_, _, answer⟩
  · rw [answer]
    decide
  · rw [congrArg Prod.snd answer]
    exact (by decide : 0xFFFF < 2 ^ 32)
  · rw [congrArg Prod.snd answer]
    exact noCluster_codes.2.2.1

/-- The end of a chain is the answer exactly when the table was searched. -/
theorem answer_eq_EOC_iff (none : NoCluster fs m) :
    (fs.allocateCluster m).2 = EOC ↔ Searches fs m := by
  by_cases type : fs.myFatType = .fat16
  · rw [congrArg Prod.snd (FATFileSystem.allocateCluster_fat16 type)]
    exact iff_of_false noCluster_codes.1 fun searches => searches.1 type
  · by_cases failed : isError (m.status fs.fsinfoLba)
    · rw [congrArg Prod.snd (FATFileSystem.allocateCluster_unreadable type failed)]
      exact iff_of_false noCluster_codes.2.1 fun searches => searches.2 failed
    · refine iff_of_true ?_ ⟨type, failed⟩
      rcases none with fat16 | unreadable | notFound
      · exact absurd fat16 type
      · exact absurd unreadable failed
      · exact notFound

section Table

/-- Every answer of an allocation that fails is reported as the end of the chain. -/
theorem reported_end (last : LastCluster fs m c) (none : NoCluster fs (asking fs m c)) :
    fs.endOfChain ≤ (fs.getFATTableEntry m c true).2 := by
  obtain ⟨m₁, v, buffer, answer, result⟩ :=
    FATFileSystem.getFATTableEntry_allocate last.readable last.ends
  have value : v = (fs.allocateCluster (asking fs m c)).2 := (congrArg Prod.snd answer).symm
  rw [result]
  simp only
  split
  · exact FATFileSystem.endOfChain_le
  · rcases answer_of_noCluster none with found | ⟨type, found⟩ | ⟨type, _, found⟩
    · rw [value, found, FATFileSystem.endOfChain]
      split <;> decide
    · rw [value, found, if_pos type, FATFileSystem.endOfChain, if_pos type]
      exact (by decide : 0xFFF8 ≤ 0xFFFF % 2 ^ 16)
    · rw [value, found, if_neg type, FATFileSystem.endOfChain, if_neg type]
      exact noCluster_codes.2.2.2

theorem entry_after (last : LastCluster fs m c) (none : NoCluster fs (asking fs m c)) {m₁ : Medium}
    {v : Nat} (answer : fs.allocateCluster (asking fs m c) = (m₁, v)) :
    fs.entry (fs.getFATTableEntry m c true).1.content c =
      if isError ((m₁.ask (.read (fs.entrySector c))).status (fs.entrySector c)) then
        fs.entry m₁.content c
      else if fs.myFatType = .fat16 then v % 2 ^ 16 else v % 2 ^ 28 := by
  obtain ⟨m₁', v', buffer, answer', result⟩ :=
    FATFileSystem.getFATTableEntry_allocate last.readable last.ends
  obtain ⟨rfl, rfl⟩ := Prod.mk.inj (answer.symm.trans answer')
  have small := answer_lt none
  rw [answer] at small
  rw [result]
  exact FATFileSystem.entry_withEntry small

theorem endKept_fat16 (type : fs.myFatType = .fat16) (last : LastCluster fs m c) :
    EndKept fs m c := by
  refine ⟨reported_end last (.inl type), ?_⟩
  rw [entry_after last (.inl type) (FATFileSystem.allocateCluster_fat16 type)]
  simp only [type, if_true]
  split
  · exact last.ends
  · rw [FATFileSystem.endOfChain, if_pos type]
    decide

/-- When no cluster is found the end of the chain is kept. -/
theorem endKept_notFound (volume : fs.Fat32Volume m) (inside : c < fs.countOfClusters + 2)
    (last : LastCluster fs m c) (none : (fs.allocateCluster (asking fs m c)).2 = EOC) :
    EndKept fs m c := by
  have mark : fs.endOfChain = 0xFFFFFF8 := if_neg volume.not_fat16
  have ends := last.ends
  have used : fs.entry m.content c ≠ 0 := by
    rw [mark] at ends
    omega
  have kept := FATFileSystem.allocateCluster_keeps
    (volume.same (Medium.Same.ask m (.read (fs.entrySector c)))) inside used
  refine ⟨reported_end last (.inr (.inr none)), ?_⟩
  cases answer : fs.allocateCluster (asking fs m c) with
  | mk m₁ v =>
    rw [entry_after last (.inr (.inr none)) answer]
    rw [answer] at none
    rw [← asking, answer] at kept
    simp only at none kept
    simp only [volume.not_fat16, if_false]
    split
    · rw [kept]
      exact ends
    · rw [mark, none]
      decide

/-- When the information sector cannot be read the error code gets into the table,
unless its sector cannot be written. -/
theorem endKept_unreadable_iff (type : fs.myFatType ≠ .fat16) (last : LastCluster fs m c)
    (failed : isError ((asking fs m c).status fs.fsinfoLba)) :
    EndKept fs m c ↔ WriteFails fs m c := by
  have none : NoCluster fs (asking fs m c) := .inr (.inl failed)
  rw [EndKept, entry_after last none (FATFileSystem.allocateCluster_unreadable type failed),
    WriteFails]
  simp only [type, if_false]
  split
  · next written => exact iff_of_true ⟨reported_end last none, last.ends⟩ written
  · next written =>
    refine iff_of_false (fun kept => ?_) written
    have low := kept.2
    rw [FATFileSystem.endOfChain, if_neg type] at low
    exact absurd low (by decide)

/-- The end of a chain is kept unless the information sector of a FAT32 volume
cannot be read and the entry can be written. -/
theorem endKept_iff (volume : Volume fs m) (inside : c < fs.countOfClusters + 2)
    (last : LastCluster fs m c) (none : NoCluster fs (asking fs m c)) :
    EndKept fs m c ↔
      fs.myFatType = .fat16 ∨ Searches fs (asking fs m c) ∨ WriteFails fs m c := by
  by_cases type : fs.myFatType = .fat16
  · exact iff_of_true (endKept_fat16 type last) (.inl type)
  · have fat32 := volume.resolve_left type
    by_cases failed : isError ((asking fs m c).status fs.fsinfoLba)
    · rw [endKept_unreadable_iff type last failed]
      constructor
      · exact fun fails => .inr (.inr fails)
      · rintro (fat16 | searches | fails)
        · exact absurd fat16 type
        · exact absurd failed searches.2
        · exact fails
    · have searches : Searches fs (asking fs m c) := ⟨type, failed⟩
      exact iff_of_true (endKept_notFound fat32 inside last
        ((answer_eq_EOC_iff none).mpr searches)) (.inr (.inl searches))

end Table

section Directory

variable {name : List Byte} {attr cluster : Nat} {search : FreeSearch}

/-- An end of a chain as the answer is an error, and nothing is entered. -/
theorem placeEntry_refused (none : NoCluster fs (search.place fs name).1.medium)
    (searches : Searches fs (search.place fs name).1.medium) :
    placeEntry fs name attr 0 search =
      some ((answered fs (search.place fs name)).1, Option.none) := by
  simp only [placeEntry, if_true, (answer_eq_EOC_iff none).mpr searches]
  rfl

/-- With room for the entries, and only then, they are made. -/
theorem enterEntries_iff_room {append : Bool} {place : DirState × Option Nat} :
    (∃ s a, enterEntries fs name attr cluster append place.1 place.2 = some (s, some a)) ↔
      Room fs name attr cluster append place := by
  unfold enterEntries Room
  cases written : writeLongEntries fs ((List.range (longEntries name)).map (longEntry name))
      place.1 place.2 with
  | none => simp
  | some answer =>
    obtain ⟨s, entry⟩ := answer
    cases entry with
    | none => simp
    | some number =>
      cases append with
      | false => simp [finishEntry]
      | true =>
        cases next :
            (s.setEntry number (shortEntry name attr cluster)).getNextEntry fs true true with
        | mk s' entry => cases entry <;> simp [finishEntry, next]

/-- Any other answer is entered as the cluster of the file. -/
theorem placeEntry_entered (none : NoCluster fs (search.place fs name).1.medium)
    (searches : ¬Searches fs (search.place fs name).1.medium) :
    placeEntry fs name attr 0 search =
      enterEntries fs name attr (fs.allocateCluster (search.place fs name).1.medium).2
        (search.Appends name) (answered fs (search.place fs name)).1
        (answered fs (search.place fs name)).2 := by
  simp only [placeEntry, if_true, if_neg (mt (answer_eq_EOC_iff none).mp searches)]
  rfl

/-- With room for the entries the failure is reported exactly when the table was
searched. -/
theorem refused_iff (none : NoCluster fs (search.place fs name).1.medium)
    (room : Room fs name attr (fs.allocateCluster (search.place fs name).1.medium).2
      (search.Appends name) (answered fs (search.place fs name))) :
    (∃ s, placeEntry fs name attr 0 search = some (s, Option.none)) ↔
      Searches fs (search.place fs name).1.medium := by
  constructor
  · rintro ⟨s, refused⟩
    by_contra searches
    obtain ⟨s', a, entered⟩ := enterEntries_iff_room.mpr room
    rw [placeEntry_entered none searches, entered] at refused
    cases refused
  · exact fun searches => ⟨_, placeEntry_refused none searches⟩

end Directory

section File

/-- No sector follows when no cluster can be allocated. -/
theorem nextSector_of_starves {s : FileState} (starves : Starves fs s) :
    ∃ m, s.nextSector fs true =
      (⟨m, s.buffer, { s.file with currentSector := EOC }⟩, false) := by
  have reported := reported_end starves.last starves.none
  have sector : (fs.getNextSector s.medium s.file.currentSector s.file.currentCluster true).2 =
      EOC := by
    rw [FATFileSystem.getNextSector, if_pos starves.boundary]
    exact if_pos reported
  refine ⟨(fs.getNextSector s.medium s.file.currentSector s.file.currentCluster true).1, ?_⟩
  simp only [FileState.nextSector, sector, if_true]

/-- What `writeBytes` leaves of a file when it does not come to its end. -/
structure Unfinished (f f' : FATFile) : Prop where
  clusterStart : f'.clusterStart = f.clusterStart
  filesize : f'.filesize = f.filesize

theorem unfinished_writeSector {s s' : FileState} {bytes : List Byte} {newSector : Bool}
    (written : s.writeSector bytes newSector = (s', cOk)) : Unfinished s.file s'.file := by
  have file := s.writeSector_file bytes newSector
  rw [written] at file
  rw [file]
  exact ⟨rfl, rfl⟩

theorem unfinished_nextSector {s s' : FileState} {allocate found : Bool}
    (moved : s.nextSector fs allocate = (s', found)) : Unfinished s.file s'.file := by
  have file := s.nextSector_file fs allocate
  rw [moved] at file
  rw [file]
  exact ⟨rfl, rfl⟩

theorem Unfinished.trans {f f' f'' : FATFile} (first : Unfinished f f')
    (second : Unfinished f' f'') : Unfinished f f'' :=
  ⟨second.clusterStart.trans first.clusterStart, second.filesize.trans first.filesize⟩

/-- The loop ends with an error where no cluster can be allocated. -/
theorem writeLoop_of_runsOut {s : FileState} {bytes : List Byte} {newSector : Bool}
    (runsOut : RunsOut fs s bytes newSector) :
    ∃ s', FileState.writeLoop fs s bytes newSector = (s', some cDeviceMemoryExhausted) ∧
      Unfinished s.file s'.file := by
  induction runsOut with
  | @here s s' bytes newSector more full written starves =>
    obtain ⟨m, next⟩ := nextSector_of_starves starves
    refine ⟨_, ?_, (unfinished_writeSector written).trans (unfinished_nextSector next)⟩
    rw [FileState.writeLoop, dif_pos more]
    simp only [written, Nat.not_lt.mpr full, if_false, next]
    rfl
  | @later s s' s'' bytes newSector more full written moved rest ih =>
    obtain ⟨last, result, unfinished⟩ := ih
    refine ⟨last, ?_, ((unfinished_writeSector written).trans
      (unfinished_nextSector moved)).trans unfinished⟩
    rw [FileState.writeLoop, dif_pos more]
    simp only [written, Nat.not_lt.mpr full, if_false, moved, result]
    rfl

theorem writeBytes_of_runsOut {s : FileState} {bytes : List Byte}
    (runsOut : RunsOut fs s bytes false) :
    (s.writeBytes fs bytes).2 = cDeviceMemoryExhausted ∧
      (s.writeBytes fs bytes).1.file.clusterStart = s.file.clusterStart := by
  obtain ⟨s', result, unfinished⟩ := writeLoop_of_runsOut runsOut
  rw [FileState.writeBytes, result]
  exact ⟨rfl, unfinished.clusterStart⟩

end File

/-- What the callers do when no cluster can be allocated. The end of a chain stays
its end unless the information sector of a FAT32 volume cannot be read; an entry
of a directory is refused, if there is room for it, exactly when the table was
searched; the loop of `writeBytes` ends with an error and the start of the file
stays what it was. -/
theorem noCluster_iff (fs : FATFileSystem) :
    (∀ m c, Volume fs m → c < fs.countOfClusters + 2 → LastCluster fs m c →
      NoCluster fs (asking fs m c) →
        (EndKept fs m c ↔
          fs.myFatType = .fat16 ∨ Searches fs (asking fs m c) ∨ WriteFails fs m c)) ∧
    (∀ rounds fresh name attr s search, Reaches fs name rounds fresh s search →
      NoCluster fs (search.place fs name).1.medium →
        (Searches fs (search.place fs name).1.medium →
          allocateEntry fs name rounds fresh attr 0 s =
            some ((answered fs (search.place fs name)).1, none)) ∧
        (Room fs name attr (fs.allocateCluster (search.place fs name).1.medium).2
            (search.Appends name) (answered fs (search.place fs name)) →
          ((∃ s', allocateEntry fs name rounds fresh attr 0 s = some (s', none)) ↔
            Searches fs (search.place fs name).1.medium))) ∧
    (∀ s bytes, RunsOut fs s bytes false →
      (s.writeBytes fs bytes).2 = cDeviceMemoryExhausted ∧
        (s.writeBytes fs bytes).1.file.clusterStart = s.file.clusterStart) := by
  refine ⟨fun m c volume inside last none => endKept_iff volume inside last none, ?_,
    fun s bytes runsOut => writeBytes_of_runsOut runsOut⟩
  intro rounds fresh name attr s search reaches none
  rw [reaches.allocateEntry_eq]
  exact ⟨fun searches => placeEntry_refused none searches, fun room => refused_iff none room⟩

/-- A FAT16 volume of 5000 clusters. Its root directory is empty; the chain of
cluster 2 has no other cluster. -/
def smallVolume : Medium where
  content
    | 0, 0 => 0xeb
    | 0, 12 => 2
    | 0, 13 => 1
    | 0, 14 => 1
    | 0, 16 => 1
    | 0, 17 => 16
    | 0, 19 => 0xaa
    | 0, 20 => 0x13
    | 0, 22 => 32
    | 1, 4 => 0xff
    | 1, 5 => 0xff
    | _, _ => 0
  sectors := 6000
  outcome _ := cOk
  requests := []

def smallVolumeFileSystem : FATFileSystem where
  myFatType := .fat16
  myFATBPB := ⟨0xeb, 512, 1, 1, 1, 16, 5034, 32, 0⟩
  myFAT32BPB := ⟨0, 0, 0⟩
  rootDirSectors := 1
  firstDataSector := 34
  dataSec := 5000
  countOfClusters := 5000
  sectorShiftValue := 0

theorem mount_smallVolume : (mount 0 smallVolume).2 = some smallVolumeFileSystem := by
  decide +kernel

/-- The root directory, before anything is known of it. -/
def rootDirectory : DirState := ⟨smallVolume, fun _ => 0, 0, 0, 0, ⟨0, 33, 0, 0, false, []⟩⟩

/-- A file `A` is made, with the answer of the allocation as its cluster. -/
theorem allocateEntry_smallVolume :
    ((allocateEntry smallVolumeFileSystem [0x41] 2 (fun _ => 0) ATTR_ARCHIVE 0 rootDirectory).map
      fun answer => answer.2.map fun a => a.entry.cluster) = some (some 0xFFFF) := by
  decide +kernel

theorem reaches_smallVolume : ∃ search,
    Reaches smallVolumeFileSystem [0x41] 2 (fun _ => 0) rootDirectory search ∧
      NoCluster smallVolumeFileSystem (search.place smallVolumeFileSystem [0x41]).1.medium ∧
      ∃ s a, placeEntry smallVolumeFileSystem [0x41] ATTR_ARCHIVE 0 search = some (s, some a) := by
  have made := allocateEntry_smallVolume
  obtain ⟨⟨s, answer⟩, result, entered⟩ := Option.map_eq_some_iff.mp made
  obtain ⟨a, rfl, _⟩ := Option.map_eq_some_iff.mp entered
  obtain ⟨search, reaches, placed⟩ := reaches_of_allocateEntry result
  exact ⟨search, reaches, .inl rfl, s, a, placed⟩

/-- The file of cluster 2, at its first byte. -/
def smallFile : FileState :=
  ⟨smallVolume, fun _ => 0, ⟨[0x42], 512, ATTR_ARCHIVE, 0, 2, 34, 2, 33, 0, none⟩⟩

theorem runsOut_smallFile :
    RunsOut smallVolumeFileSystem smallFile (FileState.zeros 512) false :=
  .here (by simp) (by simp) (Prod.ext rfl (by decide +kernel))
    ⟨by decide +kernel, ⟨by decide +kernel, by decide +kernel⟩, .inl rfl⟩

theorem noCluster_iff_smallVolume :
    (EndKept smallVolumeFileSystem smallVolume 2 ↔
      smallVolumeFileSystem.myFatType = .fat16 ∨
        Searches smallVolumeFileSystem (asking smallVolumeFileSystem smallVolume 2) ∨
        WriteFails smallVolumeFileSystem smallVolume 2) ∧
    (∃ search, Reaches smallVolumeFileSystem [0x41] 2 (fun _ => 0) rootDirectory search ∧
      ((∃ s', allocateEntry smallVolumeFileSystem [0x41] 2 (fun _ => 0) ATTR_ARCHIVE 0
          rootDirectory = some (s', none)) ↔
        Searches smallVolumeFileSystem (search.place smallVolumeFileSystem [0x41]).1.medium)) ∧
    (smallFile.writeBytes smallVolumeFileSystem (FileState.zeros 512)).2 =
      cDeviceMemoryExhausted := by
  refine ⟨(noCluster_iff smallVolumeFileSystem).1 smallVolume 2 (.inl rfl) (by decide)
    ⟨by decide, by decide +kernel⟩ (.inl rfl), ?_,
    ((noCluster_iff smallVolumeFileSystem).2.2 smallFile _ runsOut_smallFile).1⟩
  obtain ⟨search, reaches, none, s, a, placed⟩ := reaches_smallVolume
  refine ⟨search, reaches, ((noCluster_iff smallVolumeFileSystem).2.1 2 _ [0x41] ATTR_ARCHIVE
    rootDirectory search reaches none).2 (enterEntries_iff_room.mp ⟨s, a, ?_⟩)⟩
  rw [← placeEntry_entered none fun searches => searches.1 rfl]
  exact placed

/-- The contract of the callers when no cluster can be allocated. -/
structure NoClusterContract (fs : FATFileSystem) : Prop where
  table : ∀ m c, Volume fs m → c < fs.countOfClusters + 2 → LastCluster fs m c →
    NoCluster fs (asking fs m c) → EndKept fs m c
  directory : ∀ rounds fresh name attr s search, Reaches fs name rounds fresh s search →
    NoCluster fs (search.place fs name).1.medium →
      ∃ s', allocateEntry fs name rounds fresh attr 0 s = some (s', none)
  file : ∀ s bytes, RunsOut fs s bytes false → isError (s.writeBytes fs bytes).2 ∧
    (s.writeBytes fs bytes).1.file.clusterStart = s.file.clusterStart

/-- On a FAT16 volume a file gets the cluster 0xFFFF. -/
theorem failure_entered_as_cluster :
    ¬∀ memory m fs, (mount memory m).2 = some fs → Volume fs m → NoClusterContract fs := by
  intro meets
  have contract := meets 0 smallVolume smallVolumeFileSystem mount_smallVolume (.inl rfl)
  obtain ⟨search, reaches, none, s, a, placed⟩ := reaches_smallVolume
  obtain ⟨s', refused⟩ := contract.directory 2 _ [0x41] ATTR_ARCHIVE rootDirectory search reaches
    none
  rw [reaches.allocateEntry_eq, placed] at refused
  cases refused

end Orcos.Guarantees.AllocationFailures
