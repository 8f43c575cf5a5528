import Orcos.Source.Fat.LongNames

/-!
# The arrays for long names

Source: src/source/filesystem/fat/FATDirectory.cc, `populateDirectory`.

The array for a long name is made for the parts that its first entry announces.
A later entry writes where its own order number says. Nothing compares the two.
-/
namespace Orcos.Guarantees.NameBuffers
open Orcos.Source Orcos.Source.Fat Orcos.Lib.Loop Orcos.Lib.ByteMemory

variable (fs : FATFileSystem) (fresh : Memory) (d : FATDirectory) (m : Medium)

/-- From this state on no character of a name is written outside of its array, and
the arrays have a zero whenever an entry is looked at. -/
structure NamesInside (start : Cursor × Names) : Prop where
  inside : ∀ rounds, loop (populateEntry fs fresh) rounds start ≠ some .outside
  terminated : ∀ n s, Rounds (populateEntry fs fresh) n start s →
    ∀ name, s.2.longname = some name → 0 ∈ name

/-- Names stay inside their arrays when the directory is populated. -/
def BuffersKept : Prop := ∀ start, (d.start m).2 = .ok start → NamesInside fs fresh start

/-- No entry that goes on with an open long name has an order number above that of
the entry that opened it. -/
def OrdersFit : Prop := ∀ start, (d.start m).2 = .ok start →
  ∀ n pre slot rest, start.1.slots fs n = pre ++ slot :: rest →
    ∀ first, OpenName (pre.map Slot.entry) first → slot.entry.GoesOn →
      slot.entry.chksum = first.chksum → slot.entry.order ≤ first.order

variable {fs fresh d m}

/-- The loop starts with no open name. -/
theorem tracks_of_start {start : Cursor × Names} (read : (d.start m).2 = .ok start) :
    Tracks [] start.2 := by
  rw [FATDirectory.start] at read
  split at read
  · cases read
  · cases read
    exact tracks_start 0 d.content

theorem terminated_of_start {start s : Cursor × Names} {n : Nat}
    (read : (d.start m).2 = .ok start) (rounds : Rounds (populateEntry fs fresh) n start s)
    (name : List Byte) (opened : s.2.longname = some name) : 0 ∈ name := by
  have tracks := (tracks_of_start read).decode (decode_of_rounds rounds)
  obtain ⟨first, _, array⟩ := tracks.array name opened
  exact List.mem_of_getLast? array.2

/-- Populating a directory keeps within the arrays for names exactly when no entry
has an order number above that of the entry its name was opened with. -/
theorem populateDirectory_kept_iff : BuffersKept fs fresh d m ↔ OrdersFit fs d m := by
  constructor
  · intro kept start read n pre slot rest whole first opened on chksum
    by_contra high
    have overruns : Overruns ([] ++ pre.map Slot.entry) slot.entry :=
      ⟨first, opened, on, chksum, Nat.lt_of_not_le high⟩
    have outside := (decode_none_iff fs fresh (tracks_of_start read)).mpr
      ⟨pre, slot, rest, whole, overruns⟩
    exact (kept start read).inside n (loop_outside_iff.mpr outside)
  · intro fit start read
    refine ⟨fun rounds outside => ?_, fun n s rounds => terminated_of_start read rounds⟩
    obtain ⟨pre, slot, rest, whole, first, opened, on, chksum, high⟩ :=
      (decode_none_iff fs fresh (tracks_of_start read)).mp (loop_outside_iff.mp outside)
    have low := fit start read rounds pre slot rest whole first opened on chksum
    omega

/-- A FAT32 volume whose root directory starts with the only part of a name and
with a second part of it. -/
def longerName : Medium where
  content
    | 0, 0 => 0xeb
    | 0, 12 => 2
    | 0, 13 => 1
    | 0, 14 => 32
    | 0, 16 => 1
    | 0, 32 => 0x15
    | 0, 33 => 0x02
    | 0, 34 => 0x01
    | 0, 37 => 2
    | 0, 44 => 2
    | 0, 48 => 1
    | 544, 0 => 0x41
    | 544, 11 => 0x0f
    | 544, 32 => 0x02
    | 544, 43 => 0x0f
    | _, _ => 0
  sectors := 70000
  outcome _ := cOk
  requests := []

def longerNameFileSystem : FATFileSystem where
  myFatType := .fat32
  myFATBPB := ⟨0xeb, 512, 1, 32, 1, 0, 0, 0, 66069⟩
  myFAT32BPB := ⟨512, 2, 1⟩
  rootDirSectors := 0
  firstDataSector := 544
  dataSec := 65525
  countOfClusters := 65525
  sectorShiftValue := 0

theorem mount_longerName : (mount 0 longerName).2 = some longerNameFileSystem := by
  decide +kernel

/-- The second part is written behind the array for one part. -/
theorem name_written_outside :
    ¬∀ memory m fs, (mount memory m).2 = some fs → m.Reliable →
      ∀ fresh d, BuffersKept fs fresh d m := by
  intro kept
  have both := kept 0 longerName longerNameFileSystem mount_longerName (fun _ => rfl) (fun _ => 0)
    ⟨2, 544, 0, 544, false, []⟩ _ rfl
  refine both.inside 2 ?_
  rfl

end Orcos.Guarantees.NameBuffers
