import Orcos.Lib.Runs
import Orcos.Source.Files.FileSystem

/-!
# The number of entries of a directory

Source: src/source/filesystem/Directory.cc, `add`, `remove`,
`OverlayDirectory::getNumEntries`; src/source/filesystem/PartitionManager.cc,
`registerBlockDevice`, `unregisterBlockDevice`.

`num_entries` has 16 bits, and `unregisterBlockDevice` takes partitions off the list
without counting them.
-/
namespace Orcos.Guarantees.EntryCounts
open Source Source.Files Lib.Runs

/-- The counters are the lengths of the lists. -/
def Counted (fs : FileSystem) : Prop :=
  ∀ dir, (fs.numEntries dir).toNat = (fs.content dir).length

/-- The counter has room for more entries. -/
def Room (fs : FileSystem) (dir more : Nat) : Prop :=
  (fs.content dir).length + more < 2 ^ 16

/-- What changes the entries of directories. -/
inductive Change
  | add (dir res : Nat)
  | createFile (dir address : Nat) (name : List Letter) (made : Bool)
  | createDirectory (dir address : Nat) (name : List Letter) (made : Bool)
  | remove (dir res : Nat)
  | registerBlockDevice (bdev : Nat) (found : List (Nat × List Letter))
  | unregisterBlockDevice (bdev : Nat)

def perform (pm : PartitionManager) : Change → PartitionManager
  | .add dir res => { pm with fileSystem := pm.fileSystem.add dir res }
  | .createFile dir address name made =>
    { pm with fileSystem := (pm.fileSystem.createFile dir address name made).1 }
  | .createDirectory dir address name made =>
    { pm with fileSystem := (pm.fileSystem.createDirectory dir address name made).1 }
  | .remove dir res => { pm with fileSystem := (pm.fileSystem.remove dir res).1 }
  | .registerBlockDevice bdev found => pm.registerBlockDevice bdev found
  | .unregisterBlockDevice bdev => pm.unregisterBlockDevice bdev

/-- The counter of a directory that gets entries does not overflow, and a block device is
not unregistered while partitions of it are listed. -/
def Countable (pm : PartitionManager) : Change → Prop
  | .add dir _ => Room pm.fileSystem (pm.fileSystem.top dir) 1
  | .createFile dir _ name made =>
    pm.fileSystem.takesFile (pm.fileSystem.top dir) name made = true →
      Room pm.fileSystem (pm.fileSystem.top dir) 1
  | .createDirectory dir _ name made =>
    pm.fileSystem.takesDirectory (pm.fileSystem.top dir) name made = true →
      Room pm.fileSystem (pm.fileSystem.top dir) 1
  | .remove _ _ => True
  | .registerBlockDevice _ found => Room pm.fileSystem pm.directory found.length
  | .unregisterBlockDevice bdev =>
    ∀ p ∈ pm.fileSystem.content pm.directory, pm.myBlockDevice p ≠ bdev

instance (fs : FileSystem) (dir more : Nat) : Decidable (Room fs dir more) :=
  inferInstanceAs (Decidable (_ < _))

instance (pm : PartitionManager) : ∀ change, Decidable (Countable pm change)
  | .add _ _ => inferInstanceAs (Decidable (Room _ _ _))
  | .createFile _ _ _ _ => inferInstanceAs (Decidable (_ → Room _ _ _))
  | .createDirectory _ _ _ _ => inferInstanceAs (Decidable (_ → Room _ _ _))
  | .remove _ _ => inferInstanceAs (Decidable True)
  | .registerBlockDevice _ _ => inferInstanceAs (Decidable (Room _ _ _))
  | .unregisterBlockDevice _ => inferInstanceAs (Decidable (∀ p ∈ _, _))

variable {fs : FileSystem} {pm : PartitionManager} {dir res address bdev more : Nat}
  {name : List Letter} {type : BitVec 32} {kind : Kind}

theorem Counted.addEntry (counted : Counted fs) (room : Room fs dir 1) :
    Counted (fs.addEntry dir res) := by
  intro d
  unfold FileSystem.addEntry
  by_cases here : d = dir
  · subst here
    have old := counted d
    unfold Room at room
    simp only [Function.update_self, List.length_append, List.length_singleton, BitVec.toNat_add]
    rw [old]
    exact Nat.mod_eq_of_lt room
  · simp only [Function.update_of_ne here]
    exact counted d

theorem Counted.removeEntry (counted : Counted fs) : Counted (fs.removeEntry dir res).1 := by
  unfold FileSystem.removeEntry
  split
  · exact counted
  · split
    · next listed =>
      intro d
      unfold FileSystem.dropEntry
      by_cases here : d = dir
      · subst here
        have old := counted d
        have length := List.length_erase_of_mem listed
        have positive := List.length_pos_of_mem listed
        have below := (fs.numEntries d).isLt
        simp only [Function.update_self, length, BitVec.toNat_sub]
        rw [old] at below ⊢
        change (2 ^ 16 - 1 + (fs.content d).length) % 2 ^ 16 = (fs.content d).length - 1
        omega
      · simp only [Function.update_of_ne here]
        exact counted d
    · exact counted

theorem Counted.remove (counted : Counted fs) : Counted (fs.remove dir res).1 := by
  unfold FileSystem.remove
  split
  · exact counted
  · split
    · split
      · exact counted
      · exact counted.removeEntry
    · exact counted.removeEntry

theorem Counted.construct (counted : Counted fs) :
    Counted (fs.construct address name type kind) := by
  intro d
  unfold FileSystem.construct
  by_cases here : d = address
  · subst here
    simp only [Function.update_self]
    rfl
  · simp only [Function.update_of_ne here]
    exact counted d

/-- A new directory is empty. -/
theorem Room.construct (room : Room fs dir more) :
    Room (fs.construct address name type kind) dir more := by
  unfold Room FileSystem.construct at *
  by_cases here : dir = address
  · subst here
    simp only [Function.update_self, List.length_nil]
    omega
  · simp only [Function.update_of_ne here]
    exact room

theorem Counted.create (counted : Counted fs) (room : Room fs dir 1) :
    Counted (fs.create dir address name type kind).1 :=
  counted.construct.addEntry room.construct

/-- Room for several entries is room for one, and then for the others. -/
theorem Room.create (room : Room fs dir (more + 1)) :
    Room (fs.create dir address name type kind).1 dir more := by
  have new : Room (fs.construct address name type kind) dir (more + 1) := room.construct
  unfold Room FileSystem.create FileSystem.addEntry at *
  simp only [Function.update_self, List.length_append, List.length_singleton]
  omega

theorem Counted.registerBlockDevice {found : List (Nat × List Letter)}
    (counted : Counted pm.fileSystem) (room : Room pm.fileSystem pm.directory found.length) :
    Counted (pm.registerBlockDevice bdev found).fileSystem := by
  induction found generalizing pm with
  | nil => exact counted
  | cons p found ih =>
    have first : Room pm.fileSystem pm.directory 1 := by
      unfold Room at *
      rw [List.length_cons] at room
      omega
    apply ih
    · exact counted.create first
    · exact Room.create room

/-- Nothing is dropped for a device without partitions on the list. -/
theorem dropPartitions_none {partitions : List Nat}
    (none_ : ∀ p ∈ partitions, pm.myBlockDevice p ≠ bdev) :
    pm.dropPartitions bdev partitions fs = fs := by
  induction partitions with
  | nil => rfl
  | cons p partitions ih =>
    rw [PartitionManager.dropPartitions, if_neg (none_ p List.mem_cons_self)]
    exact ih fun q later => none_ q (List.mem_cons_of_mem p later)

/-- The counters stay as they are, and the lists do not get longer. -/
theorem dropPartitions_numEntries (pm : PartitionManager) (bdev : Nat) (partitions : List Nat)
    (fs : FileSystem) :
    (pm.dropPartitions bdev partitions fs).numEntries = fs.numEntries ∧
      ((pm.dropPartitions bdev partitions fs).content pm.directory).length ≤
        (fs.content pm.directory).length := by
  induction partitions generalizing fs with
  | nil => exact ⟨rfl, le_rfl⟩
  | cons p partitions ih =>
    rw [PartitionManager.dropPartitions]
    split
    · have later := ih (fs.dropEntry pm.directory p)
      refine ⟨later.1, later.2.trans ?_⟩
      unfold FileSystem.dropEntry
      simp only [Function.update_self]
      exact List.length_erase_le
    · exact ih fs

/-- Each listed partition of the device shortens the list. -/
theorem dropPartitions_shorter {partitions : List Nat} {p : Nat}
    (listed : p ∈ partitions) (device : pm.myBlockDevice p = bdev)
    (inside : ∀ q ∈ partitions, q ∈ fs.content pm.directory) :
    ((pm.dropPartitions bdev partitions fs).content pm.directory).length <
      (fs.content pm.directory).length := by
  induction partitions with
  | nil => cases listed
  | cons q partitions ih =>
    rw [PartitionManager.dropPartitions]
    by_cases own : pm.myBlockDevice q = bdev
    · rw [if_pos own]
      have later := (dropPartitions_numEntries pm bdev partitions
        (fs.dropEntry pm.directory q)).2
      have first : ((fs.dropEntry pm.directory q).content pm.directory).length <
          (fs.content pm.directory).length := by
        have member := inside q List.mem_cons_self
        have length := List.length_erase_of_mem member
        have positive := List.length_pos_of_mem member
        unfold FileSystem.dropEntry
        simp only [Function.update_self]
        omega
      omega
    · rw [if_neg own]
      rcases List.mem_cons.mp listed with rfl | later
      · exact absurd device own
      · exact ih later fun r member => inside r (List.mem_cons_of_mem q member)

/-- Unregistering keeps the counters right just for a device without partitions on the
list. -/
theorem unregisterBlockDevice_counted_iff (counted : Counted pm.fileSystem) :
    Counted (pm.unregisterBlockDevice bdev).fileSystem ↔
      ∀ p ∈ pm.fileSystem.content pm.directory, pm.myBlockDevice p ≠ bdev := by
  unfold PartitionManager.unregisterBlockDevice
  constructor
  · intro after p listed device
    have shorter := dropPartitions_shorter listed device fun q member => member
    have same := (dropPartitions_numEntries pm bdev
      (pm.fileSystem.content pm.directory) pm.fileSystem).1
    have new := after pm.directory
    have old := counted pm.directory
    simp only [same] at new
    omega
  · intro none_
    rw [dropPartitions_none none_]
    exact counted

theorem Counted.perform {change : Change} (counted : Counted pm.fileSystem)
    (countable : Countable pm change) : Counted (perform pm change).fileSystem := by
  cases change with
  | add dir res => exact counted.addEntry countable
  | createFile dir address name made =>
    unfold EntryCounts.perform FileSystem.createFile
    dsimp only
    split
    · next takes => exact counted.create (countable takes)
    · exact counted
  | createDirectory dir address name made =>
    unfold EntryCounts.perform FileSystem.createDirectory
    dsimp only
    split
    · next takes => exact counted.create (countable takes)
    · exact counted
  | remove dir res => exact counted.remove
  | registerBlockDevice bdev found => exact counted.registerBlockDevice countable
  | unregisterBlockDevice bdev => exact (unregisterBlockDevice_counted_iff counted).mpr countable

/-- The number that a reader of any directory sees is that of its entries, in 16 bits. -/
theorem Counted.getNumEntries (counted : Counted fs) (dir : Nat) :
    (fs.getNumEntries dir).toNat = (fs.entries dir).length % 2 ^ 16 := by
  unfold FileSystem.getNumEntries FileSystem.entries
  have plain : ∀ d, (fs.numEntries d).toNat = (fs.content d).length % 2 ^ 16 := by
    intro d
    rw [← counted d, Nat.mod_eq_of_lt (fs.numEntries d).isLt]
  generalize fs.kind dir = kind
  induction kind generalizing dir with
  | plain => exact plain dir
  | ram => exact plain dir
  | fat => exact plain dir
  | fatFile parent => exact plain dir
  | overlay baseDir base overlayDir overlay lower upper =>
    cases baseDir with
    | none =>
      have sum : fs.getNumEntriesOf overlay overlayDir + 0 =
          fs.getNumEntriesOf overlay overlayDir := BitVec.add_zero _
      simp only [FileSystem.getNumEntriesOf, FileSystem.entriesOf, Option.elim_none,
        List.append_nil, sum]
      exact upper overlayDir
    | some d =>
      simp only [FileSystem.getNumEntriesOf, FileSystem.entriesOf, Option.elim_some,
        BitVec.toNat_add, List.length_append]
      rw [upper overlayDir, lower d, ← Nat.add_mod]

/-- In every run in which no counter overflows and no block device is unregistered that has
partitions on the list, each counter is the length of its list. -/
theorem entries_counted (counted : Counted pm.fileSystem) (changes : List Change)
    (countable : Admissible perform Countable pm changes) :
    Counted (exec perform pm changes).fileSystem :=
  exec_invariant (fun pm => Counted pm.fileSystem)
    (fun _ _ counted countable => counted.perform countable) changes pm counted countable

/-- A manager at the first address, in a memory without resources. -/
def emptyManager : PartitionManager where
  fileSystem := {
    name _ := []
    type _ := cDirectory
    kind _ := .plain
    content _ := []
    numEntries _ := 0
    live _ := true
    root := 0 }
  directory := 1
  myBlockDevice _ := 0

theorem entries_counted_twoPartitions :
    Counted (exec perform emptyManager [.registerBlockDevice 5 [(2, []), (3, [])],
      .remove 1 2, .unregisterBlockDevice 6]).fileSystem :=
  entries_counted (fun _ => rfl) _ (by decide)

/-- A partition is registered and its device unregistered: nothing is listed any more, and
one entry counted. -/
theorem unregistered_counted :
    Counted emptyManager.fileSystem ∧
      ¬Counted (exec perform emptyManager [.registerBlockDevice 5 [(2, [])],
        .unregisterBlockDevice 5]).fileSystem := by
  refine ⟨fun _ => rfl, fun counted => ?_⟩
  have manager := counted 1
  revert manager
  decide

end Orcos.Guarantees.EntryCounts
