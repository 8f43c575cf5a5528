import Orcos.Source.Files.FileManager

/-!
# Directories and their entries

Source: src/source/filesystem/Directory.cc and Directory.hh, `Directory` and
`OverlayDirectory`; src/source/filesystem/ram/RamFilesystem.cc,
`RamFilesystemDirectory`; src/source/filesystem/fat/FATDirectory.cc, `createFile`,
`createDirectory`, `remove`; src/source/filesystem/fat/FATFile.cc, `rename`;
src/source/filesystem/Resource.cc, `~Resource`.

A directory of a fat file system is one whose entries were read from the disk. What the
disk says to a new file, directory or name is given with each call, and what is deleted
after its removal from a directory is left out.
-/
namespace Orcos.Source.Files

/-- Which class overrides the operations of a directory, and the directory that a file of
a fat file system knows. An overlay directory refers to two others, which are of some class
as well. -/
inductive Kind
  | plain
  | ram
  | fat
  | fatFile (parent : Nat)
  | overlay (baseDir : Option Nat) (base : Kind) (overlayDir : Nat) (overlay : Kind)
  deriving DecidableEq

/-- The memory of the resources. -/
structure FileSystem where
  name : Nat → List Letter
  type : Nat → BitVec 32
  kind : Nat → Kind
  content : Nat → List Nat
  numEntries : Nat → BitVec 16
  live : Nat → Bool
  root : Nat

/-- The name that `~Resource` leaves. -/
def removedName : List Letter :=
  [36, 82, 101, 109, 111, 118, 101, 100].map letter

namespace FileSystem

variable (fs : FileSystem)

/-- The directory that an overlay directory, or an overlay of overlays, adds to. -/
def topOf : Kind → Nat → Nat
  | .overlay _ _ overlayDir overlay, _ => topOf overlay overlayDir
  | _, dir => dir

def top (dir : Nat) : Nat := topOf (fs.kind dir) dir

/-- What `get` goes through. -/
def entriesOf : Kind → Nat → List Nat
  | .overlay baseDir base overlayDir overlay, _ =>
    entriesOf overlay overlayDir ++ baseDir.elim [] (entriesOf base)
  | _, dir => fs.content dir

def entries (dir : Nat) : List Nat := fs.entriesOf (fs.kind dir) dir

def directories : Directories := ⟨fs.name, fs.type, fs.entries, fs.root⟩

def get (dir : Nat) (pName : List Letter) (nameLen : Nat) : Option Nat :=
  fs.directories.get dir pName nameLen

/-- `getNumEntries`; the sum of an overlay directory has 16 bits. -/
def getNumEntriesOf : Kind → Nat → BitVec 16
  | .overlay baseDir base overlayDir overlay, _ =>
    getNumEntriesOf overlay overlayDir + baseDir.elim 0 (getNumEntriesOf base)
  | _, dir => fs.numEntries dir

def getNumEntries (dir : Nat) : BitVec 16 := fs.getNumEntriesOf (fs.kind dir) dir

/-- `Directory::add`. -/
def addEntry (dir res : Nat) : FileSystem :=
  { fs with
    content := Function.update fs.content dir (fs.content dir ++ [res])
    numEntries := Function.update fs.numEntries dir (fs.numEntries dir + 1) }

def add (dir res : Nat) : FileSystem := fs.addEntry (fs.top dir) res

/-- `dir_content.remove`. -/
def dropEntry (dir res : Nat) : FileSystem :=
  { fs with content := Function.update fs.content dir ((fs.content dir).erase res) }

/-- `Directory::remove`. -/
def removeEntry (dir res : Nat) : FileSystem × ErrorT :=
  if fs.type res &&& cNonRemovableResource ≠ 0 then (fs, cResourceNotRemovable)
  else if res ∈ fs.content dir then
    ({ fs.dropEntry dir res with
      numEntries := Function.update fs.numEntries dir (fs.numEntries dir - 1) }, cOk)
  else (fs, cError)

/-- The directory that an overlay directory passes a removal to. -/
def holderOf : Kind → Nat → Nat → Option Nat
  | .overlay baseDir base overlayDir overlay, _, res =>
    if res ∈ fs.content (topOf overlay overlayDir) then holderOf overlay overlayDir res
    else baseDir.bind fun dir => holderOf base dir res
  | _, dir, _ => some dir

def holder (dir res : Nat) : Option Nat := fs.holderOf (fs.kind dir) dir res

def remove (dir res : Nat) : FileSystem × ErrorT :=
  match fs.holder dir res with
  | none => (fs, cError)
  | some dir =>
    match fs.kind dir with
    | .fat => if fs.type res &&& cFile = 0 then (fs, cWrongResourceType) else fs.removeEntry dir res
    | _ => fs.removeEntry dir res

/-- A constructor, at an address that `new` has given. -/
def construct (address : Nat) (name : List Letter) (type : BitVec 32) (kind : Kind) :
    FileSystem :=
  { fs with
    name := Function.update fs.name address name
    type := Function.update fs.type address type
    kind := Function.update fs.kind address kind
    content := Function.update fs.content address []
    numEntries := Function.update fs.numEntries address 0
    live := Function.update fs.live address true }

/-- `~Resource`. -/
def delete (address : Nat) : FileSystem :=
  { fs with
    name := Function.update fs.name address removedName
    live := Function.update fs.live address false }

/-- A new resource is entered into a directory. -/
def create (dir address : Nat) (name : List Letter) (type : BitVec 32) (kind : Kind) :
    FileSystem × Option Nat :=
  ((fs.construct address name type kind).addEntry dir address, some address)

/-- Which files a directory makes; `made` tells whether there is a block for the file, or
an entry on the disk. -/
def takesFile (dir : Nat) (name : List Letter) (made : Bool) : Bool :=
  match fs.kind dir with
  | .ram | .fat => (fs.get dir name name.length).isNone && made
  | _ => false

def createFile (dir address : Nat) (name : List Letter) (made : Bool) :
    FileSystem × Option Nat :=
  let dir := fs.top dir
  if fs.takesFile dir name made then
    fs.create dir address name cFile (if fs.kind dir = .fat then .fatFile dir else .plain)
  else (fs, none)

def takesDirectory (dir : Nat) (name : List Letter) (made : Bool) : Bool :=
  match fs.kind dir with
  | .ram => (fs.get dir name name.length).isNone
  | .fat => (fs.get dir name name.length).isNone && made
  | _ => true

/-- The new directory is of the same class. -/
def createDirectory (dir address : Nat) (name : List Letter) (made : Bool) :
    FileSystem × Option Nat :=
  let dir := fs.top dir
  if fs.takesDirectory dir name made then fs.create dir address name cDirectory (fs.kind dir)
  else (fs, none)

/-- `rename` of directories and files; `written` tells whether a fat file system has
entries for the new name. -/
def rename (res : Nat) (newName : List Letter) (written : Bool) : FileSystem × ErrorT :=
  let renamed := { fs with name := Function.update fs.name res newName }
  match fs.kind res with
  | .fatFile parent =>
    if fs.get parent newName newName.length ≠ none ∨ written = false then (fs, cError)
    else (renamed, cOk)
  | _ => (renamed, cOk)

end FileSystem

end Orcos.Source.Files

/-! ## Partitions of block devices

Source: src/source/filesystem/PartitionManager.cc, `registerBlockDevice`,
`unregisterBlockDevice`, `tryMBR`.

The manager is a directory itself, without operations of its own. What is read from a
device decides which partitions are found; mounting one adds to another directory.
-/
namespace Orcos.Source.Files

structure PartitionManager where
  fileSystem : FileSystem
  directory : Nat
  myBlockDevice : Nat → Nat

namespace PartitionManager

variable (pm : PartitionManager)

/-- A new partition is entered. -/
def addPartition (bdev : Nat) (found : Nat × List Letter) : PartitionManager :=
  { pm with
    fileSystem := (pm.fileSystem.create pm.directory found.1 found.2 cPartition .plain).1
    myBlockDevice := Function.update pm.myBlockDevice found.1 bdev }

def registerBlockDevice (bdev : Nat) (found : List (Nat × List Letter)) : PartitionManager :=
  found.foldl (fun pm p => pm.addPartition bdev p) pm

/-- The loop of `unregisterBlockDevice`. Each partition of the device is scheduled for
deletion besides. -/
def dropPartitions (bdev : Nat) : List Nat → FileSystem → FileSystem
  | [], fs => fs
  | p :: rest, fs =>
    dropPartitions bdev rest
      (if pm.myBlockDevice p = bdev then fs.dropEntry pm.directory p else fs)

def unregisterBlockDevice (bdev : Nat) : PartitionManager :=
  { pm with
    fileSystem := pm.dropPartitions bdev (pm.fileSystem.content pm.directory) pm.fileSystem }

end PartitionManager

end Orcos.Source.Files
