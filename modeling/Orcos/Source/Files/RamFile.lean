import Orcos.Lib.ByteMemory
import Orcos.Source.Alignment
import Orcos.Source.Files.Directory
import Orcos.Source.Files.RamFilesystem

/-!
# Files of the ram file system

Source: src/source/filesystem/ram/RamFilesystem.cc, `RamFilesystemFile`;
src/source/hal/CharacterDevice.hh, `seek`.

The bytes of a block are found by its number and the place in it. A file reads at
`readPos` and writes at `position`, both in the one block that it is at.
-/
namespace Orcos.Source.Files
open Lib.ByteMemory

/-- The file system with the memory of its blocks. -/
structure RamDisk where
  fs : RamFilesystem
  buffer : Nat → Memory

structure RamFile where
  myBlockNumber : Nat
  currentBlock : Nat
  readPos : Nat
  position : Nat
  filesize : Nat

/-- What a write leaves, with a record of the blocks that were taken for it. -/
structure Written where
  error : ErrorT
  disk : RamDisk
  file : RamFile
  allocated : List Nat

namespace RamDisk

/-- `memcpy` to a place in a block. -/
def store (disk : RamDisk) (block place : Nat) (bytes : List Byte) : RamDisk :=
  let buffer := copyInto (disk.buffer block) place bytes
  { disk with buffer := Function.update disk.buffer block buffer }

end RamDisk

namespace RamFile

def create (blockNum : Nat) : RamFile := ⟨blockNum, blockNum, 0, 0, 0⟩

variable (file : RamFile)

/-- The loop of `writeBytes`. A block that was free when it was handed out is one that
was taken. -/
def writeFrom (disk : RamDisk) (file : RamFile) (allocated : List Nat) (bytes : List Byte) :
    Written :=
  let sectorPos := file.position % ramdiskBlockSize
  let room := ramdiskBlockSize - sectorPos
  if bytes = [] then ⟨cOk, disk, file, allocated⟩
  else if bytes.length < room then
    ⟨cOk, disk.store file.currentBlock sectorPos bytes,
      { file with position := wordAdd file.position bytes.length }, allocated⟩
  else
    let stored := disk.store file.currentBlock sectorPos (bytes.take room)
    let moved := { file with position := wordAdd file.position room }
    let (fs, nextBlock) := disk.fs.getNextBlock file.currentBlock true
    if nextBlock = noBlock then ⟨cDeviceMemoryExhausted, { stored with fs := fs }, moved, allocated⟩
    else
      writeFrom { stored with fs := fs } { moved with currentBlock := nextBlock }
        (if disk.fs.Free nextBlock then allocated ++ [nextBlock] else allocated) (bytes.drop room)
termination_by bytes.length
decreasing_by
  have some_ : bytes.length ≠ 0 := fun none_ => by simp_all
  have inside := Nat.mod_lt file.position (by decide : 0 < ramdiskBlockSize)
  rw [List.length_drop]
  omega

/-- The size is kept where the device ran out of memory. -/
def writeBytes (disk : RamDisk) (bytes : List Byte) : Written :=
  let w := file.writeFrom disk [] bytes
  if w.error = cOk ∧ w.file.filesize < w.file.position then
    { w with file := { w.file with filesize := w.file.position } }
  else w

/-- The loop of `readBytes`: the bytes that are read and the file. -/
def readFrom (disk : RamDisk) (file : RamFile) (readlength : Nat) : List Byte × RamFile :=
  let sectorPos := file.readPos % ramdiskBlockSize
  let room := ramdiskBlockSize - sectorPos
  if readlength = 0 then ([], file)
  else if readlength < room then
    (bytesAt (disk.buffer file.currentBlock) sectorPos readlength,
      { file with readPos := wordAdd file.readPos readlength })
  else
    let here := bytesAt (disk.buffer file.currentBlock) sectorPos room
    let moved := { file with readPos := wordAdd file.readPos room }
    let nextBlock := (disk.fs.getNextBlock file.currentBlock false).2
    if nextBlock = noBlock then (here, moved)
    else
      let (rest, file') := readFrom disk { moved with currentBlock := nextBlock }
        (readlength - room)
      (here ++ rest, file')
termination_by readlength
decreasing_by
  have inside := Nat.mod_lt file.readPos (by decide : 0 < ramdiskBlockSize)
  omega

/-- What is read of a length that is asked for. -/
def readlength (length : Nat) : Nat :=
  if wordSub file.filesize file.readPos < length then wordSub file.filesize file.readPos else length

/-- A read always succeeds; the length it reports is that of the bytes. -/
def readBytes (disk : RamDisk) (length : Nat) : List Byte × RamFile :=
  file.readFrom disk (file.readlength length)

/-- The inherited `seek`. The sum is unsigned, so the test for a negative one never
holds. -/
def seek (seekValue : Int) : RamFile :=
  { file with position := ((file.position + seekValue) % 2 ^ 32).toNat }

def resetPosition : RamFile :=
  { file with readPos := 0, position := 0, currentBlock := file.myBlockNumber }

end RamFile

end Orcos.Source.Files

/-! ## Directories of the ram file system

Source: src/source/filesystem/ram/RamFilesystem.cc, `RamFilesystemDirectory`,
`~RamFilesystemFile`; src/source/filesystem/Directory.cc, `get`, `add`, `remove`.

Files and directories are known by their addresses, and `new` gives one that no file
has. A file that was removed from its directory is deleted later on.
-/
namespace Orcos.Source.Files

structure Volume where
  disk : RamDisk
  files : Nat → Option RamFile
  name : Nat → List Letter
  content : Nat → List Nat
  scheduled : List Nat

inductive Operation
  | createFile (dir address : Nat) (name : List Letter)
  | createDirectory (dir address : Nat) (name : List Letter)
  | remove (dir address : Nat)
  | delete (address : Nat)
  | writeBytes (address : Nat) (bytes : List Byte)
  | readBytes (address length : Nat)
  | seek (address : Nat) (seekValue : Int)
  | resetPosition (address : Nat)

namespace Volume

/-- The file system as it is constructed, without files. -/
def construct (start size : Nat) (buffer : Nat → Lib.ByteMemory.Memory) (name : Nat → List Letter) :
    Volume :=
  ⟨⟨RamFilesystem.construct start size, buffer⟩, fun _ => none, name, fun _ => [], []⟩

variable (v : Volume)

/-- `Directory::get`; the length is passed as a byte. -/
def get (dir : Nat) (pName : List Letter) (nameLen : Nat) : Option Nat :=
  (v.content dir).find? fun res =>
    (v.name res).length = nameLen % 2 ^ 8 ∧ strncmp pName (v.name res) (v.name res).length = 0

def setFile (address : Nat) (file : Option RamFile) : Volume :=
  { v with files := Function.update v.files address file }

/-- A new resource is put into a directory. -/
def add (dir address : Nat) (name : List Letter) : Volume :=
  { v with
    name := Function.update v.name address name
    content := Function.update v.content dir (v.content dir ++ [address]) }

def setSystem (fs : RamFilesystem) : Volume := { v with disk := { v.disk with fs := fs } }

/-- The volume, and the block that was taken for the file. -/
def createFile (dir address : Nat) (name : List Letter) : Option (Volume × List Nat) :=
  if v.files address ≠ none then none
  else if v.get dir name name.length ≠ none then some (v, [])
  else
    let (fs, block) := v.disk.fs.allocateBlock noBlock
    if block = noBlock then some (v.setSystem fs, [])
    else some (
      ((v.setSystem fs).setFile address (some (RamFile.create block))).add dir address name,
      [block])

def createDirectory (dir address : Nat) (name : List Letter) : Option Volume :=
  if v.files address ≠ none then none
  else if v.get dir name name.length ≠ none then some v
  else some (v.add dir address name)

/-- `RamFilesystemDirectory::remove`, for a resource that may be removed. -/
def remove (dir address : Nat) : Volume :=
  if address ∈ v.content dir then
    { v with
      content := Function.update v.content dir ((v.content dir).erase address)
      scheduled := v.scheduled ++ [address] }
  else v

/-- `~RamFilesystemFile`. -/
def delete (address : Nat) : Option Volume :=
  if address ∉ v.scheduled then none
  else do
    let file ← v.files address
    let fs ← v.disk.fs.freeBlock v.disk.fs.numBlocks file.myBlockNumber
    some { (v.setSystem fs).setFile address none with scheduled := v.scheduled.erase address }

/-- A call of a file that only changes the file. -/
def onFile (address : Nat) (call : RamFile → RamFile) : Option Volume :=
  (v.files address).map fun file => v.setFile address (some (call file))

def writeBytes (address : Nat) (bytes : List Byte) : Option (Volume × List Nat) := do
  let file ← v.files address
  let w := file.writeBytes v.disk bytes
  some ({ v with disk := w.disk }.setFile address (some w.file), w.allocated)

/-- The volume after an operation, with the blocks that it took. There is none for a
file that does not exist, or while a chain is released that has no end. -/
def perform : Operation → Option (Volume × List Nat)
  | .createFile dir address name => v.createFile dir address name
  | .createDirectory dir address name => (v.createDirectory dir address name).map (·, [])
  | .remove dir address => some (v.remove dir address, [])
  | .delete address => (v.delete address).map (·, [])
  | .writeBytes address bytes => v.writeBytes address bytes
  | .readBytes address length =>
    (v.onFile address fun file => (file.readBytes v.disk length).2).map (·, [])
  | .seek address seekValue => (v.onFile address fun file => file.seek seekValue).map (·, [])
  | .resetPosition address => (v.onFile address RamFile.resetPosition).map (·, [])

end Volume

end Orcos.Source.Files
