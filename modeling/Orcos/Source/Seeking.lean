import Orcos.Source.Fat.File
import Orcos.Source.Files.RamFile

/-!
# Positions of open resources

Source: src/source/syscalls/sc_io.cc, `sc_fseek`; src/source/filesystem/Directory.hh,
`seek`; src/source/filesystem/Directory.cc, `OverlayDirectory::seek`;
src/source/hal/CharacterDevice.hh, `seek`, `resetPosition`;
src/source/filesystem/fat/FATFile.cc, `seek`; library/inc/defines.h.

The call for a descriptor that stands for a directory or a file. The sum of an unsigned
position and a signed offset is unsigned, so the tests for a negative one never hold. A
call that does not return has no result.
-/
namespace Orcos.Source
open Files Fat

def seekSet : Int := 0
def seekCur : Int := 1
def seekEnd : Int := 2

/-- What a descriptor stands for, with what a seek reads of it. -/
inductive OpenResource
  | directory (position : Nat) (numEntries : BitVec 16)
  | overlayDirectory (position : Nat) (numEntries : BitVec 16)
  | ramFile (file : RamFile)
  | fatFile (fs : FATFileSystem) (state : FileState)

namespace OpenResource

def position : OpenResource → Nat
  | directory position _ => position
  | overlayDirectory position _ => position
  | ramFile file => file.position
  | fatFile _ state => state.file.position

/-- The number of entries, or the size of the file. -/
def maxsize : OpenResource → Nat
  | directory _ numEntries => numEntries.toNat
  | overlayDirectory _ numEntries => numEntries.toNat
  | ramFile file => file.filesize
  | fatFile _ state => state.file.filesize

def resetPosition : OpenResource → OpenResource
  | directory _ numEntries => directory 0 numEntries
  | overlayDirectory _ numEntries => overlayDirectory 0 numEntries
  | ramFile file => ramFile file.resetPosition
  | fatFile fs state => fatFile fs (state.resetPosition fs).1

/-- `Directory::seek`. -/
def seekDirectory (position : Nat) (numEntries : BitVec 16) (seekValue : Int) : Nat :=
  let position := unint4 (position + seekValue)
  if position > numEntries.toNat then numEntries.toNat else position

def seek (seekValue : Int) : OpenResource → Option (OpenResource × ErrorT)
  | directory position numEntries =>
    some (directory (seekDirectory position numEntries seekValue) numEntries, cOk)
  | overlayDirectory position numEntries =>
    some (overlayDirectory position numEntries, cNotImplemented)
  | ramFile file => some (ramFile (file.seek seekValue), cOk)
  | fatFile fs state =>
    if state.SeekReturns seekValue then
      some (fatFile fs (state.seek fs seekValue).1, (state.seek fs seekValue).2)
    else none

/-- The offset is a signed word, and so is its sum with the size. -/
def scFseek (res : OpenResource) (offset : BitVec 32) (whence : Int) :
    Option (OpenResource × ErrorT) :=
  if whence < seekSet ∨ seekEnd < whence then some (res, cInvalidArgument)
  else if whence = seekSet then
    if 0 < offset.toInt then res.resetPosition.seek offset.toInt
    else some (res.resetPosition, cOk)
  else if whence = seekCur then res.seek offset.toInt
  else res.resetPosition.seek (BitVec.ofNat 32 res.maxsize + offset).toInt

end OpenResource

end Orcos.Source
