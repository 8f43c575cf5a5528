import Orcos.Source.Files.FileManager
import Orcos.Source.Files.Directory
import Orcos.Source.Hal.BufferDevice

/-!
# Memory that system calls touch

Source: src/source/syscalls/syscalls.hh, `VALIDATE_IN_PROCESS`; src/source/syscalls/sc_io.cc,
`sc_fread`, `sc_fwrite`, `sc_fstat`, `sc_getcwd`; `readBytes` and `writeBytes` of
src/source/filesystem/ram/RamFilesystem.cc, src/source/filesystem/fat/FATFile.cc,
src/source/filesystem/Directory.cc, src/source/filesystem/SysFs.cc,
src/source/hal/BufferDevice.cc, src/source/hal/CharacterDevice.hh,
src/source/hal/InterruptManager.cc, src/source/mem/PagedRamMemManager.cc and the drivers under
src/source/arch; src/library/inc/orcos_types.h, `struct stat`.

What a call touches through the pointer of the task is a list of pieces from the pointer on.
What it reads and writes elsewhere is left out. A device is known by what it decides about
that.
-/
namespace Orcos.Source
open Files Hal

/-- Bytes from an offset to the pointer on. -/
structure Touch where
  offset : Nat
  size : Nat
  deriving DecidableEq

/-- The pieces of a buffer that a file reads or fills, block by block or sector by sector: the
loop may give up before it copies to or from a block, and behind it. -/
structure Blocks where
  size : Nat
  positive : 0 < size
  fails : Nat → Bool
  ends : Nat → Bool

/-- The loops of `readBytes` and `writeBytes`; `pos` is the offset they are at. -/
def Blocks.copies (b : Blocks) (position pos length : Nat) : List Touch :=
  let room := b.size - position % b.size
  if length = 0 ∨ b.fails pos then []
  else if length < room then [⟨pos, length⟩]
  else ⟨pos, room⟩ ::
    if b.ends pos then [] else b.copies (position + room) (pos + room) (length - room)
termination_by length
decreasing_by
  have inside := Nat.mod_lt position b.positive
  omega

/-- A file of a ram or of a fat file system. Only the former has two positions. -/
structure BlockFile where
  blocks : Blocks
  filesize : BitVec 32
  readPos : BitVec 32
  position : BitVec 32

/-- A variable of the kernel without a handler for writes. -/
structure KernelVariable where
  filesize : BitVec 32
  position : BitVec 32
  readable : Bool
  writable : Bool

/-- A line of the interrupt manager: the room that is asked for, what `sprintf` stores with the
zero behind it, and how far the cursor goes on. -/
structure IrqLine where
  asked : Nat
  stored : Nat
  advance : Nat

/-- The line of an interrupt, for the length of the driver's name and the digits of the
priority. -/
def IrqLine.entry (namelen digits : Nat) : IrqLine where
  asked := 16 + 12 + namelen
  stored := 23 + max digits 7 + namelen
  advance := 16 + namelen + 13

/-- What is printed before the interrupts. -/
def IrqLine.header : List IrqLine :=
  [⟨33, 34, 33⟩, ⟨16 + 6 + 12, 35, 16 + 6 + 12⟩, ⟨27 + 22, 51, 27 + 23⟩]

/-- The devices with their own `readBytes` or `writeBytes`, with what the hardware answers; `other`
stands for those that inherit both from `CharacterDevice`, or do nothing. A serial line fails behind
some bytes, a GPIO looks whether the pointer is a multiple of four, and the two managers print
lines: `pages` has their lengths, `irq` the names and priorities of the interrupts, behind a header
at position 0. -/
inductive DeviceDriver
  | other
  | uart (ready : Nat)
  | gpio (aligned : Bool)
  | ioMux
  | bebotLED
  | dss
  | spi (ready : Bool)
  | i2c (ready : Bool)
  | pages (lines : List Nat)
  | irq (atStart : Bool) (table : List (Nat × Nat))

namespace DeviceDriver

/-- The lines of the page table, as long as they fit. -/
def printPages : List Nat → Nat → Nat → List Touch
  | [], _, _ => []
  | len :: rest, pos, remainingLength =>
    if len < remainingLength then ⟨pos, len⟩ :: printPages rest (pos + len) (remainingLength - len)
    else []

/-- The lines of the interrupt manager, as long as there is the room asked for. -/
def printIrqs (length : Nat) : List IrqLine → Nat → List Touch
  | [], _ => []
  | line :: rest, len =>
    if len + line.asked > length then []
    else ⟨len, line.stored⟩ :: printIrqs length rest (len + line.advance)

/-- `readBytes`; the length of the pages' device is a signed one. -/
def readBytes (length : BitVec 32) : DeviceDriver → List Touch
  | .uart ready => [⟨0, min ready length.toNat⟩]
  | .gpio aligned => if length < 4 ∨ aligned = false then [] else [⟨0, 4⟩]
  | .ioMux => if length ≠ 4 then [] else [⟨0, 4⟩]
  | .spi ready => ⟨0, 1⟩ :: if ready ∧ 1 ≤ length ∧ length ≤ 4 then [⟨0, length.toNat⟩] else []
  | .i2c ready => ⟨0, 2⟩ :: if length ≤ 32 ∧ ready then [⟨0, length.toNat⟩] else []
  | .pages lines => printPages lines 0 length.toInt.toNat
  | .irq atStart table =>
    printIrqs length.toNat
      ((if atStart then IrqLine.header else []) ++ table.map fun e => .entry e.1 e.2) 0
  | _ => []

/-- `writeBytes`. A serial line loads the byte that it then cannot send. -/
def writeBytes (length : BitVec 32) : DeviceDriver → List Touch
  | .uart ready => [⟨0, min (ready + 1) length.toNat⟩]
  | .gpio aligned => if length ≠ 4 ∨ aligned = false then [] else [⟨0, 4⟩]
  | .ioMux => if length ≠ 4 then [] else [⟨0, 4⟩]
  | .bebotLED => if length ≠ 15 then [] else [⟨0, 15⟩]
  | .dss => [⟨0, length.toNat⟩]
  | .spi ready =>
    if length < 2 then []
    else ⟨0, 1⟩ :: if ready ∧ length ≤ 5 then [⟨1, length.toNat - 1⟩] else []
  | .i2c ready =>
    if length < 3 ∨ length > 32 then []
    else ⟨0, 1⟩ :: if ready then [⟨1, length.toNat - 1⟩] else []
  | _ => []

end DeviceDriver

/-- A fifo; the cursors and the used bytes of a device are inside its buffer, whose size the
constructor limits. -/
structure Fifo where
  device : BufferDevice Unit
  size : device.buffersize.toNat ≤ 4096
  readInside : device.readPointer.toNat < device.buffersize.toNat
  writeInside : device.position.toNat < device.buffersize.toNat
  usedInside : device.usedBytes.toNat ≤ device.buffersize.toNat

inductive Device
  | file (file : BlockFile)
  | fifo (fifo : Fifo)
  | directory (directory : Directory)
  | kernelVariable (variable_ : KernelVariable)
  | driver (driver : DeviceDriver)

structure OpenDevice where
  type : BitVec 32
  device : Device

/-- The two pieces of a transfer from or to a ring buffer. -/
def ringTouches (d : BufferDevice Unit) (start length : BitVec 32) : List Touch :=
  if start + length ≥ d.buffersize then
    [⟨0, (d.buffersize - start).toNat⟩,
      ⟨(d.buffersize - start).toNat, (length - (d.buffersize - start)).toNat⟩]
  else [⟨0, length.toNat⟩]

/-- A file is not read over its end. -/
def BlockFile.readlength (file : BlockFile) (length : BitVec 32) : BitVec 32 :=
  if file.filesize - file.readPos < length then file.filesize - file.readPos else length

/-- What `readBytes` stores to. A fifo that is empty is looked at again when the reader has
been unblocked; its state is the one it has then. -/
def Device.readBytes (length : BitVec 32) : Device → List Touch
  | .file f => f.blocks.copies f.readPos.toNat 0 (f.readlength length).toNat
  | .fifo q =>
    if q.device.usedBytes = 0 then []
    else ringTouches q.device q.device.readPointer (q.device.readLength length)
  | .directory d => (d.readBytes length.toNat).2.1.writes.map fun w => ⟨w.offset, w.bytes.length⟩
  | .kernelVariable v => if 0 < v.position ∨ v.readable = false then [] else [⟨0, v.filesize.toNat⟩]
  | .driver d => d.readBytes length

/-- What `writeBytes` loads from. Directories inherit a `writeBytes` that does nothing. -/
def Device.writeBytes (length : BitVec 32) : Device → List Touch
  | .file f => f.blocks.copies f.position.toNat 0 length.toNat
  | .fifo q =>
    if q.device.writeLength length = 0 then []
    else ringTouches q.device q.device.position (q.device.writeLength length)
  | .directory _ => []
  | .kernelVariable v =>
    if v.writable = false ∨ length ≠ v.filesize then [] else [⟨0, v.filesize.toNat⟩]
  | .driver d => d.writeBytes length

/-- The fields of `struct stat` that are set. -/
def OpenDevice.fstat (res : OpenDevice) : List Touch :=
  [⟨0, 4⟩, ⟨4, 4⟩] ++
    if res.type &&& cFile ≠ 0 then [⟨0, 4⟩, ⟨8, 4⟩, ⟨12, 4⟩]
    else if res.type &&& cDirectory ≠ 0 then [⟨0, 4⟩] else []

def sizeofStat : Nat := 16

/-- A call with the pointer of the task: the resource that a descriptor stands for comes with
it, and the working directory. -/
inductive PointerCall
  | fread (res : Option OpenDevice) (buf count : BitVec 32)
  | fwrite (res : Option OpenDevice) (buf count : BitVec 32)
  | fstat (res : Option OpenDevice) (stat : BitVec 32)
  | getcwd (cwd : List Letter) (buf buflen : BitVec 32)

namespace PointerCall

def pointer : PointerCall → BitVec 32
  | fread _ buf _ => buf
  | fwrite _ buf _ => buf
  | fstat _ stat => stat
  | getcwd _ buf _ => buf

/-- How much the task lets the call touch. -/
def length : PointerCall → Nat
  | fread _ _ count => count.toNat
  | fwrite _ _ count => count.toNat
  | fstat _ _ => sizeofStat
  | getcwd _ _ buflen => buflen.toNat

/-- `VALIDATE_IN_PROCESS`, for tasks that start at an address. -/
def violates (logTaskSpaceStart addr : BitVec 32) : Prop :=
  addr < logTaskSpaceStart ∨ addr > 0x80000000

instance (logTaskSpaceStart addr : BitVec 32) : Decidable (violates logTaskSpaceStart addr) :=
  inferInstanceAs (Decidable (_ ∨ _))

/-- A call that returns an error of its own has touched nothing. -/
def run (logTaskSpaceStart : BitVec 32) (call : PointerCall) : Except ErrorT (List Touch) :=
  if violates logTaskSpaceStart call.pointer then .error cError
  else
    match call with
    | fread none _ _ => .error cResourceNotOwned
    | fread (some res) _ count =>
      if res.type &&& (cStreamDevice ||| cCommDevice ||| cFile ||| cDirectory) ≠ 0 then
        .ok (res.device.readBytes count)
      else .error cResourceNotReadable
    | fwrite none _ _ => .error cResourceNotOwned
    | fwrite (some res) _ count =>
      if res.type &&& (cStreamDevice ||| cCommDevice ||| cFile) ≠ 0 then
        .ok (res.device.writeBytes count)
      else .error cResourceNotWriteable
    | fstat none _ => .error cResourceNotOwned
    | fstat (some res) _ => .ok res.fstat
    | getcwd cwd _ buflen => .ok [⟨0, (strncpy (cwd.map Subtype.val) buflen.toNat).length⟩]

end PointerCall

end Orcos.Source
