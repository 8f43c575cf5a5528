import Orcos.Source.Alignment
import Mathlib.Data.List.Basic

/-!
# The commands of USB mass storage devices

Source: src/source/arch/shared/usb/storage/MassStorageSCSIUSBDeviceDriver.cc and
MassStorageSCSIUSBDeviceDriver.hh; the bulk messages are those of
src/source/arch/shared/usb/USBHostController.hh.

A `char` is an unsigned byte, as on the ARM boards that have the driver. What
the allocator, the host controller and the device answer is decided beforehand.
The data itself, the cache and the log are left out.
-/
namespace Orcos.Source.MassStorage

def cTransactionFailed : ErrorT := -1012
def cBlockDeviceTooManyBlocks : ErrorT := -702

/-- `USB_BULK_IN_FLAG` and `USB_BULK_OUT_FLAG`. -/
def usbBulkInFlag : BitVec 8 := 0x80
def usbBulkOutFlag : BitVec 8 := 0x00

def scsiRead10 : BitVec 8 := 0x28
def scsiWrite10 : BitVec 8 := 0x2A

def cbwWrite10 : List (BitVec 8) :=
  [0x55, 0x53, 0x42, 0x43,
    0x11, 0x34, 0x56, 0x12,
    0, 0, 0, 0,
    usbBulkOutFlag, 0x0, 10,
    scsiWrite10, 0x0, 0, 0, 0, 0, 0x0, 0x0, 0, 0x0, 0x0, 0x0, 0x0, 0x0, 0x0, 0x0,
    0, 0, 0, 0, 0]

def cbwRead10 : List (BitVec 8) :=
  [0x55, 0x53, 0x42, 0x43,
    0x11, 0x34, 0x56, 0x10,
    0, 0, 0, 0,
    usbBulkInFlag, 0x0, 10,
    scsiRead10, 0x0, 0, 0, 0, 0, 0x0, 0x0, 0, 0x0, 0x0, 0x0, 0x0, 0x0, 0x0, 0x0,
    0, 0, 0, 0, 0]

/-- The messages of `USBBulkMsg`: the command block, the data of a length from
or to the device, and the status of 13 bytes. -/
inductive BulkMsg
  | commandBlock (cbw : List (BitVec 8))
  | dataIn (length : Nat)
  | dataOut (length : Nat)
  | commandStatus
  deriving DecidableEq

/-- Whether both buffers are allocated, what the three calls of `USBBulkMsg`
return, and the status that the device sends. -/
structure Answers where
  allocated : Bool
  cbwSent : ErrorT
  dataMoved : ErrorT
  cswReceived : ErrorT
  csw : Nat → BitVec 8

/-- The signature that a status starts with. -/
def Answers.signed (answers : Answers) : Prop :=
  answers.csw 0 = 0x55 ∧ answers.csw 1 = 0x53 ∧ answers.csw 2 = 0x42 ∧ answers.csw 3 = 0x53

instance (answers : Answers) : Decidable answers.signed := inferInstanceAs (Decidable (_ ∧ _))

/-- `performTransaction` with the messages in their order. -/
def performTransaction (myLUN : BitVec 8) (botCbw : List (BitVec 8)) (length : Nat)
    (answers : Answers) : List BulkMsg × ErrorT :=
  if answers.allocated = false then ([], cError)
  else
    let botCbw := botCbw.set 13 myLUN
    let direction := botCbw.getD 12 0 >>> 7
    let command := .commandBlock (botCbw.take 31)
    let data := if direction = 1 then .dataIn length else .dataOut length
    if answers.cbwSent < 0 then ([command], cError)
    else if answers.dataMoved < 0 then ([command, data], cError)
    else if answers.cswReceived < 0 then ([command, data, .commandStatus], cError)
    else if answers.signed then
      let ret := if answers.csw 12 = 0 then answers.csw 8 else answers.csw 12
      ([command, data, .commandStatus], ret.toNat)
    else ([command, data, .commandStatus], cTransactionFailed)

/-- The byte of a number that is shifted by this many bits. -/
def byteAt (n shift : Nat) : BitVec 8 := BitVec.ofNat 8 (n >>> shift)

/-- A command block for these blocks; the length is that of the data. -/
def blockCommand (cbw : List (BitVec 8)) (length blockNum blocks : Nat) : List (BitVec 8) :=
  ((((((((cbw.set 8 (byteAt length 0)).set 9 (byteAt length 8)).set 10 (byteAt length 16)).set
    11 (byteAt length 24)).set 17 (byteAt blockNum 24)).set 18 (byteAt blockNum 16)).set
    19 (byteAt blockNum 8)).set 20 (byteAt blockNum 0)).set 23 (byteAt blocks 0)

/-- The part that `readBlock` and `writeBlock` share; the length has 16 bits. -/
def transferBlocks (cbw : List (BitVec 8)) (myLUN : BitVec 8) (blockNum blocks : Nat)
    (answers : Answers) : List BulkMsg × ErrorT :=
  if 256 < blocks then ([], cBlockDeviceTooManyBlocks)
  else
    let length := (blocks <<< 9) % 2 ^ 16
    let (messages, error) := performTransaction myLUN (blockCommand cbw length blockNum blocks)
      length answers
    if error < 0 then (messages, cError) else (messages, cOk)

def readBlock (myLUN : BitVec 8) (blockNum blocks : Nat) (answers : Answers) :
    List BulkMsg × ErrorT :=
  transferBlocks cbwRead10 myLUN blockNum blocks answers

def writeBlock (myLUN : BitVec 8) (blockNum blocks : Nat) (answers : Answers) :
    List BulkMsg × ErrorT :=
  transferBlocks (cbwWrite10.set 15 scsiWrite10) myLUN blockNum blocks answers

end Orcos.Source.MassStorage
