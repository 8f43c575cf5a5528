import Orcos.Lib.ByteMemory
import Orcos.Source.Alignment
import Orcos.Source.IDMap

/-!
# The enumeration of a USB device

Source: src/source/arch/shared/usb/USBHostController.cc, `enumerateDevice`, `registerDevice`,
`unregisterDevice`; src/source/arch/shared/usb/USBDevice.hh and usb.h.

Memory is counted from the start of `recv_buf`. The device answers each request as it likes.
`hub->enumerate()` and `driver->initialize()` are the last calls and their results are not used:
`starts` is the driver they are made on.
-/
namespace Orcos.Source.Usb
open Lib.ByteMemory

inductive TransferType
  | control | isochronous | bulk | interrupt | unknownTT
  deriving DecidableEq

inductive TransferDirection
  | out | in_ | both | unknownDir
  deriving DecidableEq

structure DeviceEndpoint where
  descriptor : List (BitVec 8)
  type : TransferType
  direction : TransferDirection
  address : BitVec 8
  pollFrequency : BitVec 8
  interruptReceiveSize : Nat

/-- The fields of a device that the enumeration reads or sets; `δ` are the drivers, a hub among
them. -/
structure USBDevice (δ : Type) where
  devDescr : List (BitVec 8)
  ifDescr : List (BitVec 8)
  endpoints : List DeviceEndpoint
  parent : Option δ
  addr : Nat
  numEndpoints : Nat
  driver : Option δ

namespace USBDevice

variable {δ : Type} (dev : USBDevice δ)

def bDeviceClass : BitVec 8 := dev.devDescr.getD 4 0

def idVendor : Nat := (dev.devDescr.getD 8 0).toNat + (dev.devDescr.getD 9 0).toNat * 2 ^ 8

def bMaxPacketSize : Nat := (dev.devDescr.getD 7 0).toNat

def setEndpoint (endpoint : Nat) (f : DeviceEndpoint → DeviceEndpoint) : USBDevice δ :=
  { dev with endpoints := dev.endpoints.modify endpoint f }

/-- The copy of the first bytes received. -/
def copyDescriptor (m : Memory) (length : Nat) : USBDevice δ :=
  { dev with devDescr := bytesAt m 0 length ++ dev.devDescr.drop length }

/-- A class above 15 is set to 4. -/
def limitClass : USBDevice δ :=
  { dev with devDescr := dev.devDescr.modify 4 fun cls => if cls > 15 then 4 else cls }

end USBDevice

/-- What the code does with the `received` bytes of the last answer, and with `endpoints`. -/
inductive Access
  | read (received offset length : Nat)
  | store (endpoint : Nat)
  deriving DecidableEq

/-- What the requests return: the bytes of an answer, or nothing for an error; and the hub or the
driver that is created. -/
structure Answers (δ : Type) where
  deviceDescriptor : Option (List (BitVec 8))
  resetPort : ErrorT
  setAddress : Int
  secondDescriptor : Option (List (BitVec 8))
  configuration : Option (List (BitVec 8))
  setConfiguration : Int
  hub : δ
  driver : Option δ

structure Enumeration (δ : Type) where
  dev : USBDevice δ
  freeDeviceIDs : IDMap
  registeredDevices : List (Option δ)
  accesses : List Access
  starts : Option δ
  result : ErrorT

/-- The data phase of a request for at most `length` bytes. -/
def dataPhase (bytes : List (BitVec 8)) (length : Nat) : List (BitVec 8) := bytes.take length

section Parse

variable (m : Memory) (received totalLength : Nat)

/-- The loop over custom descriptors; each round reads the type, and the length of one to skip. -/
def skipUnknown : Nat → Nat → Nat → Option (List Access × Nat × Nat)
  | 0, _, _ => none
  | fuel + 1, descr, bytesRead =>
    if m (descr + 1) ≠ 5 ∧ bytesRead < totalLength then
      let bLength := (m descr).toNat
      (skipUnknown fuel (descr + bLength) (bytesRead + bLength)).map fun rest =>
        (.read received (descr + 1) 1 :: .read received descr 1 :: rest.1, rest.2)
    else some ([.read received (descr + 1) 1], descr, bytesRead)

def transferType (bmAttributes : BitVec 8) : TransferType :=
  if bmAttributes &&& 3 = 0 then .control
  else if bmAttributes &&& 3 = 1 then .isochronous
  else if bmAttributes &&& 3 = 2 then .bulk
  else .interrupt

/-- What the loop sets after it has copied a descriptor. -/
def decode (descr : Nat) (e : DeviceEndpoint) : DeviceEndpoint :=
  let size := if m descr > 5 then read16 m (descr + 4) else e.interruptReceiveSize
  let type := transferType (m (descr + 3))
  { e with
    direction := if (m (descr + 2) &&& 0x80) >>> 7 = 0 then .out else .in_
    address := m (descr + 2) &&& 0xf
    interruptReceiveSize := if size = 0 then 40 else size
    type := type
    pollFrequency := if type = .interrupt then m (descr + 6) else e.pollFrequency }

/-- The loop over the endpoints from the `i`-th on; `remaining` rounds are left. -/
def readEndpoints : Nat → Nat → Nat → Nat → USBDevice δ → List Access × USBDevice δ × ErrorT
  | 0, _, _, _, dev => ([], dev, cOk)
  | remaining + 1, i, descr, bytesRead, dev =>
    let dev := dev.setEndpoint (i + 1) ({ · with interruptReceiveSize := 0 })
    if bytesRead > totalLength then ([.store (i + 1)], dev, cOk)
    else
      let dev := dev.setEndpoint (i + 1) ({ · with descriptor := bytesAt m descr 7 })
      let accesses : List Access := [.store (i + 1), .read received descr 7, .store (i + 1)]
      if m (descr + 1) ≠ 5 then (accesses, dev, cError)
      else
        let bLength := (m descr).toNat
        let rest := readEndpoints remaining (i + 1) (descr + bLength) (bytesRead + bLength)
          (dev.setEndpoint (i + 1) (decode m descr))
        (accesses ++ rest.1, rest.2)

end Parse

section Drivers

variable {δ : Type}

/-- The first free place of the table, if there is one. -/
def registerDevice : List (Option δ) → δ → List (Option δ)
  | [], _ => []
  | none :: rest, drv => some drv :: rest
  | some other :: rest, drv => some other :: registerDevice rest drv

/-- The first place with the driver, if there is one. -/
def unregisterDevice [DecidableEq δ] : List (Option δ) → δ → List (Option δ)
  | [], _ => []
  | entry :: rest, drv =>
    if entry = some drv then none :: rest else entry :: unregisterDevice rest drv

end Drivers

section Enumeration

variable {δ : Type}

def Enumeration.return_ (e : Enumeration δ) (result : ErrorT) : Enumeration δ :=
  { e with result := result }

def Enumeration.access (e : Enumeration δ) (accesses : List Access) : Enumeration δ :=
  { e with accesses := e.accesses ++ accesses }

def Enumeration.register (e : Enumeration δ) (drv : δ) : Enumeration δ :=
  { e with
    dev := { e.dev with driver := some drv }
    registeredDevices := registerDevice e.registeredDevices drv
    starts := some drv
    result := cOk }

/-- The last part: a hub or a driver for the device. -/
def loadDriver (a : Answers δ) (e : Enumeration δ) : Enumeration δ :=
  if e.dev.bDeviceClass = 9 then
    let dev := e.dev.setEndpoint 1 ({ · with type := .interrupt, pollFrequency := 27 })
    ({ e with dev := dev }.access [.store 1]).register a.hub
  else match a.driver with
    | some driver => e.register driver
    | none => e.return_ cError

/-- The part behind the endpoints: the device is configured, and gets its driver. -/
def setConfiguration (a : Answers δ) (e : Enumeration δ) (result : ErrorT) : Enumeration δ :=
  if result ≠ cOk then e.return_ result
  else if e.dev.idVendor ≠ 0x58f ∧ a.setConfiguration < 0 then e.return_ cError
  else loadDriver a e

/-- `memset`, and then the answer. -/
def clearAndReceive (m : Memory) (bytes : List (BitVec 8)) : Memory :=
  copyInto (fill m 0 0xff 0) 0 bytes

/-- The part from the request for the configuration descriptor on. -/
def configure (m : Memory) (a : Answers δ) (e : Enumeration δ) (fuel : Nat) :
    Option (Enumeration δ) :=
  match a.configuration with
  | none => some (e.return_ cError)
  | some bytes =>
    let bytes := dataPhase bytes 0xff
    let m := clearAndReceive m bytes
    let totalLength := read16 m 2
    let dev := { e.dev with ifDescr := bytesAt m 9 9, numEndpoints := (m 13).toNat }
    match skipUnknown m bytes.length totalLength fuel 18 (9 + (m 9).toNat) with
    | none => none
    | some (skipped, descr, bytesRead) =>
      let (stored, dev, result) :=
        readEndpoints m bytes.length totalLength (m 13).toNat 0 descr bytesRead dev
      let header : List Access := [.read bytes.length 0 9, .read bytes.length 9 9]
      let e := { e with dev := dev }.access (header ++ skipped ++ stored)
      some (setConfiguration a e result)

/-- The second request for the device descriptor, when the first one brought less than all. -/
def describeAgain (m : Memory) (a : Answers δ) (e : Enumeration δ) (fuel : Nat) :
    Option (Enumeration δ) :=
  match a.secondDescriptor with
  | none => some (e.return_ cError)
  | some bytes =>
    let bytes := dataPhase bytes 0x40
    let m := copyInto m 0 bytes
    configure m a ({ e with dev := e.dev.copyDescriptor m 18 }.access [.read bytes.length 0 18])
      fuel

/-- The packet size of the control endpoint, and the address. -/
def Enumeration.assign (e : Enumeration δ) (nextId : Int) : Enumeration δ :=
  let dev := e.dev.setEndpoint 0 ({ · with interruptReceiveSize := e.dev.bMaxPacketSize })
  { e with dev := { dev with addr := nextId.toNat % 2 ^ 8 } }.access [.store 0]

/-- The part between the reset of the port and the configuration: an address for the device. -/
def address (m : Memory) (a : Answers δ) (retLen : Nat) (e : Enumeration δ) (fuel : Nat) :
    Option (Enumeration δ) :=
  let (freeDeviceIDs, nextId) := e.freeDeviceIDs.getNextID
  let e := { e with freeDeviceIDs := freeDeviceIDs }
  if nextId = -1 then some (e.return_ cError)
  else if a.setAddress < 0 then some ((e.assign nextId).return_ cError)
  else if retLen < 18 then describeAgain m a (e.assign nextId) fuel
  else configure m a (e.assign nextId) fuel

/-- The device descriptor, copied as far as its first byte says. -/
def Enumeration.copyDescriptor (e : Enumeration δ) (m : Memory) (received bdevLength : Nat) :
    Enumeration δ :=
  { e with dev := (e.dev.copyDescriptor m bdevLength).limitClass }.access
    [.read received 0 bdevLength]

/-- The part from the first request on. -/
def describe (m : Memory) (a : Answers δ) (e : Enumeration δ) (fuel : Nat) :
    Option (Enumeration δ) :=
  match a.deviceDescriptor with
  | none => some (e.return_ cError)
  | some bytes =>
    let bytes := dataPhase bytes 0x40
    let m := copyInto m 0 bytes
    let e := e.access [.read bytes.length 0 1]
    let bdevLength := (m 0).toNat
    if 0 < bdevLength ∧ bdevLength ≤ 18 then
      let e := e.copyDescriptor m bytes.length bdevLength
      -- below a hub the result of the reset is not looked at
      if e.dev.parent.isNone ∧ isError a.resetPort then some (e.return_ a.resetPort)
      else address m a bytes.length e fuel
    else some (e.return_ cError)

/-- The enumeration with as many rounds of the loop over custom descriptors as there is fuel. -/
def enumerateDevice (m : Memory) (a : Answers δ) (dev : USBDevice δ) (freeDeviceIDs : IDMap)
    (registeredDevices : List (Option δ)) (fuel : Nat) : Option (Enumeration δ) :=
  describe m a ⟨dev, freeDeviceIDs, registeredDevices, [], none, cOk⟩ fuel

end Enumeration

end Orcos.Source.Usb
