import Orcos.Lib.ByteMemory
import Orcos.Lib.Extents
import Orcos.Source.Alignment

/-!
# Receiving with the SMSC95xx network driver

Source: src/source/arch/shared/usb/ethernet/SMSC95xxUSBDeviceDriver.cc, `recv`,
`handleInterrupt`.

A bulk transfer leaves its bytes at the start of `recv_buffer`; the bytes behind are old ones. The
sizes are far below 2 ^ 32, so they are not reduced.
-/
namespace Orcos.Source.Usb
open Lib.ByteMemory Lib.Extents

/-- `rxbuffer` and `recv_len`; the endpoint asks for 512 * 3 bytes. -/
structure Transfer where
  rxbuffer : Memory
  recvLen : Nat
  within : recvLen ≤ 512 * 3

/-- What was received. -/
def Transfer.bytes (t : Transfer) : List (BitVec 8) := bytesAt t.rxbuffer 0 t.recvLen

/-- `pbuf_alloc`, by the number of its call and the size: the payload before anything is copied to
it. -/
structure PbufPool where
  alloc : Nat → Nat → Option (List (BitVec 8))
  sized : ∀ call size payload, alloc call size = some payload → payload.length = size

/-- The members of the driver that `recv` uses; `delivered` are the payloads given to
`ethernet_input`. -/
structure SMSC95xx where
  lastPbuf : List (BitVec 8)
  remainingLen : Nat
  curLen : Nat
  allocated : Nat
  delivered : List (List (BitVec 8))

namespace SMSC95xx

/-- The constructor. -/
def start : SMSC95xx := ⟨[], 0, 0, 0, []⟩

/-- `(n + 3) & (~3)`. -/
def align4 (n : Nat) : Nat := (n + 3) / 4 * 4

/-- `packet_len & RX_STS_ES_`. -/
def errorSummary (status : Nat) : Bool := status.testBit 15

/-- `(packet_len & RX_STS_FL_) >> 16`. -/
def frameLength (status : Nat) : Nat := status / 2 ^ 16 % 2 ^ 14

/-- A copy that goes wrong. -/
inductive Fault
  /-- The copy ends behind the payload. -/
  | overflow
  /-- The number of bytes is below zero. -/
  | negative
  deriving DecidableEq

/-- `memcpy` into a payload. -/
def copy (payload : List (BitVec 8)) (place : Nat) (bytes : List (BitVec 8)) :
    Except Fault (List (BitVec 8)) :=
  if place + bytes.length ≤ payload.length then .ok (overlay payload place bytes)
  else .error .overflow

/-- The rest of a packet, or a part of it, at the start of the buffer. -/
def continuePacket (t : Transfer) (d : SMSC95xx) : Except Fault SMSC95xx :=
  if d.remainingLen ≤ t.recvLen then do
    let p ← copy d.lastPbuf d.curLen (bytesAt t.rxbuffer 0 d.remainingLen)
    pure { d with lastPbuf := p, remainingLen := 0, curLen := 0, delivered := d.delivered ++ [p] }
  else do
    let p ← copy d.lastPbuf d.curLen (bytesAt t.rxbuffer 0 t.recvLen)
    pure { d with lastPbuf := p, remainingLen := d.remainingLen - t.recvLen,
                  curLen := d.curLen + t.recvLen }

/-- A packet that begins in the buffer. -/
def beginPacket (pool : PbufPool) (t : Transfer) (d : SMSC95xx) (recvdBytes packetLen : Nat) :
    Except Fault SMSC95xx :=
  let counted := { d with allocated := d.allocated + 1 }
  match pool.alloc d.allocated (packetLen + 10) with
  | none => pure counted
  | some payload =>
    if recvdBytes + 4 + packetLen ≤ t.recvLen then do
      let p ← copy payload 0 (bytesAt t.rxbuffer (recvdBytes + 4) packetLen)
      pure { counted with delivered := d.delivered ++ [p] }
    else if t.recvLen < recvdBytes + 4 then .error .negative
    else do
      let rLen := t.recvLen - (recvdBytes + 4)
      let p ← copy payload 0 (bytesAt t.rxbuffer (recvdBytes + 4) rLen)
      pure { counted with lastPbuf := p, curLen := rLen, remainingLen := packetLen - rLen }

theorem lt_align4 {n k : Nat} (some_ : 0 < k) : n < align4 (n + k) := by
  rw [align4]
  omega

/-- The loop of `recv`, from a value of `recvd_bytes` on. -/
def recvFrom (pool : PbufPool) (t : Transfer) (d : SMSC95xx) (recvdBytes : Nat) :
    Except Fault (SMSC95xx × ErrorT) :=
  if recvdBytes < t.recvLen then
    if 0 < d.remainingLen then do
      let d' ← continuePacket t d
      recvFrom pool t d' (align4 (recvdBytes + min d.remainingLen t.recvLen))
    else
      let status := read32 t.rxbuffer recvdBytes
      if errorSummary status then pure (d, cError)
      else if 1500 < frameLength status ∨ frameLength status = 0 then pure (d, cError)
      else do
        let d' ← beginPacket pool t d recvdBytes (frameLength status)
        recvFrom pool t d' (align4 (recvdBytes + (frameLength status + 4)))
  else pure (d, cOk)
termination_by t.recvLen - recvdBytes
decreasing_by
  · have later := lt_align4 (n := recvdBytes) (k := min d.remainingLen t.recvLen) (by omega)
    omega
  · have later := lt_align4 (n := recvdBytes) (Nat.zero_lt_succ (frameLength status + 3))
    exact Nat.sub_lt_sub_left ‹_› later

def recv (pool : PbufPool) (t : Transfer) (d : SMSC95xx) : Except Fault (SMSC95xx × ErrorT) :=
  if t.recvLen = 0 then pure (d, -1) else recvFrom pool t d 0

/-- `handleInterrupt` when the bulk transfer has finished. -/
def handleTransfer (pool : PbufPool) (d : SMSC95xx) (t : Transfer) : Except Fault SMSC95xx :=
  if 0 < t.recvLen then Prod.fst <$> recv pool t d else pure d

end SMSC95xx

end Orcos.Source.Usb
