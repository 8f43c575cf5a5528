import Orcos.Lib.Ring
import Orcos.Source.Alignment
import Orcos.Lib.Runs

/-!
# Buffer devices

Source: src/source/hal/BufferDevice.cc, constructor, `readBytes`, `writeBytes`;
src/source/hal/BufferDevice.hh; src/source/hal/CharacterDevice.hh, `resetPosition`;
src/source/filesystem/Resource.cc, `acquire`.

A ring buffer between tasks. The write cursor is the position of the character device,
which each successful `acquire` sets back; the read cursor and the number of buffered bytes
are the device's own. All sums are formed in 32 bits.
-/
namespace Orcos.Source.Hal
open Lib.Ring

abbrev Byte := BitVec 8

/-- A position in a buffer and a number of bytes. -/
abbrev Access := BitVec 32 × BitVec 32

/-- An access to a buffer of a size stays inside. -/
def Access.Inside (access : Access) (size : BitVec 32) : Prop :=
  access.2 = 0 ∨ access.1.toNat + access.2.toNat ≤ size.toNat

instance (access : Access) (size : BitVec 32) : Decidable (access.Inside size) :=
  inferInstanceAs (Decidable (_ ∨ _))

/-- `memcpy` into a buffer. -/
def store (cells : Nat → Byte) (access : Access) (bytes : Nat → Byte) : Nat → Byte := fun i =>
  if access.1.toNat ≤ i ∧ i < access.1.toNat + access.2.toNat then bytes (i - access.1.toNat)
  else cells i

/-- `memcpy` from a buffer. -/
def load (cells : Nat → Byte) (access : Access) : List Byte :=
  (List.range access.2.toNat).map fun k => cells (access.1.toNat + k)

def bufferdeviceMaxBufferSize : BitVec 32 := 4096

structure BufferDevice (τ : Type) where
  buffer : Nat → Byte
  buffersize : BitVec 32
  usedBytes : BitVec 32
  readPointer : BitVec 32
  position : BitVec 32
  blockedThread : Option τ

namespace BufferDevice

variable {τ : Type} (d : BufferDevice τ)

/-- The constructor. The cells of a new buffer hold anything. -/
def fresh (cells : Nat → Byte) (bufferSize : BitVec 32) : BufferDevice τ where
  buffer := cells
  buffersize :=
    if bufferSize > bufferdeviceMaxBufferSize then bufferdeviceMaxBufferSize else bufferSize
  usedBytes := 0
  readPointer := 0
  position := 0
  blockedThread := none

/-- Up to the end of the buffer, and the rest from its start on. -/
def pieces (start length : BitVec 32) : List Access :=
  if start + length ≥ d.buffersize then
    [(start, d.buffersize - start), (0, length - (d.buffersize - start))]
  else [(start, length)]

/-- Where a cursor is behind the pieces. -/
def advance (start length : BitVec 32) : BitVec 32 :=
  if start + length ≥ d.buffersize then length - (d.buffersize - start) else start + length

def readLength (length : BitVec 32) : BitVec 32 :=
  if length > d.usedBytes then d.usedBytes else length

def writeLength (length : BitVec 32) : BitVec 32 :=
  if length + d.usedBytes > d.buffersize then d.buffersize - d.usedBytes else length

/-- The pieces are stored one after the other, each from the byte behind the last one on. -/
def storePieces (cells : Nat → Byte) : List Access → (Nat → Byte) → Nat → Byte
  | [], _ => cells
  | access :: rest, bytes =>
    storePieces (store cells access bytes) rest fun k => bytes (access.2.toNat + k)

/-- The bytes that `readBytes` copies. -/
def copied (length : BitVec 32) : List Byte :=
  (d.pieces d.readPointer length).flatMap (load d.buffer)

/-- `readBytes` behind its tests. -/
def take (length : BitVec 32) : BufferDevice τ :=
  { d with
    readPointer := d.advance d.readPointer length
    usedBytes := d.usedBytes - length }

/-- `writeBytes` behind its test, up to the blocked thread. -/
def put (bytes : Nat → Byte) (writeBytes : BitVec 32) : BufferDevice τ :=
  { d with
    buffer := storePieces d.buffer (d.pieces d.position writeBytes) bytes
    position := d.advance d.position writeBytes
    usedBytes := d.usedBytes + writeBytes }

def setBlockedThread (thread : Option τ) : BufferDevice τ := { d with blockedThread := thread }

def resetPosition : BufferDevice τ := { d with position := 0 }

end BufferDevice

/-- Where a thread is in `readBytes`. -/
inductive Reader
  | away
  | asleep (length : BitVec 32)
  | awake (length : BitVec 32)
  deriving DecidableEq

/-- A device in use. `accepted` collects the bytes that writes stored, `given` all the bytes
of the writes that returned `cOk`, `obtained` those that reads copied; `accesses` are the
accesses to the buffer. -/
structure Stream (τ : Type) where
  device : BufferDevice τ
  reader : τ → Reader
  accepted : List Byte
  given : List Byte
  obtained : List Byte
  accesses : List Access

/-- Calls on a device. A reader that blocks goes on in `resume`. -/
inductive Call (τ : Type)
  | writeBytes (bytes : Nat → Byte) (length : BitVec 32)
  | readBytes (thread : τ) (length : BitVec 32)
  | resume (thread : τ)
  | acquire (retval : ErrorT)
  | release

namespace Stream

variable {τ : Type} [DecidableEq τ] (s : Stream τ)

def fresh (cells : Nat → Byte) (bufferSize : BitVec 32) : Stream τ where
  device := .fresh cells bufferSize
  reader _ := .away
  accepted := []
  given := []
  obtained := []
  accesses := []

def setReader (thread : τ) (reader : Reader) : Stream τ :=
  { s with reader := Function.update s.reader thread reader }

/-- The first bytes at an address. -/
def bytesFrom (bytes : Nat → Byte) (length : BitVec 32) : List Byte :=
  (List.range length.toNat).map bytes

def unblock (thread : τ) : Stream τ :=
  match s.reader thread with
  | .asleep length => s.setReader thread (.awake length)
  | _ => s

/-- The end of `writeBytes`. -/
def wake : Stream τ :=
  match s.device.blockedThread with
  | some thread => { s with device := s.device.setBlockedThread none }.unblock thread
  | none => s

def writeBytes (bytes : Nat → Byte) (length : BitVec 32) : Stream τ × ErrorT :=
  let writeBytes := s.device.writeLength length
  if writeBytes = 0 then (s, cDeviceMemoryExhausted)
  else
    let stored : Stream τ :=
      { s with
        device := s.device.put bytes writeBytes
        accepted := s.accepted ++ bytesFrom bytes writeBytes
        given := s.given ++ bytesFrom bytes length
        accesses := s.accesses ++ s.device.pieces s.device.position writeBytes }
    (stored.wake, cOk)

/-- `readBytes` behind `block`: the length that was read, too. -/
def readFilled (length : BitVec 32) : Stream τ × BitVec 32 :=
  if s.device.usedBytes = 0 then (s, 0)
  else
    let length := s.device.readLength length
    ({ s with
        device := s.device.take length
        obtained := s.obtained ++ s.device.copied length
        accesses := s.accesses ++ s.device.pieces s.device.readPointer length }, length)

def readBytes (thread : τ) (length : BitVec 32) : Stream τ :=
  if s.device.usedBytes = 0 then
    { s with device := s.device.setBlockedThread (some thread) }.setReader thread (.asleep length)
  else (s.readFilled length).1

def resume (thread : τ) : Stream τ :=
  match s.reader thread with
  | .awake length => ((s.readFilled length).1).setReader thread .away
  | _ => s

/-- `Resource::acquire`, after the task has answered whether it takes the resource. -/
def acquire (retval : ErrorT) : Stream τ :=
  if isError retval then s else { s with device := s.device.resetPosition }

def step : Call τ → Stream τ
  | .writeBytes bytes length => (s.writeBytes bytes length).1
  | .readBytes thread length =>
    if s.reader thread = .away then s.readBytes thread length else s
  | .resume thread => s.resume thread
  | .acquire retval => s.acquire retval
  | .release => s

end Stream

end Orcos.Source.Hal

/-! ## Buffer devices used at once

Source: src/source/hal/BufferDevice.cc, `readBytes`, `writeBytes`;
src/source/process/Thread.cc, `block`, `unblock`.

Nothing excludes threads and interrupt handlers from each other in a device. A step is what
one of them does between two places at which others can come in: it reads or writes one field
of the device, copies a block of bytes, sets the flag of a thread that blocks, comes to the
dispatcher with it, tests the flag of a thread, or unblocks it. Reads and writes of `usedBytes`
in one assignment are two steps.
-/
namespace Orcos.Source.Hal
open Lib.Runs

namespace BufferDevice

variable {τ : Type} (d : BufferDevice τ)

def moveReadPointer (length : BitVec 32) : BufferDevice τ :=
  { d with readPointer := d.advance d.readPointer length }

def fill (bytes : Nat → Byte) (writeBytes : BitVec 32) : BufferDevice τ :=
  { d with
    buffer := storePieces d.buffer (d.pieces d.position writeBytes) bytes
    position := d.advance d.position writeBytes }

def setUsedBytes (usedBytes : BitVec 32) : BufferDevice τ := { d with usedBytes := usedBytes }

end BufferDevice

/-- Where a thread or a handler is. In `readBytes` it has found the buffer empty, is entered
in `blockedThread`, has set its flag, sleeps on the list of the dispatcher, is to test again, to
copy, to load `usedBytes` and to store it; it is `unflagged` when it was unblocked before the
dispatcher got it, and then `stranded` on the list. In `writeBytes` it is to copy, to load and to
store, to look for a blocked thread, to clear that, to test the flag of the thread, and to unblock
it. -/
inductive Place (τ : Type)
  | away
  | tested (length : BitVec 32)
  | entered (length : BitVec 32)
  | flagged (length : BitVec 32)
  | unflagged (length : BitVec 32)
  | asleep (length : BitVec 32)
  | stranded (length : BitVec 32)
  | awake (length : BitVec 32)
  | filled (length : BitVec 32)
  | copied (length : BitVec 32)
  | taking (usedBytes : BitVec 32)
  | writing (bytes : Nat → Byte) (writeBytes : BitVec 32)
  | stored (writeBytes : BitVec 32)
  | adding (usedBytes : BitVec 32)
  | added
  | clearing (thread : τ)
  | waking (thread : τ)
  | unblocking (thread : τ)

/-- `isBlocked`. -/
def Place.isBlocked {τ : Type} : Place τ → Bool
  | .flagged _ => true
  | .asleep _ => true
  | _ => false

/-- A device and those that use it. -/
structure Users (τ : Type) where
  device : BufferDevice τ
  place : τ → Place τ

inductive Step (τ : Type)
  | readBytes (thread : τ) (length : BitVec 32)
  | writeBytes (thread : τ) (bytes : Nat → Byte) (length : BitVec 32)
  | next (thread : τ)

namespace Users

variable {τ : Type} [DecidableEq τ] (s : Users τ)

def fresh (cells : Nat → Byte) (bufferSize : BitVec 32) : Users τ where
  device := .fresh cells bufferSize
  place _ := .away

def setPlace (thread : τ) (place : Place τ) : Users τ :=
  { s with place := Function.update s.place thread place }

def setDevice (device : BufferDevice τ) : Users τ := { s with device := device }

/-- The first test of `readBytes`. -/
def readBytes (thread : τ) (length : BitVec 32) : Users τ :=
  if s.device.usedBytes = 0 then s.setPlace thread (.tested length)
  else s.setPlace thread (.awake length)

/-- The length that `writeBytes` chooses. -/
def writeBytes (thread : τ) (bytes : Nat → Byte) (length : BitVec 32) : Users τ :=
  if s.device.writeLength length = 0 then s
  else s.setPlace thread (.writing bytes (s.device.writeLength length))

/-- `Thread::unblock` behind the test: it clears the flag, and the dispatcher takes the thread
off its list. -/
def unflag (thread : τ) : Users τ :=
  match s.place thread with
  | .flagged length => s.setPlace thread (.unflagged length)
  | .asleep length => s.setPlace thread (.awake length)
  | .stranded length => s.setPlace thread (.awake length)
  | _ => s

/-- What a thread does next where it is. -/
def next (thread : τ) : Users τ :=
  match s.place thread with
  | .away => s
  | .tested length =>
    (s.setDevice (s.device.setBlockedThread (some thread))).setPlace thread (.entered length)
  | .entered length => s.setPlace thread (.flagged length)
  | .flagged length => s.setPlace thread (.asleep length)
  | .unflagged length => s.setPlace thread (.stranded length)
  | .asleep _ => s
  | .stranded _ => s
  | .awake length =>
    if s.device.usedBytes = 0 then s.setPlace thread .away else s.setPlace thread (.filled length)
  | .filled length =>
    (s.setDevice (s.device.moveReadPointer (s.device.readLength length))).setPlace thread
      (.copied (s.device.readLength length))
  | .copied length => s.setPlace thread (.taking (s.device.usedBytes - length))
  | .taking usedBytes => (s.setDevice (s.device.setUsedBytes usedBytes)).setPlace thread .away
  | .writing bytes writeBytes =>
    (s.setDevice (s.device.fill bytes writeBytes)).setPlace thread (.stored writeBytes)
  | .stored writeBytes => s.setPlace thread (.adding (s.device.usedBytes + writeBytes))
  | .adding usedBytes => (s.setDevice (s.device.setUsedBytes usedBytes)).setPlace thread .added
  | .added =>
    match s.device.blockedThread with
    | some blocked => s.setPlace thread (.clearing blocked)
    | none => s.setPlace thread .away
  | .clearing blocked =>
    (s.setDevice (s.device.setBlockedThread none)).setPlace thread (.waking blocked)
  | .waking blocked =>
    if (s.place blocked).isBlocked then s.setPlace thread (.unblocking blocked)
    else s.setPlace thread .away
  | .unblocking blocked => (s.unflag blocked).setPlace thread .away

/-- A call begins where a thread is outside of the device. -/
def step : Step τ → Users τ
  | .readBytes thread length =>
    match s.place thread with
    | .away => s.readBytes thread length
    | _ => s
  | .writeBytes thread bytes length =>
    match s.place thread with
    | .away => s.writeBytes thread bytes length
    | _ => s
  | .next thread => s.next thread

variable {s} {thread blocked : τ} {length usedBytes : BitVec 32} {bytes : Nat → Byte}

@[simp] theorem setPlace_place {place : Place τ} : (s.setPlace thread place).place thread = place :=
  Function.update_self ..

theorem next_tested (here : s.place thread = .tested length) :
    s.next thread = (s.setDevice (s.device.setBlockedThread (some thread))).setPlace thread
      (.entered length) := by
  simp only [next, here]

theorem next_entered (here : s.place thread = .entered length) :
    s.next thread = s.setPlace thread (.flagged length) := by
  simp only [next, here]

theorem next_flagged (here : s.place thread = .flagged length) :
    s.next thread = s.setPlace thread (.asleep length) := by
  simp only [next, here]

theorem next_awake_empty (here : s.place thread = .awake length) (empty : s.device.usedBytes = 0) :
    s.next thread = s.setPlace thread .away := by
  simp only [next, here, if_pos empty]

theorem next_awake_filled (here : s.place thread = .awake length)
    (filled : s.device.usedBytes ≠ 0) : s.next thread = s.setPlace thread (.filled length) := by
  simp only [next, here, if_neg filled]

theorem next_filled (here : s.place thread = .filled length) :
    s.next thread = (s.setDevice (s.device.moveReadPointer (s.device.readLength length))).setPlace
      thread (.copied (s.device.readLength length)) := by
  simp only [next, here]

theorem next_copied (here : s.place thread = .copied length) :
    s.next thread = s.setPlace thread (.taking (s.device.usedBytes - length)) := by
  simp only [next, here]

theorem next_taking (here : s.place thread = .taking usedBytes) :
    s.next thread = (s.setDevice (s.device.setUsedBytes usedBytes)).setPlace thread .away := by
  simp only [next, here]

theorem next_writing (here : s.place thread = .writing bytes length) :
    s.next thread =
      (s.setDevice (s.device.fill bytes length)).setPlace thread (.stored length) := by
  simp only [next, here]

theorem next_stored (here : s.place thread = .stored length) :
    s.next thread = s.setPlace thread (.adding (s.device.usedBytes + length)) := by
  simp only [next, here]

theorem next_adding (here : s.place thread = .adding usedBytes) :
    s.next thread = (s.setDevice (s.device.setUsedBytes usedBytes)).setPlace thread .added := by
  simp only [next, here]

theorem next_added_none (here : s.place thread = .added)
    (nobody : s.device.blockedThread = none) : s.next thread = s.setPlace thread .away := by
  simp only [next, here, nobody]

theorem next_added_some (here : s.place thread = .added)
    (known : s.device.blockedThread = some blocked) :
    s.next thread = s.setPlace thread (.clearing blocked) := by
  simp only [next, here, known]

theorem next_clearing (here : s.place thread = .clearing blocked) :
    s.next thread = (s.setDevice (s.device.setBlockedThread none)).setPlace thread
      (.waking blocked) := by
  simp only [next, here]

theorem next_waking_blocked (here : s.place thread = .waking blocked)
    (flag : (s.place blocked).isBlocked = true) :
    s.next thread = s.setPlace thread (.unblocking blocked) := by
  simp only [next, here, if_pos flag]

theorem next_waking_unblocked (here : s.place thread = .waking blocked)
    (flag : ¬(s.place blocked).isBlocked = true) : s.next thread = s.setPlace thread .away := by
  simp only [next, here, if_neg flag]

theorem next_unblocking (here : s.place thread = .unblocking blocked) :
    s.next thread = (s.unflag blocked).setPlace thread .away := by
  simp only [next, here]

/-- Undisturbed, the steps of a read from a filled buffer are the whole call. -/
theorem read_alone (away : s.place thread = .away) (filled : s.device.usedBytes ≠ 0)
    (length : BitVec 32) :
    (exec step s (.readBytes thread length :: List.replicate 4 (.next thread))).device =
      s.device.take (s.device.readLength length) := by
  have started : s.step (.readBytes thread length) = s.setPlace thread (.awake length) := by
    simp only [step, away, readBytes, if_neg filled]
  simp only [List.replicate, exec, started]
  simp only [step]
  rw [next_awake_filled setPlace_place filled, next_filled setPlace_place,
    next_copied setPlace_place, next_taking setPlace_place]
  rfl

/-- Undisturbed, the steps of a write that wakes nobody are the whole call. -/
theorem write_alone (away : s.place thread = .away) (nobody : s.device.blockedThread = none)
    (bytes : Nat → Byte) (length : BitVec 32) (stores : s.device.writeLength length ≠ 0) :
    (exec step s (.writeBytes thread bytes length :: List.replicate 4 (.next thread))).device =
      s.device.put bytes (s.device.writeLength length) := by
  have started : s.step (.writeBytes thread bytes length) =
      s.setPlace thread (.writing bytes (s.device.writeLength length)) := by
    simp only [step, away, writeBytes, if_neg stores]
  simp only [List.replicate, exec, started]
  simp only [step]
  rw [next_writing setPlace_place, next_stored setPlace_place, next_adding setPlace_place,
    next_added_none setPlace_place]
  · rfl
  · exact nobody

end Users

end Orcos.Source.Hal

/-! ## Contents of a buffer device

Source: src/source/hal/BufferDevice.cc, `readBytes`, `writeBytes`.

The bytes between the read cursor and the end of the used ones are a queue. Reads take its
front; writes extend it when the write cursor is where the used bytes end.
-/
namespace Orcos.Source.Hal.BufferDevice
open Lib.Ring

variable {τ : Type} {d : BufferDevice τ} {start length : BitVec 32}

theorem toNat_none : (0 : BitVec 32).toNat = 0 := rfl

/-- The number of cells from a position to the end. -/
theorem toNat_rest (inside : start.toNat < d.buffersize.toNat) :
    (d.buffersize - start).toNat = d.buffersize.toNat - start.toNat :=
  BitVec.toNat_sub_of_le (by rw [BitVec.le_def]; omega)

/-- Cursors and lengths inside the buffer are far from the end of a word. -/
structure Small (d : BufferDevice τ) (start length : BitVec 32) : Prop where
  size : d.buffersize.toNat ≤ 4096
  inside : start.toNat < d.buffersize.toNat
  fits : length.toNat ≤ d.buffersize.toNat

theorem Small.wraps_iff (small : Small d start length) :
    start + length ≥ d.buffersize ↔ d.buffersize.toNat ≤ start.toNat + length.toNat := by
  have := small.size
  have := small.inside
  have := small.fits
  rw [ge_iff_le, BitVec.le_def, BitVec.toNat_add]
  omega

/-- What lies behind the end is as much as goes to the front. -/
theorem Small.toNat_front (small : Small d start length)
    (long : d.buffersize.toNat ≤ start.toNat + length.toNat) :
    (length - (d.buffersize - start)).toNat =
      length.toNat - (d.buffersize.toNat - start.toNat) := by
  have rest := toNat_rest small.inside
  have part : d.buffersize - start ≤ length := by
    rw [BitVec.le_def, rest]
    omega
  rw [BitVec.toNat_sub_of_le part, rest]

theorem Small.toNat_advance (small : Small d start length) :
    (d.advance start length).toNat = modulo (start.toNat + length.toNat) d.buffersize.toNat := by
  have := small.size
  have := small.inside
  have := small.fits
  unfold advance modulo
  simp only [small.wraps_iff, ge_iff_le]
  split
  · next long =>
    rw [small.toNat_front long]
    omega
  · rw [BitVec.toNat_add]
    omega

theorem Small.pieces_inside (small : Small d start length) :
    ∀ access ∈ d.pieces start length, access.Inside d.buffersize := by
  have inside := small.inside
  have fits := small.fits
  intro access member
  unfold pieces at member
  simp only [small.wraps_iff] at member
  split at member
  · next long =>
    rcases List.mem_cons.mp member with rfl | second
    · right
      have rest := toNat_rest inside
      dsimp only
      omega
    · rw [List.mem_singleton.mp second]
      right
      have front := small.toNat_front long
      dsimp only
      rw [front, toNat_none]
      omega
  · rw [List.mem_singleton.mp member]
    right
    dsimp only
    omega

/-- Loading the pieces is reading a window. -/
theorem Small.load_pieces (small : Small d start length) (cells : Nat → Byte) :
    (d.pieces start length).flatMap (load cells) =
      window cells d.buffersize.toNat start.toNat length.toNat := by
  unfold pieces
  simp only [small.wraps_iff]
  split
  · next long =>
    rw [window_wrapped small.inside small.fits long]
    simp only [List.flatMap_cons, List.flatMap_nil, List.append_nil, load]
    rw [toNat_rest small.inside, small.toNat_front long, toNat_none]
  · rw [window_straight (by omega)]
    simp only [List.flatMap_cons, List.flatMap_nil, List.append_nil, load]

theorem store_inside {cells bytes : Nat → Byte} {first size : BitVec 32} {i : Nat}
    (behind : first.toNat ≤ i) (before : i < first.toNat + size.toNat) :
    store cells (first, size) bytes i = bytes (i - first.toNat) := if_pos ⟨behind, before⟩

theorem store_outside {cells bytes : Nat → Byte} {first size : BitVec 32} {i : Nat}
    (outside : i < first.toNat ∨ first.toNat + size.toNat ≤ i) :
    store cells (first, size) bytes i = cells i := if_neg (by dsimp only; omega)

/-- Storing the pieces fills a window. -/
theorem Small.storePieces_inside (small : Small d start length) (cells bytes : Nat → Byte)
    {k : Nat} (inWindow : k < length.toNat) :
    storePieces cells (d.pieces start length) bytes
      (modulo (start.toNat + k) d.buffersize.toNat) = bytes k := by
  have inside := small.inside
  have fits := small.fits
  unfold pieces
  simp only [small.wraps_iff]
  split
  · next long =>
    have rest := toNat_rest inside
    have front := small.toNat_front long
    simp only [storePieces]
    unfold modulo
    split
    · next wrapped =>
      rw [store_inside (by rw [toNat_none]; omega) (by rw [front, toNat_none]; omega)]
      rw [toNat_none, rest]
      congr 1
      omega
    · next before =>
      rw [store_outside (by rw [front, toNat_none]; omega),
        store_inside (by omega) (by omega)]
      congr 1
      omega
  · next short =>
    simp only [storePieces]
    rw [modulo, if_neg (by omega), store_inside (by omega) (by omega)]
    congr 1
    omega

/-- And nothing else. -/
theorem Small.storePieces_outside (small : Small d start length) (cells bytes : Nat → Byte)
    {i : Nat} (other : ∀ k < length.toNat, modulo (start.toNat + k) d.buffersize.toNat ≠ i)
    (cell : i < d.buffersize.toNat) :
    storePieces cells (d.pieces start length) bytes i = cells i := by
  have inside := small.inside
  have fits := small.fits
  unfold pieces
  simp only [small.wraps_iff]
  split
  · next long =>
    have rest := toNat_rest inside
    have front := small.toNat_front long
    have before : i < start.toNat := by
      by_contra behind
      refine other (i - start.toNat) (by omega) ?_
      rw [modulo, if_neg (by omega)]
      omega
    have notFront : length.toNat - (d.buffersize.toNat - start.toNat) ≤ i := by
      by_contra inFront
      refine other (d.buffersize.toNat - start.toNat + i) (by omega) ?_
      rw [modulo, if_pos (by omega)]
      omega
    simp only [storePieces]
    rw [store_outside (by rw [front, toNat_none]; omega), store_outside (by omega)]
  · next short =>
    simp only [storePieces]
    refine store_outside ?_
    by_contra both
    rw [not_or, Nat.not_lt, Nat.not_le] at both
    refine other (i - start.toNat) (by omega) ?_
    rw [modulo, if_neg (by omega)]
    omega

/-- The used bytes are a queue. -/
structure Holds (d : BufferDevice τ) (queue : List Byte) : Prop where
  size : d.buffersize.toNat ≤ 4096
  start : d.readPointer.toNat < d.buffersize.toNat
  cursor : d.position.toNat < d.buffersize.toNat
  fits : d.usedBytes.toNat ≤ d.buffersize.toNat
  contents : window d.buffer d.buffersize.toNat d.readPointer.toNat d.usedBytes.toNat = queue

/-- The write cursor is where the used bytes end. -/
def Aligned (d : BufferDevice τ) : Prop :=
  d.position.toNat = modulo (d.readPointer.toNat + d.usedBytes.toNat) d.buffersize.toNat

instance : Decidable d.Aligned := inferInstanceAs (Decidable (_ = _))

variable {queue : List Byte}

theorem Holds.usedBytes_eq (holds : Holds d queue) : d.usedBytes.toNat = queue.length := by
  rw [← holds.contents, window_length]

/-- A read takes the front of the queue. -/
theorem Holds.take (holds : Holds d queue) (part : length.toNat ≤ d.usedBytes.toNat) :
    Holds (d.take length) (queue.drop length.toNat) := by
  have fits := holds.fits
  have small : Small d d.readPointer length := ⟨holds.size, holds.start, by omega⟩
  have used : (d.usedBytes - length).toNat = d.usedBytes.toNat - length.toNat :=
    BitVec.toNat_sub_of_le (by rw [BitVec.le_def]; omega)
  refine ⟨holds.size, ?_, holds.cursor, ?_, ?_⟩
  · change (d.advance _ _).toNat < _
    rw [small.toNat_advance]
    exact modulo_lt holds.start small.fits
  · change (d.usedBytes - length).toNat ≤ d.buffersize.toNat
    omega
  · change window d.buffer d.buffersize.toNat (d.advance _ _).toNat
      (d.usedBytes - length).toNat = _
    rw [small.toNat_advance, used, ← holds.contents, window_drop holds.start fits part]

theorem Holds.copied (holds : Holds d queue) (part : length.toNat ≤ d.usedBytes.toNat) :
    d.copied length = queue.take length.toNat := by
  have fits := holds.fits
  have small : Small d d.readPointer length := ⟨holds.size, holds.start, by omega⟩
  rw [BufferDevice.copied, small.load_pieces, ← holds.contents,
    window_take holds.start fits part]

/-- A write at the end of the used bytes extends the queue. -/
theorem Holds.put (holds : Holds d queue) (bytes : Nat → Byte) (aligned : d.Aligned)
    (room : d.usedBytes.toNat + length.toNat ≤ d.buffersize.toNat) :
    Holds (d.put bytes length) (queue ++ (List.range length.toNat).map bytes) := by
  have size := holds.size
  have start := holds.start
  have small : Small d d.position length := ⟨size, holds.cursor, by omega⟩
  have used : (d.usedBytes + length).toNat = d.usedBytes.toNat + length.toNat := by
    rw [BitVec.toNat_add]
    omega
  refine ⟨size, start, ?_, ?_, ?_⟩
  · change (d.advance _ _).toNat < _
    rw [small.toNat_advance]
    exact modulo_lt holds.cursor small.fits
  · change (d.usedBytes + length).toNat ≤ d.buffersize.toNat
    omega
  · change window (storePieces _ _ _) d.buffersize.toNat d.readPointer.toNat
      (d.usedBytes + length).toNat = _
    rw [used, window_append start room, ← holds.contents, ← aligned]
    congr 1
    · -- the cells of the queue are not those that are stored to
      refine window_congr fun k inQueue => ?_
      refine small.storePieces_outside _ _ (fun i inWindow same => ?_)
        (modulo_lt start (by omega))
      rw [aligned, modulo_add start (by omega), modulo_inj (by omega) (by omega)] at same
      omega
    · exact window_eq_map fun k inWindow => small.storePieces_inside _ _ inWindow

theorem readLength_le : (d.readLength length).toNat ≤ d.usedBytes.toNat := by
  unfold readLength
  split
  · exact Nat.le_refl _
  · next short => exact BitVec.not_lt.mp short

/-- A write that finds room stores all. -/
theorem Holds.writeLength_fits (holds : Holds d queue)
    (room : length.toNat + d.usedBytes.toNat ≤ d.buffersize.toNat) :
    d.writeLength length = length := by
  have size := holds.size
  unfold writeLength
  rw [if_neg]
  rw [gt_iff_lt, BitVec.lt_def, BitVec.toNat_add]
  omega

/-- Of a write to a full buffer nothing is stored, unless the sum of the lengths wraps. -/
theorem Holds.writeLength_full (holds : Holds d queue) (full : d.usedBytes = d.buffersize)
    (plain : length.toNat + d.usedBytes.toNat < 2 ^ 32) : d.writeLength length = 0 := by
  have start := holds.start
  unfold writeLength
  split
  · rw [full, BitVec.sub_self]
    rfl
  · next short =>
    rw [gt_iff_lt, BitVec.lt_def, BitVec.toNat_add, ← full] at short
    apply BitVec.eq_of_toNat_eq
    rw [toNat_none]
    omega

theorem holds_fresh (cells : Nat → Byte) {bufferSize : BitVec 32} (positive : bufferSize ≠ 0) :
    Holds (fresh cells bufferSize : BufferDevice τ) [] := by
  have some_ : 0 < bufferSize.toNat :=
    Nat.pos_of_ne_zero fun none_ => positive (BitVec.eq_of_toNat_eq none_)
  have size : 0 < (fresh cells bufferSize : BufferDevice τ).buffersize.toNat ∧
      (fresh cells bufferSize : BufferDevice τ).buffersize.toNat ≤ 4096 := by
    unfold fresh
    dsimp only
    split
    · decide
    · next fits => exact ⟨some_, BitVec.not_lt.mp fits⟩
  exact ⟨size.2, size.1, size.1, Nat.zero_le _, rfl⟩

end Orcos.Source.Hal.BufferDevice
