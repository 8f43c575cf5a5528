import Orcos.Source.Hal.BufferDevice
import Orcos.Source.UserPointers

/-!
# Memory that the pointer of a task gives access to

Source: src/source/syscalls/syscalls.hh, `VALIDATE_IN_PROCESS`; src/source/syscalls/sc_io.cc,
`sc_fread`, `sc_fwrite`, `sc_fstat`, `sc_getcwd`.

Only the pointer is looked at, and it may be the end of the region. What follows is bounded
by the length that the task gives, except where a directory, a kernel variable, the interrupt
manager, or a device on the SPI or I2C bus is read.
-/
namespace Orcos.Guarantees.TaskPointers
open Source Source.Files Source.Hal

/-- The region of a task. -/
def InRegion (logTaskSpaceStart : BitVec 32) (addr : Nat) : Prop :=
  logTaskSpaceStart.toNat ≤ addr ∧ addr < 0x80000000

/-- The address of a byte behind a pointer. -/
def address (pointer : BitVec 32) (offset : Nat) : Nat := (pointer.toNat + offset) % 2 ^ 32

/-- A call stays in the region of the task, or returns an error and touches nothing. -/
def Contained (logTaskSpaceStart : BitVec 32) (call : PointerCall) : Prop :=
  match call.run logTaskSpaceStart with
  | .error e => isError e = true
  | .ok touches => ∀ t ∈ touches, ∀ k < t.size,
      InRegion logTaskSpaceStart (address call.pointer (t.offset + k))

/-- What is read is none of the devices that do not look at the length, or not in time. -/
def ReadsWithin : Device → Prop
  | .directory _ => False
  | .kernelVariable _ => False
  | .driver (.irq _ _) => False
  | .driver (.spi _) => False
  | .driver (.i2c _) => False
  | _ => True

def KeepsLength : PointerCall → Prop
  | .fread (some res) _ _ => ReadsWithin res.device
  | _ => True

/-- Pieces that end within a length. -/
def Within (touches : List Touch) (length : Nat) : Prop :=
  ∀ t ∈ touches, t.offset + t.size ≤ length

instance (touches : List Touch) (length : Nat) : Decidable (Within touches length) :=
  inferInstanceAs (Decidable (∀ t ∈ touches, _))

variable {touches : List Touch} {length more : Nat} {start : BitVec 32} {call : PointerCall}

theorem within_nil : Within [] length := nofun

theorem within_single {offset size : Nat} (fits : offset + size ≤ length) :
    Within [⟨offset, size⟩] length := by
  intro t member
  rw [List.mem_singleton.mp member]
  exact fits

theorem Within.mono (within : Within touches length) (le : length ≤ more) : Within touches more :=
  fun t member => Nat.le_trans (within t member) le

/-- The loop over the blocks of a file stays within the length. -/
theorem within_copies (b : Blocks) (position pos length : Nat) :
    Within (b.copies position pos length) (pos + length) := by
  induction position, pos, length using Blocks.copies.induct b with
  | case1 position pos length stop =>
    rw [Blocks.copies, if_pos stop]
    exact within_nil
  | case2 position pos length room goesOn short =>
    rw [Blocks.copies, if_neg goesOn, if_pos short]
    exact within_single (Nat.le_refl _)
  | case3 position pos length room goesOn long ih =>
    rw [Blocks.copies, if_neg goesOn, if_neg long]
    have fits : room ≤ length := Nat.le_of_not_lt long
    intro t member
    rcases List.mem_cons.mp member with rfl | later
    · exact Nat.add_le_add_left fits pos
    · split at later
      · cases later
      · have inside := ih t later
        omega

/-- The two pieces for a ring buffer are the length. -/
theorem within_ringTouches {d : BufferDevice Unit} {cursor length : BitVec 32}
    (size : d.buffersize.toNat ≤ 4096) (inside : cursor.toNat < d.buffersize.toNat) :
    Within (ringTouches d cursor length) length.toNat := by
  have rest := BufferDevice.toNat_rest inside
  unfold ringTouches
  split
  · next wraps =>
    have long : (d.buffersize - cursor).toNat ≤ length.toNat := by
      rw [ge_iff_le, BitVec.le_def, BitVec.toNat_add] at wraps
      omega
    have front : (length - (d.buffersize - cursor)).toNat =
        length.toNat - (d.buffersize - cursor).toNat :=
      BitVec.toNat_sub_of_le (BitVec.le_def.mpr long)
    intro t member
    rcases List.mem_cons.mp member with rfl | second
    · dsimp only
      omega
    · rw [List.mem_singleton.mp second]
      dsimp only
      omega
  · exact within_single (Nat.zero_add _).le

theorem readlength_le (file : BlockFile) (count : BitVec 32) :
    (file.readlength count).toNat ≤ count.toNat := by
  unfold BlockFile.readlength
  split
  · next less => exact Nat.le_of_lt less
  · exact Nat.le_refl _

theorem bufferReadLength_le (d : BufferDevice Unit) (count : BitVec 32) :
    (d.readLength count).toNat ≤ count.toNat := by
  unfold BufferDevice.readLength
  split
  · next more => exact Nat.le_of_lt more
  · exact Nat.le_refl _

/-- A write is cut short, or its sum with the used bytes wraps. -/
theorem writeLength_le (q : Fifo) (count : BitVec 32) :
    (q.device.writeLength count).toNat ≤ count.toNat := by
  have size := q.size
  have used := q.usedInside
  unfold BufferDevice.writeLength
  split
  · next more =>
    rw [gt_iff_lt, BitVec.lt_def, BitVec.toNat_add] at more
    rw [BitVec.toNat_sub_of_le (BitVec.le_def.mpr used)]
    omega
  · exact Nat.le_refl _

/-- A line of the page table is stored only where it fits. -/
theorem within_printPages (lines : List Nat) (pos remainingLength : Nat) :
    Within (DeviceDriver.printPages lines pos remainingLength) (pos + remainingLength) := by
  induction lines generalizing pos remainingLength with
  | nil => exact within_nil
  | cons len rest ih =>
    rw [DeviceDriver.printPages]
    split
    · next fits =>
      intro t member
      rcases List.mem_cons.mp member with rfl | later
      · exact Nat.add_le_add_left (Nat.le_of_lt fits) pos
      · have inside := ih (pos + len) (remainingLength - len) t later
        omega
    · exact within_nil

theorem within_driver_readBytes {count : BitVec 32} {d : DeviceDriver}
    (reads : ReadsWithin (.driver d)) :
    Within (d.readBytes count) count.toNat := by
  cases d with
  | uart ready => exact within_single ((Nat.zero_add _).le.trans (Nat.min_le_right _ _))
  | gpio aligned =>
    unfold DeviceDriver.readBytes
    dsimp only
    split
    · exact within_nil
    · next long =>
      rw [not_or, BitVec.not_lt, BitVec.le_def] at long
      exact within_single long.1
  | ioMux =>
    unfold DeviceDriver.readBytes
    dsimp only
    split
    · exact within_nil
    · next four =>
      rw [not_not.mp four]
      exact within_single (Nat.le_refl 4)
  | pages lines =>
    have printed := within_printPages lines 0 count.toInt.toNat
    rw [Nat.zero_add] at printed
    refine printed.mono ?_
    rw [BitVec.toInt_eq_toNat_cond]
    split <;> omega
  | irq _ _ => exact reads.elim
  | spi _ => exact reads.elim
  | i2c _ => exact reads.elim
  | _ => exact within_nil

theorem within_driver_writeBytes {count : BitVec 32} (d : DeviceDriver) :
    Within (d.writeBytes count) count.toNat := by
  -- the first byte is the channel or the address
  have addressed (more : Bool) (long : 2 ≤ count.toNat) :
      Within (⟨0, 1⟩ :: if more then [⟨1, count.toNat - 1⟩] else []) count.toNat := by
    intro t member
    rcases List.mem_cons.mp member with rfl | data
    · dsimp only
      omega
    · split at data
      · rw [List.mem_singleton.mp data]
        dsimp only
        omega
      · cases data
  cases d with
  | uart ready => exact within_single ((Nat.zero_add _).le.trans (Nat.min_le_right _ _))
  | dss => exact within_single (Nat.zero_add _).le
  | gpio aligned =>
    unfold DeviceDriver.writeBytes
    dsimp only
    split
    · exact within_nil
    · next four =>
      rw [not_or, not_not] at four
      rw [four.1]
      exact within_single (Nat.le_refl 4)
  | ioMux =>
    unfold DeviceDriver.writeBytes
    dsimp only
    split
    · exact within_nil
    · next four =>
      rw [not_not.mp four]
      exact within_single (Nat.le_refl 4)
  | bebotLED =>
    unfold DeviceDriver.writeBytes
    dsimp only
    split
    · exact within_nil
    · next fifteen =>
      rw [not_not.mp fifteen]
      exact within_single (Nat.le_refl 15)
  | spi ready =>
    unfold DeviceDriver.writeBytes
    dsimp only
    split
    · exact within_nil
    · next long =>
      rw [BitVec.not_lt, BitVec.le_def] at long
      have touched := addressed (decide (ready ∧ count ≤ 5)) long
      simpa only [decide_eq_true_eq] using touched
  | i2c ready =>
    unfold DeviceDriver.writeBytes
    dsimp only
    split
    · exact within_nil
    · next long =>
      rw [not_or, BitVec.not_lt, BitVec.le_def] at long
      exact addressed ready (Nat.le_of_succ_le long.1)
  | _ => exact within_nil

theorem within_readBytes {count : BitVec 32} (device : Device) (reads : ReadsWithin device) :
    Within (device.readBytes count) count.toNat := by
  cases device with
  | file f =>
    refine (within_copies f.blocks _ 0 _).mono ?_
    rw [Nat.zero_add]
    exact readlength_le f count
  | fifo q =>
    unfold Device.readBytes
    dsimp only
    split
    · exact within_nil
    · exact (within_ringTouches q.size q.readInside).mono (bufferReadLength_le q.device count)
  | directory d => exact reads.elim
  | kernelVariable v => exact reads.elim
  | driver d => exact within_driver_readBytes reads

theorem within_writeBytes {count : BitVec 32} (device : Device) :
    Within (device.writeBytes count) count.toNat := by
  cases device with
  | file f =>
    have copies := within_copies f.blocks f.position.toNat 0 count.toNat
    rw [Nat.zero_add] at copies
    exact copies
  | fifo q =>
    unfold Device.writeBytes
    dsimp only
    split
    · exact within_nil
    · exact (within_ringTouches q.size q.writeInside).mono (writeLength_le q count)
  | directory d => exact within_nil
  | kernelVariable v =>
    unfold Device.writeBytes
    dsimp only
    split
    · exact within_nil
    · next both =>
      rw [not_or, not_not] at both
      rw [both.2]
      exact within_single (Nat.zero_add _).le
  | driver d => exact within_driver_writeBytes d

theorem within_fstat (res : OpenDevice) : Within res.fstat sizeofStat := by
  unfold OpenDevice.fstat
  split
  · decide
  · split
    · decide
    · decide

theorem length_strncpy_le (src : List Files.Byte) (maxChars : Nat) :
    (strncpy src maxChars).length ≤ maxChars := by
  rw [length_strncpy]
  exact Nat.min_le_right _ _

/-- What a call touches that was not refused. -/
theorem within_run (keeps : KeepsLength call) (ran : call.run start = .ok touches) :
    Within touches call.length := by
  unfold PointerCall.run at ran
  split at ran
  · cases ran
  · cases call with
    | fread res buf count =>
      cases res with
      | none => cases ran
      | some res =>
        dsimp only at ran
        split at ran
        · cases ran
          exact within_readBytes res.device keeps
        · cases ran
    | fwrite res buf count =>
      cases res with
      | none => cases ran
      | some res =>
        dsimp only at ran
        split at ran
        · cases ran
          exact within_writeBytes res.device
        · cases ran
    | fstat res stat =>
      cases res with
      | none => cases ran
      | some res =>
        cases ran
        exact within_fstat res
    | getcwd cwd buf buflen =>
      cases ran
      refine within_single ?_
      rw [Nat.zero_add]
      exact length_strncpy_le _ _

/-- A refusal is an error. -/
theorem isError_run {e : ErrorT} (refused : call.run start = .error e) : isError e = true := by
  unfold PointerCall.run at refused
  split at refused
  · cases refused
    rfl
  · split at refused
    · cases refused
      rfl
    · split at refused
      · cases refused
      · cases refused
        rfl
    · cases refused
      rfl
    · split at refused
      · cases refused
      · cases refused
        rfl
    · cases refused
      rfl
    · cases refused
    · cases refused

/-- A file of 100 bytes in blocks of 1024. -/
def plainFile : OpenDevice where
  type := cFile
  device := .file ⟨⟨1024, by decide, fun _ => false, fun _ => false⟩, 100, 0, 0⟩

/-- Less than a block is copied at once. -/
theorem mem_writeBytes_plainFile {count : BitVec 32} {n : Nat} (length : count.toNat = n + 1)
    (short : n + 1 < 1024) : ⟨0, n + 1⟩ ∈ plainFile.device.writeBytes count := by
  change _ ∈ Blocks.copies ⟨1024, _, fun _ => false, fun _ => false⟩ 0 0 count.toNat
  rw [length, Blocks.copies]
  dsimp only
  rw [if_neg (by simp), if_pos short]
  exact List.mem_singleton_self _

/-- A variable of four bytes. -/
def variable_ : OpenDevice where
  type := cFile
  device := .kernelVariable ⟨4, 0, true, false⟩

/-- The interrupt manager. -/
def irqManager : OpenDevice where
  type := cStreamDevice
  device := .driver (.irq true [])

end Orcos.Guarantees.TaskPointers
