import Orcos.Source.Usb.MassStorage

/-!
The commands of
src/source/arch/shared/usb/storage/MassStorageSCSIUSBDeviceDriver.cc against
what the device reads from them.

The length of the data is kept in 16 bits and the number of blocks is written
to the lower of two bytes. Both are lost for the larger counts that are
accepted. A status is returned as a byte, and only a negative result counts as a
failure.
-/
namespace Orcos.Guarantees.BlockCommands
open Orcos.Source Orcos.Source.MassStorage

/-- What a device reads from a command block with a read or a write command. -/
structure Command where
  opcode : BitVec 8
  toHost : Bool
  transferLength : Nat
  blockNum : Nat
  count : Nat
  deriving DecidableEq

/-- The value of a byte of a block. -/
def byteOf (cbw : List (BitVec 8)) (i : Nat) : Nat := (cbw.getD i 0).toNat

/-- The transfer length has its lowest byte first, the numbers of the command
have it last. -/
def decode (cbw : List (BitVec 8)) : Command where
  opcode := cbw.getD 15 0
  toHost := (cbw.getD 12 0).msb
  transferLength := byteOf cbw 8 + 2 ^ 8 * byteOf cbw 9 + 2 ^ 16 * byteOf cbw 10 +
    2 ^ 24 * byteOf cbw 11
  blockNum := 2 ^ 24 * byteOf cbw 17 + 2 ^ 16 * byteOf cbw 18 + 2 ^ 8 * byteOf cbw 19 +
    byteOf cbw 20
  count := 2 ^ 8 * byteOf cbw 22 + byteOf cbw 23

inductive Direction
  | read
  | write
  deriving DecidableEq

/-- `readBlock` or `writeBlock`. -/
def transfer : Direction → BitVec 8 → Nat → Nat → Answers → List BulkMsg × ErrorT
  | .read => readBlock
  | .write => writeBlock

/-- The command for these blocks. -/
def asked (direction : Direction) (blockNum blocks : Nat) : Command :=
  match direction with
  | .read => ⟨scsiRead10, true, 512 * blocks, blockNum, blocks⟩
  | .write => ⟨scsiWrite10, false, 512 * blocks, blockNum, blocks⟩

/-- The data message for these blocks. -/
def dataAsked (direction : Direction) (blocks : Nat) : BulkMsg :=
  match direction with
  | .read => .dataIn (512 * blocks)
  | .write => .dataOut (512 * blocks)

/-- The bytes that the status says were not moved. -/
def residue (answers : Answers) : Nat :=
  (answers.csw 8).toNat + 2 ^ 8 * (answers.csw 9).toNat + 2 ^ 16 * (answers.csw 10).toNat +
    2 ^ 24 * (answers.csw 11).toNat

/-- The status says that the command passed with no data left over. -/
def Passed (answers : Answers) : Prop :=
  answers.signed ∧ answers.csw 12 = 0 ∧ residue answers = 0

instance (answers : Answers) : Decidable (Passed answers) := inferInstanceAs (Decidable (_ ∧ _))

/-- The messages are the ones for these blocks, and success is reported only
when the device does. -/
structure Faithful (direction : Direction) (myLUN : BitVec 8) (blockNum blocks : Nat)
    (answers : Answers) : Prop where
  command : ∀ cbw, .commandBlock cbw ∈ (transfer direction myLUN blockNum blocks answers).1 →
    decode cbw = asked direction blockNum blocks
  data : ∀ message ∈ (transfer direction myLUN blockNum blocks answers).1,
    ∀ length, message = .dataIn length ∨ message = .dataOut length →
      message = dataAsked direction blocks
  success : (transfer direction myLUN blockNum blocks answers).2 = cOk → Passed answers

/-- All messages got through, and the last one is a status. -/
def Completed (answers : Answers) : Prop :=
  0 ≤ answers.cbwSent ∧ 0 ≤ answers.dataMoved ∧ 0 ≤ answers.cswReceived ∧ answers.signed

instance (answers : Answers) : Decidable (Completed answers) := inferInstanceAs (Decidable (_ ∧ _))

/-- Nothing is sent, or the length of the data fits into 16 bits and a status
that is received reports no failure. -/
def Fits (blocks : Nat) (answers : Answers) : Prop :=
  answers.allocated = false ∨ (blocks ≤ 127 ∧ (Completed answers → Passed answers))

section Encoding

variable {n : Nat}

@[simp] theorem toNat_byteAt (n shift : Nat) : (byteAt n shift).toNat = n / 2 ^ shift % 2 ^ 8 := by
  simp [byteAt, Nat.shiftRight_eq_div_pow]

variable {myLUN : BitVec 8} {length blockNum blocks : Nat}

/-- The block that is sent decodes to the length and the number, and to the lower
byte of the count. -/
theorem decode_read (short : length < 2 ^ 32) (word : blockNum < 2 ^ 32) :
    decode (((blockCommand cbwRead10 length blockNum blocks).set 13 myLUN).take 31) =
      ⟨scsiRead10, true, length, blockNum, blocks % 2 ^ 8⟩ := by
  have toHost : usbBulkInFlag.msb = true := by decide
  simp [decode, blockCommand, cbwRead10, byteOf, toHost]
  omega

theorem decode_write (short : length < 2 ^ 32) (word : blockNum < 2 ^ 32) :
    decode (((blockCommand (cbwWrite10.set 15 scsiWrite10) length blockNum blocks).set
      13 myLUN).take 31) = ⟨scsiWrite10, false, length, blockNum, blocks % 2 ^ 8⟩ := by
  have toDevice : usbBulkOutFlag.msb = false := by decide
  simp [decode, blockCommand, cbwWrite10, byteOf, toDevice]
  omega

end Encoding

section Messages

variable {direction : Direction} {myLUN : BitVec 8} {cbw : List (BitVec 8)}
  {length blockNum blocks : Nat} {answers : Answers}

/-- The command block that the request starts from. -/
def template : Direction → List (BitVec 8)
  | .read => cbwRead10
  | .write => cbwWrite10.set 15 scsiWrite10

/-- The length of the data in 16 bits. -/
def dataLength (blocks : Nat) : Nat := (blocks <<< 9) % 2 ^ 16

/-- The block that is sent for these blocks. -/
def command (direction : Direction) (myLUN : BitVec 8) (blockNum blocks : Nat) :
    List (BitVec 8) :=
  ((blockCommand (template direction) (dataLength blocks) blockNum blocks).set 13 myLUN).take 31

/-- The data message that is sent. -/
def dataSent (direction : Direction) (blocks : Nat) : BulkMsg :=
  match direction with
  | .read => .dataIn (dataLength blocks)
  | .write => .dataOut (dataLength blocks)

theorem transfer_eq (direction : Direction) (myLUN : BitVec 8) (blockNum blocks : Nat)
    (answers : Answers) : transfer direction myLUN blockNum blocks answers =
      transferBlocks (template direction) myLUN blockNum blocks answers := by
  cases direction with
  | read => rfl
  | write => rfl

/-- The flag of the block tells the direction. -/
theorem dataSent_eq (direction : Direction) (myLUN : BitVec 8) (blockNum blocks : Nat) :
    (if ((blockCommand (template direction) (dataLength blocks) blockNum blocks).set
        13 myLUN).getD 12 0 >>> 7 = 1 then BulkMsg.dataIn (dataLength blocks)
      else BulkMsg.dataOut (dataLength blocks)) = dataSent direction blocks := by
  cases direction with
  | read => exact if_pos (by decide : usbBulkInFlag >>> 7 = 1)
  | write => exact if_neg (by decide : ¬usbBulkOutFlag >>> 7 = 1)

/-- The messages of a transaction as far as they are sent, and when its result
is not negative. -/
theorem performTransaction_cases (myLUN : BitVec 8) (cbw : List (BitVec 8)) (length : Nat)
    (answers : Answers) :
    ∃ messages error, performTransaction myLUN cbw length answers = (messages, error) ∧
      (0 ≤ error ↔ answers.allocated = true ∧ Completed answers) ∧
      messages <+: [.commandBlock ((cbw.set 13 myLUN).take 31),
        if (cbw.set 13 myLUN).getD 12 0 >>> 7 = 1 then .dataIn length else .dataOut length,
        .commandStatus] ∧
      (messages = [] ↔ answers.allocated = false) := by
  unfold performTransaction Completed
  dsimp only
  by_cases free : answers.allocated = false
  · rw [if_pos free]
    exact ⟨[], cError, rfl, by simp [free, cError], List.nil_prefix, by simp [free]⟩
  · rw [if_neg free]
    by_cases unsent : answers.cbwSent < 0
    · rw [if_pos unsent]
      refine ⟨_, _, rfl, ?_, by simp, by simp [free]⟩
      exact iff_of_false (by decide) fun done => absurd unsent (Int.not_lt.mpr done.2.1)
    · rw [if_neg unsent]
      by_cases stuck : answers.dataMoved < 0
      · rw [if_pos stuck]
        refine ⟨_, _, rfl, ?_, by simp, by simp [free]⟩
        exact iff_of_false (by decide) fun done => absurd stuck (Int.not_lt.mpr done.2.2.1)
      · rw [if_neg stuck]
        by_cases missing : answers.cswReceived < 0
        · rw [if_pos missing]
          refine ⟨_, _, rfl, ?_, by simp, by simp [free]⟩
          exact iff_of_false (by decide) fun done => absurd missing (Int.not_lt.mpr done.2.2.2.1)
        · rw [if_neg missing]
          by_cases signed : answers.signed
          · rw [if_pos signed]
            refine ⟨_, _, rfl, ?_, by simp, by simp [free]⟩
            refine iff_of_true (Int.natCast_nonneg _) ⟨by simpa using free, ?_⟩
            exact ⟨Int.not_lt.mp unsent, Int.not_lt.mp stuck, Int.not_lt.mp missing, signed⟩
          · rw [if_neg signed]
            refine ⟨_, _, rfl, ?_, by simp, by simp [free]⟩
            exact iff_of_false (by decide) fun done => signed done.2.2.2.2

/-- The same for the blocks of a request that is accepted. -/
theorem transfer_cases (direction : Direction) (myLUN : BitVec 8) (blockNum : Nat)
    (accepted : blocks ≤ 256) (answers : Answers) :
    ∃ messages error, transfer direction myLUN blockNum blocks answers = (messages, error) ∧
      (error = cOk ↔ answers.allocated = true ∧ Completed answers) ∧
      messages <+: [.commandBlock (command direction myLUN blockNum blocks),
        dataSent direction blocks, .commandStatus] ∧
      (messages = [] ↔ answers.allocated = false) := by
  obtain ⟨messages, error, performed, result, sent, nothing⟩ := performTransaction_cases myLUN
    (blockCommand (template direction) (dataLength blocks) blockNum blocks) (dataLength blocks)
    answers
  rw [dataSent_eq] at sent
  have request : transfer direction myLUN blockNum blocks answers =
      if error < 0 then (messages, cError) else (messages, cOk) := by
    rw [transfer_eq, transferBlocks, if_neg (Nat.not_lt.mpr accepted)]
    dsimp only
    rw [← dataLength, performed]
  rw [request]
  by_cases failed : error < 0
  · refine ⟨messages, cError, if_pos failed, ?_, sent, nothing⟩
    exact iff_of_false (by decide) fun done => absurd failed (Int.not_lt.mpr (result.mpr done))
  · refine ⟨messages, cOk, if_neg failed, ?_, sent, nothing⟩
    exact iff_of_true rfl (result.mp (Int.not_lt.mp failed))

theorem decode_command (direction : Direction) (myLUN : BitVec 8) (word : blockNum < 2 ^ 32) :
    decode (command direction myLUN blockNum blocks) =
      { asked direction blockNum (blocks % 2 ^ 8) with transferLength := dataLength blocks } := by
  have short : dataLength blocks < 2 ^ 32 :=
    Nat.lt_of_lt_of_le (Nat.mod_lt _ (by decide)) (by decide)
  cases direction with
  | read => exact decode_read short word
  | write => exact decode_write short word

theorem dataLength_eq_iff (accepted : blocks ≤ 256) :
    dataLength blocks = 512 * blocks ↔ blocks ≤ 127 := by
  rw [dataLength, Nat.shiftLeft_eq]
  omega

end Messages

section Requests

variable {direction : Direction} {myLUN : BitVec 8} {blockNum blocks : Nat} {answers : Answers}

theorem fits_of_faithful (word : blockNum < 2 ^ 32) (accepted : blocks ≤ 256)
    (faithful : Faithful direction myLUN blockNum blocks answers) : Fits blocks answers := by
  obtain ⟨messages, error, request, result, sent, nothing⟩ :=
    transfer_cases direction myLUN blockNum accepted answers
  have commands := faithful.command
  have success := faithful.success
  rw [request] at commands success
  apply or_iff_not_imp_left.mpr
  intro allocated
  cases messages with
  | nil => exact absurd (nothing.mp rfl) allocated
  | cons first rest =>
    obtain ⟨same, _⟩ := List.cons_prefix_cons.mp sent
    have decoded := commands (command direction myLUN blockNum blocks) (by rw [same]; exact .head _)
    rw [decode_command direction myLUN word] at decoded
    have length := congrArg Command.transferLength decoded
    constructor
    · apply (dataLength_eq_iff accepted).mp
      cases direction with
      | read => exact length
      | write => exact length
    · intro completed
      exact success (result.mpr ⟨by simpa using allocated, completed⟩)

theorem faithful_of_fits (word : blockNum < 2 ^ 32) (accepted : blocks ≤ 256)
    (fits : Fits blocks answers) : Faithful direction myLUN blockNum blocks answers := by
  obtain ⟨messages, error, request, result, sent, nothing⟩ :=
    transfer_cases direction myLUN blockNum accepted answers
  cases fits with
  | inl free =>
    have none := nothing.mpr free
    constructor
    · intro cbw member
      rw [request, none] at member
      cases member
    · intro message member
      rw [request, none] at member
      cases member
    · intro fine
      rw [request] at fine
      exact absurd ((result.mp fine).1.symm.trans free) (by decide)
  | inr fits =>
    have length := (dataLength_eq_iff accepted).mpr fits.1
    have places : ∀ message ∈ messages,
        message = .commandBlock (command direction myLUN blockNum blocks) ∨
          message = dataSent direction blocks ∨ message = .commandStatus := by
      intro message member
      simpa using sent.subset member
    constructor
    · intro cbw member
      rw [request] at member
      have same : cbw = command direction myLUN blockNum blocks := by
        cases places _ member with
        | inl here => exact BulkMsg.commandBlock.inj here
        | inr other =>
          cases direction with
          | read => simp [dataSent] at other
          | write => simp [dataSent] at other
      rw [same, decode_command direction myLUN word, length, Nat.mod_eq_of_lt (by omega)]
      cases direction with
      | read => rfl
      | write => rfl
    · intro message member n data
      rw [request] at member
      cases places message member with
      | inl here =>
        rw [here] at data
        simp at data
      | inr other =>
        cases other with
        | inl moved =>
          rw [moved]
          cases direction with
          | read => rw [dataSent, dataAsked, length]
          | write => rw [dataSent, dataAsked, length]
        | inr last =>
          rw [last] at data
          simp at data
    · intro fine
      rw [request] at fine
      exact fits.2 (result.mp fine).2

/-- The requests for blocks do what is asked exactly when the length of the data
fits and the device reports no failure. -/
theorem faithful_iff_fits (direction : Direction) (myLUN : BitVec 8) (blockNum blocks : Nat)
    (answers : Answers) (word : blockNum < 2 ^ 32) (accepted : blocks ≤ 256) :
    Faithful direction myLUN blockNum blocks answers ↔ Fits blocks answers :=
  ⟨fits_of_faithful word accepted, faithful_of_fits word accepted⟩

/-- Every message gets through, and the device answers with this status and a
residue of this many bytes. -/
def answering (status residue : BitVec 8) : Answers where
  allocated := true
  cbwSent := 31
  dataMoved := 512
  cswReceived := 13
  csw i := [0x55, 0x53, 0x42, 0x53, 0, 0, 0, 0, residue, 0, 0, 0, status].getD i 0

theorem faithful_iff_fits_one :
    Faithful .read 0 1000 1 (answering 0 0) ↔ Fits 1 (answering 0 0) :=
  faithful_iff_fits .read 0 1000 1 (answering 0 0) (by decide) (by decide)

/-- Of 128 blocks none are asked for, and a command that failed is reported as a
success. -/
theorem requests_unfaithful : ¬Faithful .read 0 1000 128 (answering 0 0) ∧
    ¬Faithful .write 0 1000 1 (answering 1 0) ∧ ¬Faithful .read 0 1000 1 (answering 0 12) := by
  apply And.intro
  · intro faithful
    cases fits_of_faithful (by decide) (by decide) faithful with
    | inl free => cases free
    | inr fits => exact absurd fits.1 (by decide)
  apply And.intro
  · intro faithful
    cases fits_of_faithful (by decide) (by decide) faithful with
    | inl free => cases free
    | inr fits => exact absurd (fits.2 (by decide)) (by decide)
  · intro faithful
    cases fits_of_faithful (by decide) (by decide) faithful with
    | inl free => cases free
    | inr fits => exact absurd (fits.2 (by decide)) (by decide)

end Requests

end Orcos.Guarantees.BlockCommands
