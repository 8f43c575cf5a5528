import Orcos.Lib.Loop
import Orcos.Source.Crc32
import Orcos.Source.Alignment

/-!
# The check of a task image

Source: src/source/process/TaskManager.cc, `handleTaskHeader` and
`TaskManager::checkValidTask`; src/source/inc/types.hh, `taskTable` and `taskCRCHeader`.

The image lies in memory from its control block on, the first header right behind the
control block. Words are unsigned as in memory; where the source declares a `long` they
are compared as signed ones. Addresses wrap around.
-/
namespace Orcos.Source.Tasks
open Lib.ByteMemory Lib.Loop

def taskMagicWord : Nat := 0x230f7ae9
def taskCbCrc32 : Nat := 1

/-- What the check depends on in a configuration: `TASK_CRC32`, whether there is a
translation of addresses (`HAS_Board_HatLayerCfd`), `PAGESIZE`, `PLATFORM`, and the bounds
`__KERNELEND` and `__RAM_END`. -/
structure ImageConfig where
  taskCrc32 : Bool
  hatLayer : Bool
  pageSize : Nat
  platform : Nat
  kernelEnd : Nat
  ramEnd : Nat

/-- The fields of a control block that the check reads. -/
structure TaskTable where
  taskMagicWord : Nat
  taskNextHeader : Nat
  platform : Nat
  taskStart : Nat
  taskEntryAddr : Nat
  taskHeapStart : Nat
  taskEnd : Nat
  deriving DecidableEq

structure TaskCRCHeader where
  nextHeader : Nat
  crcStart : Nat
  crcEnd : Nat
  taskCRC32 : Nat

def sizeofTaskTable : Nat := 64
def sizeofTaskCRCHeader : Nat := 16

def taskTableAt (m : Memory) (addr : Nat) : TaskTable where
  taskMagicWord := read32 m addr
  taskNextHeader := read32 m (wordAdd addr 4)
  platform := read32 m (wordAdd addr 8)
  taskStart := read32 m (wordAdd addr 12)
  taskEntryAddr := read32 m (wordAdd addr 16)
  taskHeapStart := read32 m (wordAdd addr 24)
  taskEnd := read32 m (wordAdd addr 28)

def crcHeaderAt (m : Memory) (addr : Nat) : TaskCRCHeader where
  nextHeader := read32 m addr
  crcStart := read32 m (wordAdd addr 4)
  crcEnd := read32 m (wordAdd addr 8)
  taskCRC32 := read32 m (wordAdd addr 12)

/-- A word as a `long`. -/
def asLong (w : Nat) : Int := if w < 2 ^ 31 then w else w - 2 ^ 32

/-- Unsigned; computed only when the start is not above the end. -/
def TaskCRCHeader.crcAreaLen (crcHeader : TaskCRCHeader) : Nat :=
  crcHeader.crcEnd - crcHeader.crcStart

/-- Where the area of a header lies in the current address space. -/
def startAddress (m : Memory) (taskCB : Nat) (crcHeader : TaskCRCHeader) : Nat :=
  wordAdd taskCB (wordSub crcHeader.crcStart (taskTableAt m taskCB).taskStart)

/-- What `handleTaskHeader` leaves: its error code, the two references, and the area it
handed to `crc32`, when it came so far. -/
structure HeaderResult where
  result : ErrorT
  taskHead : Nat
  nextHeader : Nat
  area : Option (Nat × Nat)

section
variable (c : ImageConfig) (m : Memory)

/-- The part of `handleTaskHeader` that `TASK_CRC32` switches on. -/
def handleCrcHeader (taskCB taskHead nextHeader : Nat) (crcHeader : TaskCRCHeader) :
    HeaderResult :=
  if crcHeader.crcEnd < crcHeader.crcStart then ⟨cTaskCRCFailed, taskHead, nextHeader, none⟩
  else if c.hatLayer ∧ crcHeader.crcAreaLen > c.pageSize then
    ⟨cTaskCRCFailed, taskHead, nextHeader, none⟩
  else if (crc32 m (startAddress m taskCB crcHeader) crcHeader.crcAreaLen).toNat ≠
      crcHeader.taskCRC32 then
    ⟨cTaskCRCFailed, taskHead, nextHeader,
      some (startAddress m taskCB crcHeader, crcHeader.crcAreaLen)⟩
  -- `taskHead = crcHeader++` hands back the pointer from before the increment
  else ⟨cOk, taskHead, crcHeader.nextHeader,
    some (startAddress m taskCB crcHeader, crcHeader.crcAreaLen)⟩

def handleTaskHeader (taskCB taskHead nextHeader : Nat) : HeaderResult :=
  if nextHeader = taskCbCrc32 then
    if c.taskCrc32 then handleCrcHeader c m taskCB taskHead nextHeader (crcHeaderAt m taskHead)
    else ⟨cOk, taskHead, nextHeader, none⟩
  else ⟨cInvalidCBHeader, taskHead, nextHeader, none⟩

/-- The start of a loaded task lies in the range of the candidate. The worker task has no
control block. -/
def startsInside (database : List (Option TaskTable)) (taskCB : TaskTable) : Bool :=
  database.any fun task => match task with
    | none => false
    | some tasktable => asLong tasktable.taskStart ≥ asLong taskCB.taskStart &&
      asLong tasktable.taskStart < asLong taskCB.taskEnd

/-- The tests of `checkValidTask` before it looks at the headers. -/
def checkControlBlock (database : List (Option TaskTable)) (taskCB : TaskTable) : ErrorT :=
  if taskCB.taskMagicWord ≠ taskMagicWord then cInvalidCBHeader
  else if asLong taskCB.taskHeapStart ≤ asLong taskCB.taskStart then cInvalidCBHeader
  else if taskCB.platform % 2 ^ 8 ≠ c.platform then cInvalidCBHeader
  else if c.hatLayer then cOk
  else if asLong taskCB.taskHeapStart < asLong c.kernelEnd then cInvalidCBHeader
  else if asLong taskCB.taskHeapStart > asLong c.ramEnd then cInvalidCBHeader
  else if asLong taskCB.taskEntryAddr < asLong c.kernelEnd then cInvalidCBHeader
  else if asLong taskCB.taskEntryAddr > asLong c.ramEnd then cInvalidCBHeader
  else if startsInside database taskCB then cInvalidCBHeader
  else cOk

/-- A round of the loop over the headers, with `taskHeader` and `nextHeader`. -/
def headerRound (taskCB : Nat) (s : Nat × Nat) : Round (Nat × Nat) ErrorT :=
  if s.2 = 0 then .done cOk
  else if isError (handleTaskHeader c m taskCB s.1 s.2).result then
    .done (handleTaskHeader c m taskCB s.1 s.2).result
  else .again ((handleTaskHeader c m taskCB s.1 s.2).taskHead,
    (handleTaskHeader c m taskCB s.1 s.2).nextHeader)

/-- Where the loop begins. -/
def firstHeader (taskCB : Nat) : Nat × Nat :=
  (wordAdd taskCB sizeofTaskTable, (taskTableAt m taskCB).taskNextHeader)

/-- `checkValidTask`, with at most so many rounds of its loop. -/
def checkValidTask (database : List (Option TaskTable)) (taskCB rounds : Nat) : Option ErrorT :=
  if isError (checkControlBlock c database (taskTableAt m taskCB)) then
    some (checkControlBlock c database (taskTableAt m taskCB))
  else loop (headerRound c m taskCB) rounds (firstHeader m taskCB)

end

variable {c : ImageConfig} {m : Memory} {taskCB taskHead nextHeader rounds : Nat}
  {database : List (Option TaskTable)}

/-- The tests before the checksum pass the header. -/
def TaskCRCHeader.Sane (c : ImageConfig) (h : TaskCRCHeader) : Prop :=
  h.crcStart ≤ h.crcEnd ∧ (c.hatLayer = true → h.crcAreaLen ≤ c.pageSize)

instance (h : TaskCRCHeader) : Decidable (h.Sane c) := inferInstanceAs (Decidable (_ ∧ _))

/-- The header at an address holds the checksum of its area. -/
def Verifies (c : ImageConfig) (m : Memory) (taskCB taskHead : Nat) : Prop :=
  (crcHeaderAt m taskHead).Sane c ∧
    (crc32 m (startAddress m taskCB (crcHeaderAt m taskHead))
      (crcHeaderAt m taskHead).crcAreaLen).toNat = (crcHeaderAt m taskHead).taskCRC32

instance : Decidable (Verifies c m taskCB taskHead) := inferInstanceAs (Decidable (_ ∧ _))

theorem handle_unknown (unknown : nextHeader ≠ taskCbCrc32) :
    handleTaskHeader c m taskCB taskHead nextHeader =
      ⟨cInvalidCBHeader, taskHead, nextHeader, none⟩ := if_neg unknown

/-- Without checksums the header is passed over, and the references stay. -/
theorem handle_disabled (disabled : c.taskCrc32 = false) :
    handleTaskHeader c m taskCB taskHead taskCbCrc32 = ⟨cOk, taskHead, taskCbCrc32, none⟩ := by
  rw [handleTaskHeader, if_pos rfl, disabled]
  rfl

theorem handle_enabled (enabled : c.taskCrc32 = true) :
    handleTaskHeader c m taskCB taskHead taskCbCrc32 =
      handleCrcHeader c m taskCB taskHead taskCbCrc32 (crcHeaderAt m taskHead) := by
  rw [handleTaskHeader, if_pos rfl, if_pos enabled]

theorem not_sane_iff {h : TaskCRCHeader} : ¬h.Sane c ↔
    h.crcEnd < h.crcStart ∨ (c.hatLayer = true ∧ h.crcAreaLen > c.pageSize) := by
  unfold TaskCRCHeader.Sane
  rw [not_and_or, Nat.not_le, Classical.not_imp, Nat.not_le]

/-- A header that is not sane is refused before anything is computed. -/
theorem handleCrc_insane {h : TaskCRCHeader} (insane : ¬h.Sane c) :
    handleCrcHeader c m taskCB taskHead nextHeader h =
      ⟨cTaskCRCFailed, taskHead, nextHeader, none⟩ := by
  unfold handleCrcHeader
  split_ifs with disordered large
  · rfl
  · rfl
  all_goals exact absurd (not_sane_iff.mp insane) (not_or.mpr ⟨disordered, large⟩)

theorem handleCrc_sane {h : TaskCRCHeader} (sane : h.Sane c) :
    handleCrcHeader c m taskCB taskHead nextHeader h =
      if (crc32 m (startAddress m taskCB h) h.crcAreaLen).toNat = h.taskCRC32 then
        ⟨cOk, taskHead, h.nextHeader, some (startAddress m taskCB h, h.crcAreaLen)⟩
      else ⟨cTaskCRCFailed, taskHead, nextHeader,
        some (startAddress m taskCB h, h.crcAreaLen)⟩ := by
  have tests := not_or.mp (mt not_sane_iff.mpr (not_not.mpr sane))
  unfold handleCrcHeader
  rw [if_neg tests.1, if_neg tests.2, ite_not]

/-- The type is the only thing that a verified header changes. -/
theorem handle_verified (enabled : c.taskCrc32 = true) (verified : Verifies c m taskCB taskHead) :
    handleTaskHeader c m taskCB taskHead taskCbCrc32 =
      ⟨cOk, taskHead, (crcHeaderAt m taskHead).nextHeader,
        some (startAddress m taskCB (crcHeaderAt m taskHead),
          (crcHeaderAt m taskHead).crcAreaLen)⟩ := by
  rw [handle_enabled enabled, handleCrc_sane verified.1, if_pos verified.2]

theorem handle_refused (enabled : c.taskCrc32 = true) (wrong : ¬Verifies c m taskCB taskHead) :
    (handleTaskHeader c m taskCB taskHead taskCbCrc32).result = cTaskCRCFailed := by
  rw [handle_enabled enabled]
  by_cases sane : (crcHeaderAt m taskHead).Sane c
  · rw [handleCrc_sane sane, if_neg fun equal => wrong ⟨sane, equal⟩]
  · rw [handleCrc_insane sane]

/-- The area handed to `crc32` is the one the header names, when it is sane. -/
theorem handle_area (enabled : c.taskCrc32 = true) :
    (handleTaskHeader c m taskCB taskHead taskCbCrc32).area =
      if (crcHeaderAt m taskHead).Sane c then
        some (startAddress m taskCB (crcHeaderAt m taskHead), (crcHeaderAt m taskHead).crcAreaLen)
      else none := by
  rw [handle_enabled enabled]
  by_cases sane : (crcHeaderAt m taskHead).Sane c
  · rw [handleCrc_sane sane, if_pos sane]
    split <;> rfl
  · rw [handleCrc_insane sane, if_neg sane]

/-- The pointer to the header never moves. -/
theorem handle_taskHead :
    (handleTaskHeader c m taskCB taskHead nextHeader).taskHead = taskHead := by
  unfold handleTaskHeader handleCrcHeader
  split_ifs <;> rfl

end Orcos.Source.Tasks
