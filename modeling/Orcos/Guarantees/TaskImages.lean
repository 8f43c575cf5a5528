import Mathlib.Tactic.SplitIfs
import Orcos.Lib.Runs
import Orcos.Source.Tasks.Images

/-!
# The ranges of loaded tasks

Source: src/source/process/TaskManager.cc, `TaskManager::checkValidTask`, `initialize` and
`removeTask`, without an address translation.

The check looks for loaded tasks that start in the range of the candidate. It misses one
that starts before the candidate and reaches into its range, and every one when the range
contains the address `2^31`, since the comparisons are signed.
-/
namespace Orcos.Guarantees.TaskRanges
open Lib.ByteMemory Lib.Loop Lib.Runs Source Source.Tasks

/-- The address lies between the task's start and its end. -/
def Occupies (t : TaskTable) (x : Nat) : Prop := t.taskStart ≤ x ∧ x < t.taskEnd

def Overlap (t t' : TaskTable) : Prop := ∃ x, Occupies t x ∧ Occupies t' x

/-- The loaded tasks that have a control block. -/
def loaded (database : List (Option TaskTable)) : List TaskTable := database.filterMap id

/-- The ranges of loaded tasks, pairwise. -/
def Disjoint (database : List (Option TaskTable)) : Prop :=
  (loaded database).Pairwise fun t t' => ¬Overlap t t'

/-- The bounds are words. -/
def Bounded (t : TaskTable) : Prop := t.taskStart < 2 ^ 32 ∧ t.taskEnd < 2 ^ 32

/-- The candidate does not start within the loaded task's range behind its start, nor does
it reach over `2^31` with the loaded task starting in it. -/
def Clear (t candidate : TaskTable) : Prop :=
  ¬(t.taskStart < candidate.taskStart ∧ candidate.taskStart < t.taskEnd ∧
    candidate.taskStart < candidate.taskEnd) ∧
  ¬(candidate.taskStart < 2 ^ 31 ∧ 2 ^ 31 ≤ candidate.taskEnd ∧
    candidate.taskStart ≤ t.taskStart ∧ t.taskStart < candidate.taskEnd ∧
    t.taskStart < t.taskEnd)

inductive ImageOp
  | load (m : Memory) (taskCB rounds : Nat)
  | remove (task : Nat)

/-- `initialize` adds a task whose image passes the check, `removeTask` takes one out. -/
def step (c : ImageConfig) (database : List (Option TaskTable)) :
    ImageOp → List (Option TaskTable)
  | .load m taskCB rounds =>
    if checkValidTask c m database taskCB rounds = some cOk then
      database ++ [some (taskTableAt m taskCB)]
    else database
  | .remove task => database.eraseIdx task

/-- The candidate of a load is clear of every loaded task. -/
def Fits (database : List (Option TaskTable)) : ImageOp → Prop
  | .load m taskCB _ => ∀ t ∈ loaded database, Clear t (taskTableAt m taskCB)
  | .remove _ => True

instance (t candidate : TaskTable) : Decidable (Clear t candidate) :=
  inferInstanceAs (Decidable (_ ∧ _))

instance (database : List (Option TaskTable)) : ∀ op, Decidable (Fits database op)
  | .load m taskCB _ => inferInstanceAs (Decidable (∀ t ∈ loaded database,
      Clear t (taskTableAt m taskCB)))
  | .remove _ => .isTrue trivial

variable {c : ImageConfig} {m : Memory} {taskCB rounds : Nat} {t t' : TaskTable}
  {database : List (Option TaskTable)}

theorem bounded_taskTableAt (m : Memory) (taskCB : Nat) : Bounded (taskTableAt m taskCB) :=
  ⟨read32_lt m (wordAdd taskCB 12), read32_lt m (wordAdd taskCB 28)⟩

theorem overlap_iff : Overlap t t' ↔ t.taskStart < t.taskEnd ∧ t'.taskStart < t'.taskEnd ∧
    t.taskStart < t'.taskEnd ∧ t'.taskStart < t.taskEnd := by
  unfold Overlap Occupies
  constructor
  · rintro ⟨x, low, high⟩
    omega
  · intro bounds
    by_cases before : t.taskStart ≤ t'.taskStart
    · exact ⟨t'.taskStart, by omega, by omega⟩
    · exact ⟨t.taskStart, by omega, by omega⟩

/-- The loaded task that an overlap is noticed by. -/
def Noticed (t candidate : TaskTable) : Prop :=
  asLong t.taskStart ≥ asLong candidate.taskStart ∧ asLong t.taskStart < asLong candidate.taskEnd

/-- An overlap with a loaded task is noticed exactly when the candidate is clear of it. -/
theorem noticed_iff (bounded : Bounded t) (bounded' : Bounded t') :
    (Overlap t t' → Noticed t t') ↔ Clear t t' := by
  obtain ⟨low, high⟩ := bounded
  obtain ⟨low', high'⟩ := bounded'
  rw [overlap_iff]
  unfold Noticed Clear asLong
  split_ifs <;> omega

theorem startsInside_iff : startsInside database t' = true ↔
    ∃ t ∈ loaded database, Noticed t t' := by
  unfold startsInside loaded Noticed
  rw [List.any_eq_true]
  constructor
  · rintro ⟨task, member, inside⟩
    cases task with
    | none => cases inside
    | some t =>
      simp only [Bool.and_eq_true, decide_eq_true_eq] at inside
      exact ⟨t, List.mem_filterMap.mpr ⟨some t, member, rfl⟩, inside⟩
  · rintro ⟨t, member, inside⟩
    obtain ⟨task, listed, rfl⟩ := List.mem_filterMap.mp member
    refine ⟨some t, listed, ?_⟩
    simpa only [Bool.and_eq_true, decide_eq_true_eq] using inside

/-- Without a translation a candidate that contains the start of a loaded task fails. -/
theorem check_inside (physical : c.hatLayer = false)
    (inside : startsInside database (taskTableAt m taskCB) = true) :
    checkValidTask c m database taskCB rounds = some cInvalidCBHeader := by
  have failed : checkControlBlock c database (taskTableAt m taskCB) = cInvalidCBHeader := by
    unfold checkControlBlock
    rw [physical, inside]
    split_ifs <;> first | rfl | contradiction
  rw [checkValidTask, failed]
  rfl

/-- The check refuses every clear candidate that overlaps a loaded task. -/
theorem check_overlap (physical : c.hatLayer = false)
    (bounded : ∀ t ∈ loaded database, Bounded t)
    (clear : ∀ t ∈ loaded database, Clear t (taskTableAt m taskCB))
    (member : t ∈ loaded database) (overlap : Overlap t (taskTableAt m taskCB)) :
    checkValidTask c m database taskCB rounds = some cInvalidCBHeader := by
  apply check_inside physical
  apply startsInside_iff.mpr
  exact ⟨t, member, (noticed_iff (bounded t member) (bounded_taskTableAt m taskCB)).mpr
    (clear t member) overlap⟩

theorem loaded_append (database : List (Option TaskTable)) (t : TaskTable) :
    loaded (database ++ [some t]) = loaded database ++ [t] := by
  simp [loaded]

theorem loaded_eraseIdx (database : List (Option TaskTable)) (i : Nat) :
    List.Sublist (loaded (database.eraseIdx i)) (loaded database) :=
  (List.eraseIdx_sublist database i).filterMap id

/-- Loaded tasks have bounds that are words, and no two of them overlap. -/
structure Apart (database : List (Option TaskTable)) : Prop where
  bounded : ∀ t ∈ loaded database, Bounded t
  disjoint : Disjoint database

theorem Apart.step (physical : c.hatLayer = false) (apart : Apart database) (op : ImageOp)
    (fits : Fits database op) : Apart (step c database op) := by
  cases op with
  | remove task =>
    have part := loaded_eraseIdx database task
    exact ⟨fun t member => apart.bounded t (part.subset member), apart.disjoint.sublist part⟩
  | load m taskCB rounds =>
    change Apart (if checkValidTask c m database taskCB rounds = some cOk then
      database ++ [some (taskTableAt m taskCB)] else database)
    split_ifs with accepted
    case neg => exact apart
    constructor
    · intro t member
      rw [loaded_append] at member
      rcases List.mem_append.mp member with old | new
      · exact apart.bounded t old
      · rw [List.mem_singleton.mp new]
        exact bounded_taskTableAt m taskCB
    · unfold Disjoint
      rw [loaded_append, List.pairwise_append]
      refine ⟨apart.disjoint, by simp, fun t old t' new overlap => ?_⟩
      rw [List.mem_singleton.mp new] at overlap
      have refused : checkValidTask c m database taskCB rounds = some cInvalidCBHeader :=
        check_overlap physical apart.bounded fits old overlap
      rw [accepted] at refused
      cases refused

def physicalConfig : ImageConfig := ⟨true, false, 0, 1, 0x1000, 0x9000⟩

/-- An image up to the given end, and another one from 64 bytes behind its start on. -/
def twoImages (firstEnd : Nat) : Memory := wordsAt 0x1000
  [0x230f7ae9, 0, 1, 0x1000, 0x1030, 0, 0x1020, firstEnd, 0, 0, 0, 0, 0, 0, 0, 0,
    0x230f7ae9, 0, 1, 0x1040, 0x1070, 0, 0x1060, 0x1100]

def loadBoth (m : Memory) : List ImageOp := [.load m 0x1000 1, .load m 0x1040 1]

end Orcos.Guarantees.TaskRanges

/-! ## What the check of a task image does

Source: src/source/process/TaskManager.cc, `handleTaskHeader` and
`TaskManager::checkValidTask`.

The walk over the headers never moves its pointer, and without `TASK_CRC32` not even the
type: it goes through the chain of an image only when the chain ends at its first header.
The area of a checksum is not compared with the bounds of the image.
-/
namespace Orcos.Guarantees.TaskImages
open Lib.ByteMemory Lib.Loop Source Source.Tasks

variable {c : ImageConfig} {m : Memory} {taskCB : Nat} {database : List (Option TaskTable)}
  {s s' : Nat × Nat} {r : ErrorT}

/-! ## The chain of headers -/

/-- A round that goes on to the header that follows, with the type the header names. -/
def followingRound (c : ImageConfig) (m : Memory) (taskCB : Nat) (s : Nat × Nat) :
    Round (Nat × Nat) ErrorT :=
  if s.2 = 0 then .done cOk
  else if isError (handleTaskHeader c m taskCB s.1 s.2).result then
    .done (handleTaskHeader c m taskCB s.1 s.2).result
  else .again (wordAdd s.1 sizeofTaskCRCHeader, (crcHeaderAt m s.1).nextHeader)

/-- The headers among the states of a walk: at its end there is none. -/
def headers (states : List (Nat × Nat)) : List (Nat × Nat) := states.filter fun s => s.2 ≠ 0

/-- The check ends. When the control block passes, it has examined the headers of the
chain, each once and in their order, up to the first one refused. -/
def ExaminesChain (c : ImageConfig) (m : Memory) (database : List (Option TaskTable))
    (taskCB : Nat) : Prop :=
  ∃ rounds r, checkValidTask c m database taskCB rounds = some r ∧
    (checkControlBlock c database (taskTableAt m taskCB) = cOk →
      ∃ states chain, Visits (headerRound c m taskCB) (firstHeader m taskCB) states r ∧
        Visits (followingRound c m taskCB) (firstHeader m taskCB) chain r ∧
        headers states = headers chain ∧ (headers states).Nodup)

/-- There is no checksum header, or it is refused, or no header follows it. -/
def EndsAtFirst (c : ImageConfig) (m : Memory) (taskCB : Nat) : Prop :=
  (firstHeader m taskCB).2 = taskCbCrc32 →
    c.taskCrc32 = true ∧ (Verifies c m taskCB (firstHeader m taskCB).1 →
      (crcHeaderAt m (firstHeader m taskCB).1).nextHeader = 0)

theorem isError_crcFailed : isError cTaskCRCFailed = true := by decide

theorem isError_invalidHeader : isError cInvalidCBHeader = true := by decide

theorem checkControlBlock_cases (c : ImageConfig) (database : List (Option TaskTable))
    (t : TaskTable) :
    checkControlBlock c database t = cOk ∨ checkControlBlock c database t = cInvalidCBHeader := by
  unfold checkControlBlock
  split_ifs <;> simp

/-- The loop is entered exactly when the control block passes. -/
theorem check_passed (passed : checkControlBlock c database (taskTableAt m taskCB) = cOk)
    (rounds : Nat) : checkValidTask c m database taskCB rounds =
      loop (headerRound c m taskCB) rounds (firstHeader m taskCB) := by
  rw [checkValidTask, passed]
  rfl

theorem round_end (last : s.2 = 0) : headerRound c m taskCB s = .done cOk := if_pos last

theorem following_end (last : s.2 = 0) : followingRound c m taskCB s = .done cOk := if_pos last

/-- A header with an error ends both walks. -/
theorem round_refused (some_ : s.2 ≠ 0)
    (refused : isError (handleTaskHeader c m taskCB s.1 s.2).result = true) :
    headerRound c m taskCB s = .done (handleTaskHeader c m taskCB s.1 s.2).result ∧
      followingRound c m taskCB s = .done (handleTaskHeader c m taskCB s.1 s.2).result := by
  unfold headerRound followingRound
  constructor
  · rw [if_neg some_, if_pos refused]
  · rw [if_neg some_, if_pos refused]

theorem round_accepted (some_ : s.2 ≠ 0)
    (accepted : isError (handleTaskHeader c m taskCB s.1 s.2).result = false) :
    headerRound c m taskCB s = .again (s.1, (handleTaskHeader c m taskCB s.1 s.2).nextHeader) ∧
      followingRound c m taskCB s =
        .again (wordAdd s.1 sizeofTaskCRCHeader, (crcHeaderAt m s.1).nextHeader) := by
  unfold headerRound followingRound
  constructor
  · rw [if_neg some_, accepted, handle_taskHead]
    rfl
  · rw [if_neg some_, accepted]
    rfl

/-- Both walks see the same when their first state ends them. -/
theorem examines_of_done (passed : checkControlBlock c database (taskTableAt m taskCB) = cOk)
    (ended : headerRound c m taskCB (firstHeader m taskCB) = .done r)
    (ended' : followingRound c m taskCB (firstHeader m taskCB) = .done r) :
    ExaminesChain c m database taskCB := by
  refine ⟨1, r, ?_, fun _ => ⟨_, _, .done ended, .done ended', rfl, ?_⟩⟩
  · rw [check_passed passed]
    exact loop_done ended
  · exact (Visits.done ended).nodup.filter _

/-- One header, which the walk passes over, and none behind it. -/
theorem examines_of_single (passed : checkControlBlock c database (taskTableAt m taskCB) = cOk)
    (some_ : (firstHeader m taskCB).2 ≠ 0) {head head' : Nat}
    (again_ : headerRound c m taskCB (firstHeader m taskCB) = .again (head, 0))
    (again' : followingRound c m taskCB (firstHeader m taskCB) = .again (head', 0)) :
    ExaminesChain c m database taskCB := by
  have walk : Visits (headerRound c m taskCB) (firstHeader m taskCB) _ cOk :=
    .again again_ (.done (round_end rfl))
  have chain : Visits (followingRound c m taskCB) (firstHeader m taskCB) _ cOk :=
    .again again' (.done (following_end rfl))
  have once : headers [firstHeader m taskCB, (head, 0)] = [firstHeader m taskCB] := by
    simp [headers, some_]
  have once' : headers [firstHeader m taskCB, (head', 0)] = [firstHeader m taskCB] := by
    simp [headers, some_]
  obtain ⟨rounds, ended⟩ := exists_loop_iff.mpr ⟨_, walk⟩
  refine ⟨rounds, cOk, (check_passed passed rounds).trans ended, fun _ =>
    ⟨_, _, walk, chain, once.trans once'.symm, ?_⟩⟩
  rw [once]
  simp

/-- The verdict of the control block alone. -/
theorem examines_of_refused (refused : checkControlBlock c database (taskTableAt m taskCB) ≠ cOk) :
    ExaminesChain c m database taskCB := by
  have error := (checkControlBlock_cases c database (taskTableAt m taskCB)).resolve_left refused
  refine ⟨0, cInvalidCBHeader, ?_, fun passed => absurd passed refused⟩
  rw [checkValidTask, error]
  rfl

/-- A header that leaves its own type behind is examined for ever. -/
theorem loop_stuck (some_ : s.2 ≠ 0)
    (accepted : isError (handleTaskHeader c m taskCB s.1 s.2).result = false)
    (same : (handleTaskHeader c m taskCB s.1 s.2).nextHeader = s.2) (rounds : Nat) :
    loop (headerRound c m taskCB) rounds s = none := by
  have stays : ∀ t, t = s → ∃ s', headerRound c m taskCB t = .again s' ∧ s' = s := by
    intro t equal
    refine ⟨s, ?_, rfl⟩
    subst equal
    rw [(round_accepted some_ accepted).1, same]
  exact loop_never stays rfl

theorem not_examines_of_stuck
    (passed : checkControlBlock c database (taskTableAt m taskCB) = cOk)
    (stuck : ∀ rounds, loop (headerRound c m taskCB) rounds (firstHeader m taskCB) = none) :
    ¬ExaminesChain c m database taskCB := by
  rintro ⟨rounds, r, ended, -⟩
  rw [check_passed passed, stuck rounds] at ended
  cases ended

theorem wordAdd_ne (a : Nat) {n : Nat} (positive : n % 2 ^ 32 ≠ 0) : wordAdd a n ≠ a := by
  unfold wordAdd
  omega

/-- A second header is looked for at the place of the first one. -/
theorem not_examines_of_second
    (passed : checkControlBlock c database (taskTableAt m taskCB) = cOk)
    (some_ : (firstHeader m taskCB).2 ≠ 0) {nextHeader head : Nat}
    (again_ : headerRound c m taskCB (firstHeader m taskCB) =
      .again ((firstHeader m taskCB).1, nextHeader))
    (again' : followingRound c m taskCB (firstHeader m taskCB) = .again (head, nextHeader))
    (second : nextHeader ≠ 0) (moved : head ≠ (firstHeader m taskCB).1) :
    ¬ExaminesChain c m database taskCB := by
  rintro ⟨rounds, r, -, examined⟩
  obtain ⟨states, chain, walk, intended, same, -⟩ := examined passed
  obtain ⟨later, rfl⟩ := walk.rest again_
  obtain ⟨later', rfl⟩ := intended.rest again'
  simp only [headers, List.filter_cons, some_, second, ne_eq, not_false_eq_true, decide_true,
    if_true] at same
  injection same with _ same
  injection same with same _
  exact moved (congrArg Prod.fst same).symm

section
variable (passed : checkControlBlock c database (taskTableAt m taskCB) = cOk)
include passed

theorem examines_without (other : (firstHeader m taskCB).2 ≠ taskCbCrc32) :
    ExaminesChain c m database taskCB := by
  by_cases none_ : (firstHeader m taskCB).2 = 0
  · exact examines_of_done passed (round_end none_) (following_end none_)
  · have refused : isError (handleTaskHeader c m taskCB (firstHeader m taskCB).1
        (firstHeader m taskCB).2).result = true := by
      rw [handle_unknown other]
      exact isError_invalidHeader
    have rounds := round_refused none_ refused
    exact examines_of_done passed rounds.1 rounds.2

variable (first : (firstHeader m taskCB).2 = taskCbCrc32)
include first

theorem not_examines_disabled (disabled : c.taskCrc32 = false) :
    ¬ExaminesChain c m database taskCB := by
  have some_ : (firstHeader m taskCB).2 ≠ 0 := first ▸ (by decide : taskCbCrc32 ≠ 0)
  have step : handleTaskHeader c m taskCB (firstHeader m taskCB).1 (firstHeader m taskCB).2 =
      ⟨cOk, (firstHeader m taskCB).1, (firstHeader m taskCB).2, none⟩ := by
    rw [first]
    exact handle_disabled disabled
  refine not_examines_of_stuck passed (loop_stuck some_ ?_ ?_)
  · rw [step]
    rfl
  · rw [step]

theorem examines_refused (enabled : c.taskCrc32 = true)
    (wrong : ¬Verifies c m taskCB (firstHeader m taskCB).1) :
    ExaminesChain c m database taskCB := by
  have some_ : (firstHeader m taskCB).2 ≠ 0 := first ▸ (by decide : taskCbCrc32 ≠ 0)
  have refused : isError (handleTaskHeader c m taskCB (firstHeader m taskCB).1
      (firstHeader m taskCB).2).result = true := by
    rw [first, handle_refused enabled wrong]
    exact isError_crcFailed
  have rounds := round_refused some_ refused
  exact examines_of_done passed rounds.1 rounds.2

theorem examines_verified (enabled : c.taskCrc32 = true)
    (verified : Verifies c m taskCB (firstHeader m taskCB).1) :
    ExaminesChain c m database taskCB ↔
      (crcHeaderAt m (firstHeader m taskCB).1).nextHeader = 0 := by
  have some_ : (firstHeader m taskCB).2 ≠ 0 := first ▸ (by decide : taskCbCrc32 ≠ 0)
  have step := handle_verified enabled verified
  rw [← first] at step
  have accepted : isError (handleTaskHeader c m taskCB (firstHeader m taskCB).1
      (firstHeader m taskCB).2).result = false := by
    rw [step]
    rfl
  have rounds := round_accepted some_ accepted
  rw [step] at rounds
  by_cases last : (crcHeaderAt m (firstHeader m taskCB).1).nextHeader = 0
  · rw [last] at rounds
    exact iff_of_true (examines_of_single passed some_ rounds.1 rounds.2) last
  · exact iff_of_false (not_examines_of_second passed some_ rounds.1 rounds.2 last
      (wordAdd_ne _ (by decide))) last

end

/-- A configuration with an address translation, with or without checksums. -/
def translated (taskCrc32 : Bool) : ImageConfig := ⟨taskCrc32, true, 0x100000, 1, 0, 0⟩

/-- An image of 160 bytes with two checksum headers, the first one over an empty area. -/
def twoHeaders : Memory := wordsAt 0x10000000 [0x230f7ae9, 1, 1, 0x10000000, 0x10000064, 0,
  0x10000080, 0x100000a0, 0, 0, 0, 0, 0, 0, 0, 0, 1, 0x10000000, 0x10000000, 0,
  0, 0x10000000, 0x10000000, 0]

/-- The check of an image with two headers does not end, with checksums and without. -/
theorem twoHeaders_stuck (taskCrc32 : Bool) (rounds : Nat) :
    checkValidTask (translated taskCrc32) twoHeaders [] 0x10000000 rounds = none := by
  cases taskCrc32
  · exact (check_passed (by decide) rounds).trans
      (loop_stuck (by decide) (by decide) (by decide) rounds)
  · exact (check_passed (by decide) rounds).trans
      (loop_stuck (by decide) (by decide) (by decide) rounds)

/-- The byte at the address is one of the image's: it has a logical address between the
task's start and its end. -/
def InImage (m : Memory) (taskCB a : Nat) : Prop :=
  ∃ x, (taskTableAt m taskCB).taskStart ≤ x ∧ x < (taskTableAt m taskCB).taskEnd ∧
    a = wordAdd taskCB (wordSub x (taskTableAt m taskCB).taskStart)

/-- In the check of an image every byte that goes into a checksum is one of the image's. -/
def AreasInside (c : ImageConfig) (m : Memory) (database : List (Option TaskTable))
    (taskCB : Nat) : Prop :=
  checkControlBlock c database (taskTableAt m taskCB) = cOk →
    ∀ rounds s start len, Rounds (headerRound c m taskCB) rounds (firstHeader m taskCB) s →
      (handleTaskHeader c m taskCB s.1 s.2).area = some (start, len) →
      ∀ i < len, InImage m taskCB (wordAdd start i)

/-- The area between the header's bounds has no byte, or lies between the bounds of the
task. -/
def AreaBounded (t : TaskTable) (h : TaskCRCHeader) : Prop :=
  h.crcStart = h.crcEnd ∨ (t.taskStart ≤ h.crcStart ∧ h.crcEnd ≤ t.taskEnd)

theorem rounds_head {rounds : Nat} (run : Rounds (headerRound c m taskCB) rounds s s') :
    s'.1 = s.1 := by
  induction run with
  | none s => rfl
  | more step rest ih =>
    rw [ih]
    unfold headerRound at step
    split_ifs at step
    cases step
    exact handle_taskHead

/-- An area is only handed over for a checksum header, and it is the header's own. -/
theorem area_eq {taskHead nextHeader start len : Nat}
    (computed : (handleTaskHeader c m taskCB taskHead nextHeader).area = some (start, len)) :
    nextHeader = taskCbCrc32 ∧ c.taskCrc32 = true ∧ (crcHeaderAt m taskHead).Sane c ∧
      start = startAddress m taskCB (crcHeaderAt m taskHead) ∧
      len = (crcHeaderAt m taskHead).crcAreaLen := by
  by_cases type : nextHeader = taskCbCrc32
  case neg =>
    rw [handle_unknown type] at computed
    cases computed
  subst type
  cases enabled : c.taskCrc32 with
  | false =>
    rw [handle_disabled enabled] at computed
    cases computed
  | true =>
    rw [handle_area enabled] at computed
    split_ifs at computed with sane
    cases computed
    exact ⟨rfl, rfl, sane, rfl, rfl⟩

/-- The byte at an offset of the area is the image's byte of that logical address. -/
theorem wordAdd_startAddress (m : Memory) (taskCB : Nat) (h : TaskCRCHeader) (i : Nat) :
    wordAdd (startAddress m taskCB h) i =
      wordAdd taskCB (wordSub (h.crcStart + i) (taskTableAt m taskCB).taskStart) := by
  have small := read32_lt m (wordAdd taskCB 12)
  unfold startAddress wordAdd wordSub
  change (taskTableAt m taskCB).taskStart < 2 ^ 32 at small
  omega

theorem inImage_iff {x : Nat} (small : x < 2 ^ 32) :
    InImage m taskCB (wordAdd taskCB (wordSub x (taskTableAt m taskCB).taskStart)) ↔
      (taskTableAt m taskCB).taskStart ≤ x ∧ x < (taskTableAt m taskCB).taskEnd := by
  have start : (taskTableAt m taskCB).taskStart < 2 ^ 32 := read32_lt m (wordAdd taskCB 12)
  have end_ : (taskTableAt m taskCB).taskEnd < 2 ^ 32 := read32_lt m (wordAdd taskCB 28)
  constructor
  · rintro ⟨y, low, high, same⟩
    have equal : x = y := by
      unfold wordAdd wordSub at same
      omega
    exact equal ▸ ⟨low, high⟩
  · exact fun inside => ⟨x, inside.1, inside.2, rfl⟩

/-- The bytes of a sane area are the image's exactly when its bounds are within. -/
theorem area_inside_iff {taskHead : Nat} (sane : (crcHeaderAt m taskHead).Sane c) :
    (∀ i < (crcHeaderAt m taskHead).crcAreaLen,
      InImage m taskCB (wordAdd (startAddress m taskCB (crcHeaderAt m taskHead)) i)) ↔
      AreaBounded (taskTableAt m taskCB) (crcHeaderAt m taskHead) := by
  have end_ : (crcHeaderAt m taskHead).crcEnd < 2 ^ 32 := read32_lt m (wordAdd taskHead 8)
  have ordered := sane.1
  have each : ∀ i < (crcHeaderAt m taskHead).crcAreaLen,
      (InImage m taskCB (wordAdd (startAddress m taskCB (crcHeaderAt m taskHead)) i) ↔
        (taskTableAt m taskCB).taskStart ≤ (crcHeaderAt m taskHead).crcStart + i ∧
          (crcHeaderAt m taskHead).crcStart + i < (taskTableAt m taskCB).taskEnd) := by
    intro i before
    rw [wordAdd_startAddress]
    apply inImage_iff
    unfold TaskCRCHeader.crcAreaLen at before
    omega
  unfold AreaBounded
  unfold TaskCRCHeader.crcAreaLen at each ⊢
  constructor
  · intro inside
    by_cases empty : (crcHeaderAt m taskHead).crcStart = (crcHeaderAt m taskHead).crcEnd
    · exact .inl empty
    · have first := (each 0 (by omega)).mp (inside 0 (by omega))
      have last := (each _ (by omega)).mp (inside
        ((crcHeaderAt m taskHead).crcEnd - (crcHeaderAt m taskHead).crcStart - 1) (by omega))
      right
      omega
  · intro bounded i before
    rw [each i before]
    omega

/-- An image whose header names four bytes from before its start. -/
def areaBefore : Memory := wordsAt 0x10000000 [0x230f7ae9, 1, 1, 0x10000000, 0x10000064, 0,
  0x10000080, 0x100000a0, 0, 0, 0, 0, 0, 0, 0, 0, 0, 0x0ffffffc, 0x10000000, 0]

end Orcos.Guarantees.TaskImages
