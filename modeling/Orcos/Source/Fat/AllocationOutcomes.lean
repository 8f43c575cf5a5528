import Orcos.Source.Fat.Allocation

/-!
# Allocation of a cluster, transfer by transfer

Source: src/source/filesystem/fat/FATFileSystem.cc, `allocateCluster` and
`getFATTableEntry`.

What an allocation answers, which entry it marks and how many requests it makes,
for every outcome of each of its transfers.
-/
namespace Orcos.Source.Fat
open Lib.ByteMemory

namespace Medium

/-- The transfer after so many others from here on succeeds. -/
def Passes (m : Medium) (i : Nat) : Prop := ¬isError (m.outcome (m.requests.length + i))

instance (m : Medium) (i : Nat) : Decidable (m.Passes i) := inferInstanceAs (Decidable (¬_))

variable {m m' : Medium} {sector i n : Nat} {request : Request} {buffer : Memory}

theorem isError_status_iff (inside : m.InRange sector) :
    isError (m.status sector) ↔ ¬m.Passes 0 := by
  rw [status, if_pos inside, Passes, Nat.add_zero, Classical.not_not]

/-- The state some requests later. -/
structure Later (m m' : Medium) (n : Nat) : Prop where
  sectors : m'.sectors = m.sectors
  outcome : m'.outcome = m.outcome
  requests : m'.requests.length = m.requests.length + n

theorem Later.passes (later : Later m m' n) : m'.Passes i ↔ m.Passes (n + i) := by
  rw [Passes, Passes, later.outcome, later.requests, Nat.add_assoc]

theorem Later.refl (m : Medium) : Later m m 0 := ⟨rfl, rfl, rfl⟩

theorem Later.trans {m'' : Medium} {n' : Nat} (first : Later m m' n) (second : Later m' m'' n') :
    Later m m'' (n + n') :=
  ⟨second.sectors.trans first.sectors, second.outcome.trans first.outcome, by
    rw [second.requests, first.requests, Nat.add_assoc]⟩

theorem later_ask : Later m (m.ask request) 1 := ⟨rfl, rfl, rfl⟩

theorem later_writeSectors (m : Medium) (sector : Nat) (buffer : Memory) :
    Later m (m.writeSectors sector buffer).1 1 := ⟨rfl, rfl, rfl⟩

theorem passes_ask : (m.ask request).Passes i ↔ m.Passes (i + 1) := by
  rw [later_ask.passes, Nat.add_comm]

theorem Later.inRange (later : Later m m' n) : m'.InRange sector ↔ m.InRange sector := by
  rw [InRange, InRange, later.sectors]

theorem writeSectors_passed (inside : m.InRange sector) (passes : m.Passes 0) (buffer : Memory) :
    (m.writeSectors sector buffer).1.content = Function.update m.content sector buffer ∧
      ¬isError (m.writeSectors sector buffer).2 := by
  have status := mt (isError_status_iff inside).mp (not_not_intro passes)
  rw [writeSectors]
  simp only [if_neg status]
  exact ⟨rfl, status⟩

theorem writeSectors_failed (inside : m.InRange sector) (fails : ¬m.Passes 0) (buffer : Memory) :
    (m.writeSectors sector buffer).1.content = m.content ∧
      isError (m.writeSectors sector buffer).2 := by
  have status := (isError_status_iff inside).mpr fails
  rw [writeSectors]
  simp only [if_pos status]
  exact ⟨rfl, status⟩

end Medium

namespace FATFileSystem

variable (fs : FATFileSystem) (m : Medium)

/-- The sectors that are read when no free entry is found from a cluster on. -/
def searchSectors (start : Nat) : Nat :=
  if start < fs.countOfClusters then (fs.countOfClusters - 1) / 128 - start / 128 + 1 else 0

/-- How a search from a cluster on ends: after so many reads, at a free entry or
without one. -/
inductive Searched (start : Nat) : Nat → Option Nat → Prop
  | found {f : Nat} (first : fs.Found m start f)
      (reads : ∀ i < f / 128 - start / 128 + 1, m.Passes i) :
      Searched start (f / 128 - start / 128 + 1) (some f)
  | stopped {k : Nat} (more : k < fs.searchSectors start)
      (used : ∀ d, start ≤ d → d / 128 < start / 128 + k → fs.entry m.content d ≠ 0)
      (reads : ∀ i < k, m.Passes i) (failed : ¬m.Passes k) : Searched start (k + 1) none
  | exhausted (used : ¬∃ f, fs.Found m start f)
      (reads : ∀ i < fs.searchSectors start, m.Passes i) :
      Searched start (fs.searchSectors start) none

/-- What an allocation answers, the entry it marks as the end of a chain and the
number of its requests. -/
structure Allocated where
  answer : Nat
  marked : Option Nat
  requests : Nat
  deriving DecidableEq

/-- Taking a free entry that was found after so many requests. -/
def taken (n f : Nat) : Allocated :=
  if ¬m.Passes n then ⟨EOC, none, n + 1⟩
  else if ¬m.Passes (n + 1) then ⟨EOC, some f, n + 2⟩
  else if ¬m.Passes (n + 2) then ⟨EOC, some f, n + 3⟩
  else ⟨f, some f, n + 3⟩

/-- The allocations. On a FAT32 volume the search starts behind the information
sector. -/
inductive Allocates : Allocated → Prop
  | fat16 (type : fs.myFatType = .fat16) : Allocates ⟨0xFFFF, none, 0⟩
  | unreadable (type : fs.myFatType ≠ .fat16) (failed : ¬m.Passes 0) :
      Allocates ⟨errorWord cError, none, 1⟩
  | nothing {k : Nat} (type : fs.myFatType ≠ .fat16) (read : m.Passes 0)
      (searched : fs.Searched (m.ask (.read fs.fsinfoLba)) (fs.searchStart m) k none) :
      Allocates ⟨EOC, none, k + 1⟩
  | found {k f : Nat} (type : fs.myFatType ≠ .fat16) (read : m.Passes 0)
      (searched : fs.Searched (m.ask (.read fs.fsinfoLba)) (fs.searchStart m) k (some f)) :
      Allocates (taken m (k + 1) f)

/-- The contents with an entry marked as the end of a chain. -/
def markedContent (content : Nat → Memory) : Option Nat → Nat → Memory
  | none => content
  | some f => fs.setTableWord content f 0xffffff8

variable {fs m} {start k k' f : Nat} {r r' : Option Nat}

/-- The search ends in one way only. -/
theorem Searched.unique (first : fs.Searched m start k r) (second : fs.Searched m start k' r') :
    k = k' ∧ r = r' := by
  have passed {f k : Nat} (found : fs.Found m start f) (reads : ∀ i < f / 128 - start / 128 + 1,
      m.Passes i) (used : ∀ d, start ≤ d → d / 128 < start / 128 + k → fs.entry m.content d ≠ 0) :
      m.Passes k := by
    have behind : ¬f / 128 < start / 128 + k := fun inside => used f found.low inside found.free
    exact reads k (by omega)
  cases first with
  | found first reads =>
    cases second with
    | found first' reads' =>
      cases first.unique first'
      exact ⟨rfl, rfl⟩
    | stopped more used reads' failed => exact absurd (passed first reads used) failed
    | exhausted used reads' => exact absurd ⟨_, first⟩ used
  | stopped more used reads failed =>
    cases second with
    | found first' reads' => exact absurd (passed first' reads' used) failed
    | stopped more' used' reads' failed' =>
      rename_i k k'
      have same : k = k' := by
        rcases Nat.lt_trichotomy k k' with less | same | less
        · exact absurd (reads' k less) failed
        · exact same
        · exact absurd (reads k' less) failed'
      exact ⟨congrArg _ same, rfl⟩
    | exhausted used' reads' => exact absurd (reads' _ more) failed
  | exhausted used reads =>
    cases second with
    | found first' reads' => exact absurd ⟨_, first'⟩ used
    | stopped more' used' reads' failed' => exact absurd (reads _ more') failed'
    | exhausted used' reads' => exact ⟨rfl, rfl⟩

theorem Allocates.unique {a a' : Allocated} (first : fs.Allocates m a)
    (second : fs.Allocates m a') : a = a' := by
  cases first with
  | fat16 type =>
    cases second with
    | fat16 _ => rfl
    | unreadable other _ => exact absurd type other
    | nothing other _ _ => exact absurd type other
    | found other _ _ => exact absurd type other
  | unreadable type failed =>
    cases second with
    | fat16 other => exact absurd other type
    | unreadable _ _ => rfl
    | nothing _ read _ => exact absurd read failed
    | found _ read _ => exact absurd read failed
  | nothing type read searched =>
    cases second with
    | fat16 other => exact absurd other type
    | unreadable _ failed => exact absurd read failed
    | nothing _ _ searched' =>
      cases (searched.unique searched').1
      rfl
    | found _ _ searched' => cases (searched.unique searched').2
  | found type read searched =>
    cases second with
    | fat16 other => exact absurd other type
    | unreadable _ failed => exact absurd read failed
    | nothing _ _ searched' => cases (searched.unique searched').2
    | found _ _ searched' =>
      obtain ⟨rfl, same⟩ := searched.unique searched'
      cases same
      rfl

/-- A sector without a free entry is passed, and the search goes on behind it. -/
theorem Searched.next {request : Request} (more : start < fs.countOfClusters) (passes : m.Passes 0)
    (used : ∀ d, start ≤ d → d / 128 = start / 128 → fs.entry m.content d ≠ 0)
    (rest : fs.Searched (m.ask request) ((start / 128 + 1) * 128) k r) :
    fs.Searched m start (k + 1) r := by
  have sectors : fs.searchSectors start = fs.searchSectors ((start / 128 + 1) * 128) + 1 := by
    simp only [searchSectors, if_pos more]
    split <;> omega
  have reads {n : Nat} (later : ∀ i < n, (m.ask request).Passes i) : ∀ i < n + 1, m.Passes i := by
    intro i below
    cases i with
    | zero => exact passes
    | succ i => exact Medium.passes_ask.mp (later i (by omega))
  cases rest with
  | @found f first later =>
    have low := first.low
    have count : f / 128 - (start / 128 + 1) * 128 / 128 + 1 + 1 = f / 128 - start / 128 + 1 := by
      omega
    rw [count]
    apply Searched.found
    · exact ⟨more, by omega, first.high, first.free, fun d above below => by
        by_cases here : d / 128 = start / 128
        · exact used d above here
        · exact first.first d (by omega) below⟩
    · rw [← count]
      exact reads later
  | @stopped k more' used' later failed =>
    apply Searched.stopped
    · rw [sectors]
      exact Nat.succ_lt_succ more'
    · intro d above below
      by_cases here : d / 128 = start / 128
      · exact used d above here
      · exact used' d (by omega) (by omega)
    · exact reads later
    · rwa [Medium.passes_ask] at failed
  | exhausted none later =>
    rw [← sectors]
    apply Searched.exhausted
    · rintro ⟨f, found⟩
      have low := found.low
      have beyond : f / 128 ≠ start / 128 := fun here => used f low here found.free
      have high := found.high
      have last : fs.searchEnd = (fs.countOfClusters + 127) / 128 * 128 := rfl
      exact none ⟨f, by omega, by omega, high, found.free, fun d above below =>
        found.first d (by omega) below⟩
    · rw [sectors]
      exact reads later

/-- The search through the table ends as it was described. -/
theorem searchTable_searched {m : Medium} (volume : fs.Fat32Volume m) (c value offset sector : Nat)
    (buffer : Memory) (some : value ≠ 0) :
    ∃ k r m', fs.Searched m c k r ∧ m.Same m' ∧ m.Later m' k ∧
      (r = none →
        fs.takeEntry (fs.searchTable m (searchAt value offset c) sector buffer) = (m', EOC)) ∧
      ∀ f, r = Option.some f → f / 128 < fs.fatSz ∧
        fs.searchTable m (searchAt value offset c) sector buffer =
          (m', Option.some (searchAt 0 (f % 128 * 4 + 4) (f + 1), fs.myFATBPB.rsvdSecCnt + f / 128,
            m.content (fs.myFATBPB.rsvdSecCnt + f / 128))) := by
  by_cases more : c < fs.countOfClusters
  · have table := volume.table
    have numbers := volume.numbers
    have inside := volume.inRange (s := fs.myFATBPB.rsvdSecCnt + c / 128) (by omega)
    have sectors : 0 < fs.searchSectors c := by
      rw [searchSectors, if_pos more]
      exact Nat.succ_pos _
    have address : fs.fatSecNum (c * 4) = fs.myFATBPB.rsvdSecCnt + c / 128 :=
      volume.fatSecNum_eq (by omega)
    by_cases passes : m.Passes 0
    · have read := Medium.readSectors_passed
        (mt (Medium.isError_status_iff inside).mp (not_not_intro passes))
      have step : fs.searchTable m (searchAt value offset c) sector buffer =
          fs.searchTable (m.ask (.read (fs.myFATBPB.rsvdSecCnt + c / 128)))
            (searchSector (m.content (fs.myFATBPB.rsvdSecCnt + c / 128))
              (searchAt value (c % 128 * 4) c))
            (fs.myFATBPB.rsvdSecCnt + c / 128)
            (m.content (fs.myFATBPB.rsvdSecCnt + c / 128)) := by
        rw [searchTable, dif_pos ⟨some, more⟩]
        simp only [searchAt, address, read, fatEntOffset_eq]
      have same := Medium.Same.ask m (.read (fs.myFATBPB.rsvdSecCnt + c / 128))
      rw [step]
      rcases searchSector_spec volume c value some (by omega) (by omega) with
        ⟨f, low, sector', free, used, result⟩ | ⟨used, value', some', result⟩
      · have found : fs.Found m c f := ⟨more, low, by
          have last : fs.searchEnd = (fs.countOfClusters + 127) / 128 * 128 := rfl
          omega, free, used⟩
        have searched : fs.Searched m c (f / 128 - c / 128 + 1) (Option.some f) := by
          apply Searched.found found
          intro i below
          obtain rfl : i = 0 := by omega
          exact passes
        rw [show f / 128 - c / 128 + 1 = 1 by omega] at searched
        refine ⟨1, _, _, searched, same, Medium.later_ask, ?_, ?_⟩
        · intro absent
          cases absent
        intro f' here
        cases here
        rw [result, searchTable, dif_neg (fun again => again.1 rfl), sector']
        exact ⟨by omega, rfl⟩
      · obtain ⟨k, r, m', searched, same', later, missed, found⟩ :=
          searchTable_searched (volume.same same) ((c / 128 + 1) * 128) value' 512
            (fs.myFATBPB.rsvdSecCnt + c / 128)
            (m.content (fs.myFATBPB.rsvdSecCnt + c / 128)) some'
        rw [result]
        refine ⟨k + 1, r, m', searched.next more passes used, same.trans same', ?_, missed, found⟩
        rw [Nat.add_comm]
        exact Medium.later_ask.trans later
    · have read := Medium.readSectors_failed ((Medium.isError_status_iff inside).mpr passes)
      refine ⟨1, none, m.ask (.read (fs.myFATBPB.rsvdSecCnt + c / 128)), ?_, .ask m _,
        Medium.later_ask, fun _ => ?_, fun f here => by cases here⟩
      · apply Searched.stopped sectors
        · intro d above below
          omega
        · intro i below
          omega
        · exact passes
      · rw [searchTable, dif_pos ⟨some, more⟩]
        simp only [searchAt, address, read, takeEntry]
  · have sectors : fs.searchSectors c = 0 := if_neg more
    refine ⟨0, none, m, ?_, .refl m, .refl m, fun _ => ?_, fun f here => by cases here⟩
    · have searched : fs.Searched m c (fs.searchSectors c) none := by
        apply Searched.exhausted
        · rintro ⟨f, found⟩
          exact more found.started
        · rw [sectors]
          intro i below
          omega
      rwa [sectors] at searched
    · rw [searchTable, dif_neg (fun again => more again.2), takeEntry, searchAt, if_neg some]
termination_by fs.countOfClusters - c

/-- What an allocation leaves from the table on. -/
structure Leaves (fs : FATFileSystem) (m m' : Medium) (a : Allocated) : Prop where
  content : ∀ s, fs.myFATBPB.rsvdSecCnt ≤ s → m'.content s = fs.markedContent m.content a.marked s
  later : m.Later m' a.requests

/-- The answer of the update of the information sector and the requests it makes. -/
theorem takeFsInfo_taken (volume : fs.Fat32Volume m) :
    ∃ m', fs.takeFsInfo m f = (m', if m.Passes 0 ∧ m.Passes 1 then f else EOC) ∧
      m.Later m' (if m.Passes 0 then 2 else 1) := by
  have info := volume.info
  have inside : m.InRange fs.fsinfoLba := volume.inRange (by omega)
  by_cases read : m.Passes 0
  · have passed := Medium.readSectors_passed
      (mt (Medium.isError_status_iff inside).mp (not_not_intro read))
    have inside' : (m.ask (.read fs.fsinfoLba)).InRange fs.fsinfoLba := inside
    rw [takeFsInfo]
    simp only [passed, if_pos read]
    generalize write32 (write32 (m.content fs.fsinfoLba) 488 _) 492 _ = buffer
    have later := Medium.later_ask.trans (Medium.later_writeSectors (m.ask (.read fs.fsinfoLba))
      fs.fsinfoLba buffer)
    by_cases write : m.Passes 1
    · have written := (Medium.writeSectors_passed inside' (Medium.passes_ask.mpr write) buffer).2
      rw [if_neg written, if_pos ⟨read, write⟩]
      exact ⟨_, rfl, later⟩
    · have written := (Medium.writeSectors_failed inside' (mt Medium.passes_ask.mp write) buffer).2
      rw [if_pos written, if_neg fun both => write both.2]
      exact ⟨_, rfl, later⟩
  · have failed := Medium.readSectors_failed ((Medium.isError_status_iff inside).mpr read)
    rw [takeFsInfo]
    simp only [failed, if_neg read]
    rw [if_neg fun both => read both.1]
    exact ⟨_, rfl, Medium.later_ask⟩

/-- A free entry that was found is marked when its sector can be written. -/
theorem takeEntry_taken {m₀ : Medium} {n : Nat} (volume : fs.Fat32Volume m)
    (inside : f / 128 < fs.fatSz) (same : m₀.Same m) (later : m₀.Later m n) :
    ∃ m', fs.takeEntry (m, some (searchAt 0 (f % 128 * 4 + 4) (f + 1),
        fs.myFATBPB.rsvdSecCnt + f / 128, m.content (fs.myFATBPB.rsvdSecCnt + f / 128))) =
          (m', (taken m₀ n f).answer) ∧ fs.Leaves m₀ m' (taken m₀ n f) := by
  have inRange : m.InRange (fs.myFATBPB.rsvdSecCnt + f / 128) := volume.inRange (by omega)
  have passes : m.Passes 0 ↔ m₀.Passes n := later.passes
  simp only [takeEntry, searchAt, if_true, Nat.add_sub_cancel]
  generalize marked : write32 (m.content (fs.myFATBPB.rsvdSecCnt + f / 128)) (f % 128 * 4)
    0xffffff8 = buffer
  by_cases write : m.Passes 0
  · obtain ⟨content, written⟩ := Medium.writeSectors_passed inRange write buffer
    have later₁ := later.trans
      (Medium.later_writeSectors m (fs.myFATBPB.rsvdSecCnt + f / 128) buffer)
    have volume₁ : fs.Fat32Volume (m.writeSectors (fs.myFATBPB.rsvdSecCnt + f / 128) buffer).1 :=
      { volume with }
    have content₁ : ∀ s, fs.myFATBPB.rsvdSecCnt ≤ s →
        (fs.takeFsInfo (m.writeSectors (fs.myFATBPB.rsvdSecCnt + f / 128) buffer).1 f).1.content s =
          fs.setTableWord m₀.content f 0xffffff8 s := by
      intro s behind
      have info := volume.info
      have apart : s ≠ fs.fsinfoLba := by omega
      rw [takeFsInfo_elsewhere apart, content, ← marked, same.content]
      rfl
    rw [if_neg written]
    obtain ⟨m', answer, later₂⟩ := takeFsInfo_taken (f := f) volume₁
    have reads := later₁.passes (i := 0)
    have writes := later₁.passes (i := 1)
    rw [answer] at content₁ ⊢
    by_cases read : m₀.Passes (n + 1)
    · rw [if_pos (reads.mpr read)] at later₂
      have whole : m₀.Later m' (n + 3) := later₁.trans later₂
      by_cases count : m₀.Passes (n + 2)
      · have all : taken m₀ n f = ⟨f, some f, n + 3⟩ := by
          simp [taken, passes.mp write, read, count]
        rw [all, if_pos ⟨reads.mpr read, writes.mpr count⟩]
        exact ⟨m', rfl, content₁, whole⟩
      · have uncounted : taken m₀ n f = ⟨EOC, some f, n + 3⟩ := by
          simp [taken, passes.mp write, read, count]
        rw [uncounted, if_neg fun both => count (writes.mp both.2)]
        exact ⟨m', rfl, content₁, whole⟩
    · have unread : taken m₀ n f = ⟨EOC, some f, n + 2⟩ := by
        simp [taken, passes.mp write, read]
      rw [if_neg (mt reads.mp read)] at later₂
      rw [unread, if_neg fun both => read (reads.mp both.1)]
      exact ⟨m', rfl, content₁, later₁.trans later₂⟩
  · obtain ⟨content, written⟩ := Medium.writeSectors_failed inRange write buffer
    rw [if_pos written, taken, if_pos (mt passes.mpr write)]
    refine ⟨_, rfl, fun s behind => ?_, later.trans (Medium.later_writeSectors m _ _)⟩
    rw [content, same.content]
    rfl

/-- Every allocation is one of those described. -/
theorem allocateCluster_allocates (volume : fs.myFatType = .fat16 ∨ fs.Fat32Volume m) :
    ∃ a m', fs.Allocates m a ∧ fs.allocateCluster m = (m', a.answer) ∧ fs.Leaves m m' a := by
  rcases volume with fat16 | volume
  · exact ⟨_, m, .fat16 fat16, allocateCluster_fat16 fat16, fun s behind => rfl, .refl m⟩
  · have type := volume.not_fat16
    have info := volume.info
    have inside : m.InRange fs.fsinfoLba := volume.inRange (by omega)
    by_cases read : m.Passes 0
    · have passed := Medium.readSectors_passed
        (mt (Medium.isError_status_iff inside).mp (not_not_intro read))
      have same := Medium.Same.ask m (.read fs.fsinfoLba)
      have begins : fs.allocateCluster m = fs.takeEntry (fs.searchTable
          (m.ask (.read fs.fsinfoLba)) ⟨EOC, 0, fs.searchStart m, fs.searchStart m * 4 % 2 ^ 32⟩ 0
          (m.content fs.fsinfoLba)) := by
        rw [allocateCluster, volume.type]
        simp only [passed]
        rfl
      rw [begins]
      by_cases more : fs.searchStart m < fs.countOfClusters
      · have numbers := volume.numbers
        have address : fs.searchStart m * 4 % 2 ^ 32 = fs.searchStart m * 4 :=
          Nat.mod_eq_of_lt (by omega)
        rw [address]
        obtain ⟨k, r, m₁, searched, same₁, later, missed, found⟩ :=
          searchTable_searched (volume.same same) (fs.searchStart m) EOC 0 0
            (m.content fs.fsinfoLba) (by decide)
        have whole : m.Later m₁ (k + 1) := by
          rw [Nat.add_comm]
          exact Medium.later_ask.trans later
        cases r with
        | none =>
          refine ⟨_, m₁, .nothing type read searched, missed rfl, fun s behind => ?_, whole⟩
          rw [same₁.content]
          rfl
        | some f =>
          obtain ⟨inTable, result⟩ := found f rfl
          obtain ⟨m', answer, leaves⟩ := takeEntry_taken (volume.same (same.trans same₁)) inTable
            (same.trans same₁) whole
          refine ⟨_, m', .found type read searched, ?_, leaves⟩
          rw [← answer, (same.trans same₁).content, ← searchAt, result]
          rfl
      · have searched : fs.Searched (m.ask (.read fs.fsinfoLba)) (fs.searchStart m) 0 none := by
          have sectors : fs.searchSectors (fs.searchStart m) = 0 := if_neg more
          rw [← sectors]
          apply Searched.exhausted
          · rintro ⟨f, found⟩
            exact more found.started
          · rw [sectors]
            intro i below
            omega
        refine ⟨_, m.ask (.read fs.fsinfoLba), .nothing type read searched, ?_, fun s behind => rfl,
          Medium.later_ask⟩
        rw [searchTable, dif_neg fun again => more again.2]
        simp only [takeEntry]
        rw [if_neg (by decide : ¬EOC = 0)]
    · exact ⟨_, _, .unreadable type read,
        allocateCluster_unreadable type ((Medium.isError_status_iff inside).mpr read),
        fun s behind => rfl, Medium.later_ask⟩

section Slots

variable (fs : FATFileSystem) (content : Nat → Memory) (buffer : Memory) (d : Nat)

/-- The number of entries in one sector of the table. -/
def perSector : Nat := if fs.myFatType = .fat16 then 256 else 128

/-- The sector of the table with an entry. -/
def slotSector : Nat := fs.myFATBPB.rsvdSecCnt + d / fs.perSector

/-- The place of an entry in its sector, with all the bits there are. -/
def slotIn : Nat :=
  if fs.myFatType = .fat16 then read16 buffer (d % 256 * 2) else read32 buffer (d % 128 * 4)

/-- The place of an entry in the table. -/
def slot : Nat := fs.slotIn (content (fs.slotSector d)) d

/-- A FAT16 volume on a partition that holds it: the table has an entry for every
cluster. -/
structure Fat16Volume (m : Medium) : Prop where
  type : fs.myFatType = .fat16
  numbers : fs.countOfClusters + 2 ≤ 0xFFF7
  table : fs.countOfClusters + 2 ≤ 256 * fs.fatSz
  partition : fs.myFATBPB.rsvdSecCnt + fs.fatSz < m.sectors
  word : m.sectors ≤ 2 ^ 32

/-- A volume on a partition that holds it. -/
def OnPartition (m : Medium) : Prop := fs.Fat16Volume m ∨ fs.Fat32Volume m

variable {fs content buffer d} {m : Medium} {c v : Nat}

theorem OnPartition.fat32 (volume : fs.OnPartition m) (type : fs.myFatType ≠ .fat16) :
    fs.Fat32Volume m := volume.resolve_left fun fat16 => type fat16.type

theorem OnPartition.same {m' : Medium} (volume : fs.OnPartition m) (same : m.Same m') :
    fs.OnPartition m' := by
  rcases volume with fat16 | fat32
  · exact .inl { fat16 with
      partition := by rw [same.sectors]; exact fat16.partition
      word := by rw [same.sectors]; exact fat16.word }
  · exact .inr (fat32.same same)

theorem OnPartition.inTable (volume : fs.OnPartition m) (inside : c < fs.countOfClusters + 2) :
    c < fs.perSector * fs.fatSz := by
  rw [perSector]
  rcases volume with fat16 | fat32
  · have table := fat16.table
    rw [if_pos fat16.type]
    omega
  · have table := fat32.table
    rw [if_neg fat32.not_fat16]
    omega

theorem OnPartition.entrySector_eq (volume : fs.OnPartition m)
    (inside : c < fs.countOfClusters + 2) :
    fs.entrySector c = fs.slotSector c ∧
      fatEntOffset (fs.entryAddr c) =
        if fs.myFatType = .fat16 then c % 256 * 2 else c % 128 * 4 := by
  rcases volume with fat16 | fat32
  · have numbers := fat16.numbers
    have table := fat16.table
    have partition := fat16.partition
    have word := fat16.word
    have low : c * 2 &&& 2 ^ 9 - 1 = c * 2 % 2 ^ 9 := Nat.and_two_pow_sub_one_eq_mod _ 9
    rw [entrySector, entryAddr, slotSector, perSector]
    simp only [fat16.type, if_true]
    rw [Nat.mod_eq_of_lt (by omega), fatSecNum, show c * 2 / 512 = c / 256 by omega,
      wordAdd_eq (by omega), fatEntOffset, show 512 - 1 = 2 ^ 9 - 1 from rfl, low]
    exact ⟨rfl, by omega⟩
  · have numbers := fat32.numbers
    have table := fat32.table
    rw [entrySector, entryAddr, slotSector, perSector]
    simp only [fat32.not_fat16, if_false]
    rw [Nat.mod_eq_of_lt (by omega), fat32.fatSecNum_eq (by omega), fatEntOffset_eq]
    exact ⟨rfl, rfl⟩

theorem OnPartition.inRange (volume : fs.OnPartition m) (inside : c < fs.countOfClusters + 2) :
    m.InRange (fs.entrySector c) := by
  rw [(volume.entrySector_eq inside).1, slotSector, perSector]
  rcases volume with fat16 | fat32
  · have table := fat16.table
    have partition := fat16.partition
    have word := fat16.word
    rw [if_pos fat16.type, Medium.InRange, wordAdd_eq (by omega)]
    omega
  · have table := fat32.table
    rw [if_neg fat32.not_fat16]
    exact fat32.inRange (by omega)

/-- The entry of a cluster is its place without the upper bits of a FAT32 volume. -/
theorem OnPartition.entry_eq (volume : fs.OnPartition m) (inside : c < fs.countOfClusters + 2) :
    fs.entry content c =
      if fs.myFatType = .fat16 then fs.slot content c else fs.slot content c % 2 ^ 28 := by
  obtain ⟨sector, offset⟩ := volume.entrySector_eq inside
  rw [entry, sector, offset, slot, slotIn, and_mask]
  by_cases type : fs.myFatType = .fat16
  · simp only [if_pos type]
  · simp only [if_neg type]

/-- One entry of a sector is set, the others are kept. -/
theorem slotIn_withEntry (volume : fs.OnPartition m) (inside : c < fs.countOfClusters + 2)
    (word : v < 2 ^ 32) (sector : fs.slotSector d = fs.slotSector c) :
    fs.slotIn (fs.withEntry buffer c v) d =
      if d = c then if fs.myFatType = .fat16 then v % 2 ^ 16 else v else fs.slotIn buffer d := by
  have offset := (volume.entrySector_eq inside).2
  rw [slotSector, slotSector, perSector] at sector
  rw [withEntry, offset, slotIn, slotIn]
  by_cases type : fs.myFatType = .fat16
  · simp only [if_pos type] at sector ⊢
    split
    · next same =>
      rw [same, read16_write16 _ _ (Nat.mod_lt _ (by decide))]
    · next other => exact read16_write16_of_apart (by omega)
  · simp only [if_neg type] at sector ⊢
    split
    · next same => rw [same, read32_write32 _ _ word]
    · next other => exact read32_write32_of_apart (by omega)

theorem slot_eq_tableWord (fat32 : fs.myFatType ≠ .fat16) :
    fs.slot content d = fs.tableWord content d := by
  rw [slot, slotIn, slotSector, perSector, if_neg fat32, if_neg fat32]
  rfl

/-- The places after an entry was marked. -/
theorem slot_markedContent {marked : Option Nat}
    (type : marked ≠ none → fs.myFatType ≠ .fat16) :
    fs.slot (fs.markedContent content marked) d =
      if marked = some d then 0xffffff8 else fs.slot content d := by
  cases marked with
  | none =>
    rw [if_neg (Option.some_ne_none d).symm]
    rfl
  | some f =>
    have fat32 := type (Option.some_ne_none f)
    rw [slot_eq_tableWord fat32, slot_eq_tableWord fat32, markedContent]
    by_cases here : f = d
    · rw [if_pos (congrArg some here), here, tableWord_setTableWord (by decide)]
    · rw [if_neg fun same => here (Option.some.inj same),
        tableWord_setTableWord_of_ne fun same => here same.symm]

end Slots

end FATFileSystem

end Orcos.Source.Fat
