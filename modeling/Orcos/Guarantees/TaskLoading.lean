import Orcos.Lib.Runs
import Orcos.Source.Tasks.Loading

/-!
# The ids of loaded tasks

Source: src/source/process/TaskManager.cc, `loadTaskFromFile`;
src/source/process/Task.cc, `getIdOfNextCreatedTask`; src/source/inc/Bitmap.hh, `getNextID`.

The id of a new task is drawn twice: once for its pages, when it is given back at once, and
once by the constructor. Without a free id both draws give 255, the mark of a free page, and
the call goes on. Ids are right as long as the second draw finds the id of the first one, and no
call stores a word of the map that another one has changed since. Pages that a call has found and
another one has taken since are marked nevertheless.
-/
namespace Orcos.Guarantees.TaskLoading
open Lib.Runs Lib.WordBits Source Source.PagedRam Source.Tasks

variable {layout : Layout} {s : Loader layout} {limit stackSize call k : Nat} {p : LoadPhase}

/-- The phase keeps the number out of the map of free ids. -/
def Holds : LoadPhase → Nat → Prop
  | .drawn nextId, k => k = nextId
  | .giving nextId _, k => k = nextId
  | .created _ id, k => k = id
  | .stackSearched _ id _ _, k => k = id
  | .equipped _ id, k => k = id
  | .removing tid, k => k = tid
  | .leaving tid _, k => k = tid
  | _, _ => False

/-- The number is the id of a task, or kept by a call. -/
def Taken (s : Loader layout) (k : Nat) : Prop :=
  k ∈ s.taskDatabase ∨ ∃ call, Holds (s.calls call) k

/-- The phase of a call that found no free id. -/
def Unnamed : LoadPhase → Prop
  | .drawn nextId => nextId = 255
  | .chosen tid => tid = 255
  | .searched tid _ _ => tid = 255
  | .placed tid => tid = 255
  | .loaded tid => tid = 255
  | .valid tid => tid = 255
  | .constructing tid _ => tid = 255
  | .naming tid _ _ => tid = 255
  | _ => False

/-- The step is one of a call that finds no free id, or found none before. -/
def WithoutId (s : Loader layout) (call : Nat) : Loader.Op → Prop
  | .access c => c = call ∧ (Unnamed (s.calls call) ∨
      ∃ i, s.calls call = .drawing i ∧ s.freeTaskIDs.map.length ≤ i)
  | .allocate c _ | .mark c | .read c _ | .check c _ | .construct c | .allocateStack c
  | .announce c => c = call ∧ Unnamed (s.calls call)
  | .draw _ | .remove _ _ => False

/-- A word of the map of free ids is what the call has read when it stores it; and the search of a
constructor finds an id, which is the one that the call has chosen. -/
def Current (s : Loader layout) : LoadPhase → Prop
  | .taking i word => s.freeTaskIDs.map[i]? = some word
  | .giving nextId word => s.freeTaskIDs.map[nextId / 32]? = some word
  | .leaving tid word => s.freeTaskIDs.map[tid / 32]? = some word
  | .constructing _ i => i < s.freeTaskIDs.map.length
  | .naming tid i word => s.freeTaskIDs.map[i]? = some word ∧ tid = word.clz.toNat + i * 32
  | _ => True

/-- The file of a call without an id is not empty; pages that a call has found are free still
when it marks them; and no other call comes in between its accesses to the map of free ids. -/
def Allowed (s : Loader layout) : Loader.Op → Prop
  | .allocate call fileSize => s.calls call = .chosen 255 → alignCeil fileSize 0x100000 ≠ 0
  | .mark call => ∀ areaStart areaSize, (s.calls call).area = some (areaStart, areaSize) →
      AreaFree s.pages areaStart areaSize
  | .access call => Current s (s.calls call)
  | _ => True

/-- Some tasks are live, the other ids are free, and no call is under way. -/
structure Started (limit : Nat) (s : Loader layout) : Prop where
  count : s.freeTaskIDs.ids = limit
  words : limit ≤ s.freeTaskIDs.map.length * 32
  bits : ∀ k, bit s.freeTaskIDs.map k = true ↔ k < limit ∧ k ∉ s.taskDatabase
  nodup : s.taskDatabase.Nodup
  below : ∀ id ∈ s.taskDatabase, id < limit
  idle : ∀ call, s.calls call = .idle
  settled : s.pages.Settled

/-- The map of free ids, the page map and the list of tasks are the same, and the call has
no id or has failed. -/
structure Kept (s s' : Loader layout) (call : Nat) : Prop where
  freeTaskIDs : s'.freeTaskIDs = s.freeTaskIDs
  pages : s'.pages = s.pages
  taskDatabase : s'.taskDatabase = s.taskDatabase
  phase : Unnamed (s'.calls call) ∨ ∃ error, s'.calls call = .failed error

/-- What holds of the ids in a state, and of the next step there. -/
structure Respected (limit stackSize : Nat) (s : Loader layout) : Prop where
  nodup : s.taskDatabase.Nodup
  below : ∀ id ∈ s.taskDatabase, id < limit
  named : ∀ call tid id, s.calls call = .finished tid id → id = tid ∧ id < limit ∧ id ≠ 255
  fresh : ∀ call tid i word, s.calls call = .naming tid i word → Allowed s (.access call) →
    (s.access call).calls call = .created tid tid ∧ tid < limit ∧
      tid ∉ s.taskDatabase ∧ ∀ c t, (s.calls c).made ≠ some (t, tid)
  kept : ∀ call op, Allowed s op → WithoutId s call op → Kept s (s.step stackSize op) call

/-- What a call keeps of what it has read. -/
def Scanned (limit : Nat) : LoadPhase → Prop
  | .taking _ word => word.clz.toNat < 32
  | .giving nextId _ => nextId < limit
  | .leaving tid _ => tid < limit
  | .naming _ _ word => word.clz.toNat < 32
  | _ => True

structure Sound (limit : Nat) (s : Loader layout) : Prop where
  count : s.freeTaskIDs.ids = limit
  words : limit ≤ s.freeTaskIDs.map.length * 32
  bits : ∀ k, bit s.freeTaskIDs.map k = true ↔ k < limit ∧ ¬Taken s k
  nodup : s.taskDatabase.Nodup
  below : ∀ id ∈ s.taskDatabase, id < limit
  apart : ∀ c k, k < limit → Holds (s.calls c) k →
    k ∉ s.taskDatabase ∧ ∀ c', Holds (s.calls c') k → c' = c
  scanned : ∀ c, Scanned limit (s.calls c)
  made : ∀ c tid id, (s.calls c).made = some (tid, id) → id = tid ∧ id < limit
  finished : ∀ c tid id, s.calls c = .finished tid id → id = tid ∧ id < limit
  found : ∀ c areaStart areaSize, (s.calls c).area = some (areaStart, areaSize) →
    WholeArea layout areaStart areaSize
  settled : s.pages.Settled

/-! ## The map of free ids -/

theorem taskIdOf_small (small : k < 256) : taskIdOf (k : Int) = k := by
  unfold taskIdOf
  omega

theorem inside_map {m : IDMap} (words : limit ≤ m.map.length * 32) (small : k < limit) :
    k / 32 < m.map.length := by
  omega

/-! ## Phases -/

theorem setCall_calls (s : Loader layout) (call : Nat) (p : LoadPhase) (c : Nat) :
    (s.setCall call p).calls c = if c = call then p else s.calls c := by
  unfold Loader.setCall
  by_cases same : c = call
  · rw [if_pos same, same]
    exact Function.update_self ..
  · rw [if_neg same]
    exact Function.update_of_ne same ..

theorem setCall_self (s : Loader layout) (call : Nat) (p : LoadPhase) :
    (s.setCall call p).calls call = p := by
  rw [setCall_calls, if_pos rfl]

/-- A call that did not keep the number may keep it now. -/
theorem taken_setCall (before : ¬Holds (s.calls call) k) :
    Taken (s.setCall call p) k ↔ Taken s k ∨ Holds p k := by
  unfold Taken
  change _ ∨ (∃ c, Holds ((s.setCall call p).calls c) k) ↔ _
  constructor
  · rintro (listed | ⟨c, held⟩)
    · exact .inl (.inl listed)
    · rw [setCall_calls] at held
      split_ifs at held
      · exact .inr held
      · exact .inl (.inr ⟨c, held⟩)
  · rintro ((listed | ⟨c, held⟩) | held)
    · exact .inl listed
    · refine .inr ⟨c, ?_⟩
      rw [setCall_calls, if_neg fun same => before (by rwa [same] at held)]
      exact held
    · refine .inr ⟨call, ?_⟩
      rw [setCall_self]
      exact held

theorem taken_withIds (ids : IDMap) (before : ¬Holds (s.calls call) k) :
    Taken ({ s with freeTaskIDs := ids }.setCall call p) k ↔ Taken s k ∨ Holds p k :=
  taken_setCall (s := { s with freeTaskIDs := ids }) before

theorem Sound.withPages (sound : Sound limit s) {pages : PageMap layout}
    (settled : pages.Settled) : Sound limit { s with pages := pages } :=
  ⟨sound.count, sound.words, sound.bits, sound.nodup, sound.below, sound.apart, sound.scanned,
    sound.made, sound.finished, sound.found, settled⟩

/-- A phase that keeps no id below the limit and has made no task. -/
structure Plain (layout : Layout) (limit : Nat) (p : LoadPhase) : Prop where
  free : ∀ k < limit, ¬Holds p k
  scanned : Scanned limit p
  made : p.made = none
  finished : ∀ tid id, p ≠ .finished tid id
  found : ∀ areaStart areaSize, p.area = some (areaStart, areaSize) →
    WholeArea layout areaStart areaSize

/-- The id that a call has made a task with is kept by it. -/
theorem holds_made {tid id : Nat} (made : p.made = some (tid, id)) : Holds p id := by
  cases p with
  | created t i =>
    cases made
    exact rfl
  | stackSearched t i a n =>
    cases made
    exact rfl
  | equipped t i =>
    cases made
    exact rfl
  | _ => cases made

theorem scanned_made {tid id : Nat} (made : p.made = some (tid, id)) : Scanned limit p := by
  cases p with
  | taking i word => cases made
  | giving nextId word => cases made
  | leaving tid word => cases made
  | naming tid i word => cases made
  | _ => trivial

theorem Sound.scanned_setCall (sound : Sound limit s) (scanned : Scanned limit p) (c : Nat) :
    Scanned limit ((s.setCall call p).calls c) := by
  rw [setCall_calls]
  split_ifs
  · exact scanned
  · exact sound.scanned c

/-- What a call goes to tells whether there are pages to mark. -/
theorem Sound.found_setCall (sound : Sound limit s)
    (found : ∀ areaStart areaSize, p.area = some (areaStart, areaSize) →
      WholeArea layout areaStart areaSize) (c areaStart areaSize : Nat)
    (area : ((s.setCall call p).calls c).area = some (areaStart, areaSize)) :
    WholeArea layout areaStart areaSize := by
  rw [setCall_calls] at area
  split_ifs at area
  · exact found areaStart areaSize area
  · exact sound.found c areaStart areaSize area

/-- A call that keeps no id goes to a phase that keeps none. -/
theorem Sound.setCall (sound : Sound limit s) (before : ∀ k < limit, ¬Holds (s.calls call) k)
    (plain : Plain layout limit p) : Sound limit (s.setCall call p) where
  count := sound.count
  words := sound.words
  bits k := by
    refine (sound.bits k).trans (and_congr_right fun small => not_congr ?_)
    rw [taken_setCall (before k small), or_iff_left (plain.free k small)]
  nodup := sound.nodup
  below := sound.below
  apart c k small held := by
    rw [setCall_calls] at held
    split_ifs at held
    · exact absurd held (plain.free k small)
    · refine ⟨(sound.apart c k small held).1, fun c' held' => ?_⟩
      rw [setCall_calls] at held'
      split_ifs at held'
      · exact absurd held' (plain.free k small)
      · exact (sound.apart c k small held).2 c' held'
  scanned := sound.scanned_setCall plain.scanned
  made c tid id phase := by
    rw [setCall_calls] at phase
    split_ifs at phase
    · rw [plain.made] at phase
      cases phase
    · exact sound.made c tid id phase
  finished c tid id phase := by
    rw [setCall_calls] at phase
    split_ifs at phase
    · exact absurd phase (plain.finished tid id)
    · exact sound.finished c tid id phase
  found := sound.found_setCall plain.found
  settled := sound.settled

/-- A call goes on with the id that it keeps. -/
theorem Sound.keep (sound : Sound limit s) (keeps : ∀ k, Holds p k ↔ Holds (s.calls call) k)
    (scanned : Scanned limit p)
    (made : ∀ tid id, p.made = some (tid, id) → (s.calls call).made = some (tid, id))
    (open_ : ∀ tid id, p ≠ .finished tid id)
    (found : ∀ areaStart areaSize, p.area = some (areaStart, areaSize) →
      WholeArea layout areaStart areaSize) : Sound limit (s.setCall call p) := by
  have same : ∀ c k, Holds ((s.setCall call p).calls c) k ↔ Holds (s.calls c) k := by
    intro c k
    rw [setCall_calls]
    split_ifs with here
    · rw [here, keeps]
    · exact Iff.rfl
  refine ⟨sound.count, sound.words, fun k => (sound.bits k).trans ?_, sound.nodup, sound.below,
    fun c k small held => ?_, sound.scanned_setCall scanned, fun c t i phase => ?_,
    fun c t i phase => ?_, sound.found_setCall found, sound.settled⟩
  · unfold Taken
    simp only [same]
    exact Iff.rfl
  · have kept := sound.apart c k small ((same c k).mp held)
    exact ⟨kept.1, fun c' held' => kept.2 c' ((same c' k).mp held')⟩
  · rw [setCall_calls] at phase
    split_ifs at phase
    · exact sound.made call t i (made t i phase)
    · exact sound.made c t i phase
  · rw [setCall_calls] at phase
    split_ifs at phase
    · exact absurd phase (open_ t i)
    · exact sound.finished c t i phase

/-- A call that has made a task goes on with it. -/
theorem Sound.goOn (sound : Sound limit s) {tid id : Nat}
    (before : (s.calls call).made = some (tid, id)) (after : p.made = some (tid, id))
    (found : ∀ areaStart areaSize, p.area = some (areaStart, areaSize) →
      WholeArea layout areaStart areaSize) : Sound limit (s.setCall call p) := by
  have keeps : ∀ q : LoadPhase, q.made = some (tid, id) → ∀ k, Holds q k ↔ k = id := by
    intro q made k
    cases q with
    | created t i =>
      cases made
      exact Iff.rfl
    | stackSearched t i a n =>
      cases made
      exact Iff.rfl
    | equipped t i =>
      cases made
      exact Iff.rfl
    | _ => cases made
  refine sound.keep (fun k => (keeps p after k).trans (keeps _ before k).symm)
    (scanned_made after) (fun t i phase => ?_) (fun t i done => ?_) found
  · rw [← phase, after, before]
  · rw [done] at after
    cases after

/-- A call takes a free id and keeps it. -/
theorem Sound.take (sound : Sound limit s) (before : ∀ j < limit, ¬Holds (s.calls call) j)
    {i : Nat} {word : BitVec 32} (read : s.freeTaskIDs.map[i]? = some word)
    (some_ : word.clz.toNat < 32) (found : word.clz.toNat + i * 32 = k)
    (keeps : ∀ j, Holds p j ↔ j = k) (made : ∀ tid id, p.made = some (tid, id) → id = tid)
    (open_ : ∀ tid id, p ≠ .finished tid id) (unmarked : p.area = none)
    (scanned : Scanned limit p) : Sound limit ((s.takeID i word).setCall call p) := by
  have taken : s.takeID i word =
      { s with freeTaskIDs := { s.freeTaskIDs with map := clearBit s.freeTaskIDs.map k } } := by
    rw [Loader.takeID, Loader.setWord, set_clz read some_, found]
  have free := (sound.bits k).mp (found ▸ bit_clz read some_)
  have clear := bit_clearBit (inside_map sound.words free.1)
  rw [taken]
  refine ⟨sound.count, ?_, fun j => ?_, sound.nodup, sound.below, fun c j small held => ?_,
    sound.scanned_setCall scanned, fun c tid id phase => ?_, fun c tid id phase => ?_,
    sound.found_setCall (fun a n area => ?_), sound.settled⟩
  · change limit ≤ (clearBit s.freeTaskIDs.map k).length * 32
    rw [clearBit_length]
    exact sound.words
  · change bit (clearBit s.freeTaskIDs.map k) j = true ↔ _
    rw [clear j]
    have old := sound.bits j
    by_cases small : j < limit
    · rw [taken_withIds _ (before j small), keeps j]
      by_cases same : j = k
      · simp [same]
      · simp only [same, decide_false, Bool.not_false, Bool.true_and, or_false]
        exact old
    · have unset : bit s.freeTaskIDs.map j ≠ true := fun set => small (old.mp set).1
      simp [unset, small]
  · rw [setCall_calls] at held
    have others : ∀ c', Holds (s.calls c') k → False := fun c' holds => free.2 (.inr ⟨c', holds⟩)
    split_ifs at held with same
    · obtain rfl := (keeps j).mp held
      refine ⟨fun listed => free.2 (.inl listed), fun c' held' => ?_⟩
      rw [setCall_calls] at held'
      split_ifs at held' with same'
      · exact same'.trans same.symm
      · exact (others c' held').elim
    · refine ⟨(sound.apart c j small held).1, fun c' held' => ?_⟩
      rw [setCall_calls] at held'
      split_ifs at held' with same'
      · obtain rfl := (keeps j).mp held'
        exact (others c held).elim
      · exact (sound.apart c j small held).2 c' held'
  · rw [setCall_calls] at phase
    split_ifs at phase
    · exact ⟨made tid id phase, (keeps id).mp (holds_made phase) ▸ free.1⟩
    · exact sound.made c tid id phase
  · rw [setCall_calls] at phase
    split_ifs at phase
    · exact absurd phase (open_ tid id)
    · exact sound.finished c tid id phase
  · rw [unmarked] at area
    cases area

/-- A call gives the id back that it keeps. -/
theorem Sound.release (sound : Sound limit s) (small : k < limit)
    (before : ∀ j, Holds (s.calls call) j ↔ j = k) {word : BitVec 32}
    (read : s.freeTaskIDs.map[k / 32]? = some word) (plain : Plain layout limit p) :
    Sound limit ((s.giveID k word).setCall call p) := by
  have given : s.giveID k word =
      { s with freeTaskIDs := { s.freeTaskIDs with map := setBit s.freeTaskIDs.map k } } := by
    rw [Loader.giveID, Loader.setWord, set_eq_modify read (· ||| mask (k % 32)), setBit]
  have set := bit_setBit (inside_map sound.words small)
  have own := sound.apart call k small ((before k).mpr rfl)
  rw [given]
  refine ⟨sound.count, ?_, fun j => ?_, sound.nodup, sound.below, fun c j below held => ?_,
    sound.scanned_setCall plain.scanned, fun c tid id phase => ?_, fun c tid id phase => ?_,
    sound.found_setCall plain.found, sound.settled⟩
  · change limit ≤ (setBit s.freeTaskIDs.map k).length * 32
    rw [setBit_length]
    exact sound.words
  · change bit (setBit s.freeTaskIDs.map k) j = true ↔ _
    rw [set j, Bool.or_eq_true, decide_eq_true_eq]
    by_cases same : j = k
    · subst same
      refine iff_of_true (.inl rfl) ⟨small, ?_⟩
      rintro (listed | ⟨c, held⟩)
      · exact own.1 listed
      · rw [setCall_calls] at held
        split_ifs at held with other
        · exact plain.free j small held
        · exact other (own.2 c held)
    · rw [or_iff_right same]
      refine (sound.bits j).trans (and_congr_right fun below => not_congr ?_)
      have kept : ¬Holds (s.calls call) j := fun held => same ((before j).mp held)
      rw [taken_withIds _ kept, or_iff_left (plain.free j below)]
  · rw [setCall_calls] at held
    split_ifs at held
    · exact absurd held (plain.free j below)
    · refine ⟨(sound.apart c j below held).1, fun c' held' => ?_⟩
      rw [setCall_calls] at held'
      split_ifs at held'
      · exact absurd held' (plain.free j below)
      · exact (sound.apart c j below held).2 c' held'
  · rw [setCall_calls] at phase
    split_ifs at phase
    · rw [plain.made] at phase
      cases phase
    · exact sound.made c tid id phase
  · rw [setCall_calls] at phase
    split_ifs at phase
    · exact absurd phase (plain.finished tid id)
    · exact sound.finished c tid id phase

/-! ## Steps -/

/-- Phases in which a call keeps no id. -/
theorem plain_drawn (small : limit ≤ 255) : Plain layout limit (.drawn (taskIdOf (-1))) where
  free k below held := by
    have mark : k = 255 := held
    omega
  scanned := trivial
  made := rfl
  finished _ _ := nofun
  found _ _ := nofun

theorem plain_drawing (i : Nat) : Plain layout limit (.drawing i) :=
  ⟨fun _ _ => id, trivial, rfl, nofun, nofun⟩

theorem plain_taking (i : Nat) {word : BitVec 32} (some_ : word.clz.toNat < 32) :
    Plain layout limit (.taking i word) :=
  ⟨fun _ _ => id, some_, rfl, nofun, nofun⟩

theorem plain_idle : Plain layout limit .idle :=
  ⟨fun _ _ => id, trivial, rfl, nofun, nofun⟩

theorem plain_constructing (tid i : Nat) : Plain layout limit (.constructing tid i) :=
  ⟨fun _ _ => id, trivial, rfl, nofun, nofun⟩

theorem plain_naming (tid i : Nat) {word : BitVec 32} (some_ : word.clz.toNat < 32) :
    Plain layout limit (.naming tid i word) :=
  ⟨fun _ _ => id, some_, rfl, nofun, nofun⟩

theorem plain_searched (tid : Nat) {areaStart areaSize : Nat}
    (whole : WholeArea layout areaStart areaSize) :
    Plain layout limit (.searched tid areaStart areaSize) :=
  ⟨fun _ _ => id, trivial, rfl, nofun, fun _ _ area => by cases area; exact whole⟩

theorem plain_placed (tid : Nat) : Plain layout limit (.placed tid) :=
  ⟨fun _ _ => id, trivial, rfl, nofun, nofun⟩

theorem plain_loaded (tid : Nat) : Plain layout limit (.loaded tid) :=
  ⟨fun _ _ => id, trivial, rfl, nofun, nofun⟩

theorem plain_valid (tid : Nat) : Plain layout limit (.valid tid) :=
  ⟨fun _ _ => id, trivial, rfl, nofun, nofun⟩

theorem plain_failed (error : ErrorT) : Plain layout limit (.failed error) :=
  ⟨fun _ _ => id, trivial, rfl, nofun, nofun⟩

/-- The call fails when it has drawn the id 0. -/
theorem plain_choice (nextId : Nat) : Plain layout limit (Loader.choice nextId) := by
  unfold Loader.choice
  split_ifs
  · exact plain_failed cError
  · exact ⟨fun _ _ => id, trivial, rfl, nofun, nofun⟩

/-- The call fails without memory for the file. -/
theorem plain_answered (tid taskStart : Nat) :
    Plain layout limit (if taskStart = 0 then .failed cError else .placed tid) := by
  split_ifs
  · exact plain_failed cError
  · exact plain_placed tid

theorem Sound.draw (sound : Sound limit s) (call : Nat) : Sound limit (s.draw call) := by
  unfold Loader.draw
  split
  · rename_i phase
    exact sound.setCall (fun k _ held => by rwa [phase] at held) (plain_drawing 0)
  · exact sound

/-- Where a round of the search leads. -/
theorem searchWord_cases (s : Loader layout) (i : Nat) (found : BitVec 32 → LoadPhase)
    (next last : LoadPhase) :
    (s.freeTaskIDs.map.length ≤ i ∧ s.searchWord i found next last = last) ∨
    ∃ word, s.freeTaskIDs.map[i]? = some word ∧
      (word.clz.toNat < 32 ∧ s.searchWord i found next last = found word ∨
        s.searchWord i found next last = next) := by
  unfold Loader.searchWord
  cases read : s.freeTaskIDs.map[i]? with
  | none => exact .inl ⟨List.getElem?_eq_none_iff.mp read, rfl⟩
  | some word =>
    refine .inr ⟨word, rfl, ?_⟩
    dsimp only
    split
    case isTrue some_ => exact .inl ⟨some_, rfl⟩
    case isFalse => exact .inr rfl

/-- An id below the limit is in the map. -/
theorem Sound.freeWord_cases (sound : Sound limit s) (id : Nat) (found : BitVec 32 → LoadPhase)
    (last : LoadPhase) :
    (limit ≤ id ∧ s.freeWord id found last = last) ∨
    id < limit ∧ ∃ word, s.freeWord id found last = found word := by
  unfold Loader.freeWord
  rw [sound.count]
  split_ifs with below
  · refine .inr ⟨below, ?_⟩
    split
    · next word _ => exact ⟨word, rfl⟩
    · next outside =>
      have inside := inside_map sound.words below
      rw [List.getElem?_eq_none_iff] at outside
      omega
  · exact .inl ⟨Nat.not_lt.mp below, rfl⟩

/-- A call without an id keeps none while its phase says so. -/
theorem holdsNone_of_phase (phase : s.calls call = p) (none_ : ∀ k, ¬Holds p k) :
    ∀ k < limit, ¬Holds (s.calls call) k := by
  rw [phase]
  exact fun k _ => none_ k

/-- The constructor takes the id the call has chosen. -/
theorem access_naming {tid i : Nat} {word : BitVec 32} (phase : s.calls call = .naming tid i word)
    (chosen : tid = word.clz.toNat + i * 32) (small : tid < 256) :
    s.access call = (s.takeID i word).setCall call (.created tid tid) := by
  unfold Loader.access
  rw [phase]
  dsimp only
  rw [← chosen, taskIdOf_small small]

theorem Sound.access (sound : Sound limit s) (small : limit ≤ 255) (call : Nat)
    (current : Current s (s.calls call)) : Sound limit (s.access call) := by
  have scanned := sound.scanned call
  cases phase : s.calls call with
  | drawing i =>
    unfold Loader.access
    rw [phase]
    dsimp only
    have before : ∀ k < limit, ¬Holds (s.calls call) k := holdsNone_of_phase phase fun _ => id
    rcases searchWord_cases s i (.taking i) (.drawing (i + 1)) (.drawn (taskIdOf (-1))) with
      ⟨_, ends⟩ | ⟨word, _, ⟨some_, goes⟩ | goes⟩
    · rw [ends]
      exact sound.setCall before (plain_drawn small)
    · rw [goes]
      exact sound.setCall before (plain_taking i some_)
    · rw [goes]
      exact sound.setCall before (plain_drawing (i + 1))
  | taking i word =>
    unfold Loader.access
    rw [phase] at current scanned ⊢
    dsimp only
    have below := ((sound.bits _).mp (bit_clz current scanned)).1
    rw [taskIdOf_small (by omega)]
    exact sound.take (holdsNone_of_phase phase fun _ => id) current scanned rfl
      (fun _ => Iff.rfl) nofun nofun rfl trivial
  | drawn nextId =>
    have holds : ∀ j, Holds (s.calls call) j ↔ j = nextId := fun j => by
      rw [phase]
      exact Iff.rfl
    unfold Loader.access
    rw [phase]
    dsimp only
    rcases sound.freeWord_cases nextId (.giving nextId) (Loader.choice nextId) with
      ⟨outside, goes⟩ | ⟨below, word, goes⟩
    · rw [goes]
      refine sound.setCall (fun j less held => ?_) (plain_choice nextId)
      have same := (holds j).mp held
      omega
    · rw [goes]
      exact sound.keep (fun j => (holds j).symm) below nofun nofun nofun
  | giving nextId word =>
    unfold Loader.access
    rw [phase] at current scanned ⊢
    exact sound.release scanned (fun j => by rw [phase]; exact Iff.rfl) current
      (plain_choice nextId)
  | constructing tid i =>
    unfold Loader.access
    rw [phase] at current ⊢
    dsimp only
    have before : ∀ k < limit, ¬Holds (s.calls call) k := holdsNone_of_phase phase fun _ => id
    rcases searchWord_cases s i (.naming tid i) (.constructing tid (i + 1))
      (.created tid (taskIdOf (-1))) with ⟨behind, _⟩ | ⟨word, _, ⟨some_, goes⟩ | goes⟩
    · exact absurd current (Nat.not_lt.mpr behind)
    · rw [goes]
      exact sound.setCall before (plain_naming tid i some_)
    · rw [goes]
      exact sound.setCall before (plain_constructing tid (i + 1))
  | naming tid i word =>
    rw [phase] at current scanned
    obtain ⟨read, chosen⟩ := current
    have below := ((sound.bits _).mp (bit_clz read scanned)).1
    rw [access_naming phase chosen (by omega)]
    exact sound.take (holdsNone_of_phase phase fun _ => id) read scanned chosen.symm
      (fun _ => Iff.rfl) (fun t id same => by cases same; rfl) nofun rfl trivial
  | removing tid =>
    have holds : ∀ j, Holds (s.calls call) j ↔ j = tid := fun j => by
      rw [phase]
      exact Iff.rfl
    unfold Loader.access
    rw [phase]
    dsimp only
    rcases sound.freeWord_cases tid (.leaving tid) .idle with
      ⟨outside, goes⟩ | ⟨below, word, goes⟩
    · rw [goes]
      refine sound.setCall (fun j less held => ?_) plain_idle
      have same := (holds j).mp held
      omega
    · rw [goes]
      exact sound.keep (fun j => (holds j).symm) below nofun nofun nofun
  | leaving tid word =>
    unfold Loader.access
    rw [phase] at current scanned ⊢
    exact sound.release scanned (fun j => by rw [phase]; exact Iff.rfl) current plain_idle
  | _ =>
    unfold Loader.access
    rw [phase]
    exact sound

theorem alignCeil_large {size : Nat} (some_ : alignCeil size 0x100000 ≠ 0) :
    0x100000 ≤ alignCeil size 0x100000 := by
  have multiple : 0x100000 ∣ alignCeil size 0x100000 :=
    dvd_alignFloor (k := 20) (size + (0x100000 - 1)) rfl (by decide)
  exact Nat.le_of_dvd (Nat.pos_of_ne_zero some_) multiple

/-- Pages that are taken with the mark of a free page stay free. -/
theorem take_mark {m : PageMap layout} (settled : m.Settled) {k j : Nat} (run : RunAt m.pages k j)
    (positive : 0 < k) : m.take 255 k j = m := by
  refine PageMap.update_eq_self fun i p entry => ?_
  split_ifs with within
  · obtain ⟨q, there, free⟩ := run i within.1 (by omega)
    rw [entry, Option.some.injEq] at there
    subst there
    rw [(settled p (List.mem_of_getElem? entry)).eq_unused free]
    rfl
  · rfl

theorem freeAll_mark {m : PageMap layout} (settled : m.Settled) : freeAll m 255 = m := by
  refine PageMap.update_eq_self fun i p entry => ?_
  split_ifs with free
  · exact ((settled p (List.mem_of_getElem? entry)).eq_unused free).symm
  · rfl

/-- Whole pages taken with the mark leave the map as it was. -/
theorem allocPhysical_mark {m m' : PageMap layout} (settled : m.Settled) {size a : Nat}
    (large : 0x100000 ≤ size) (result : allocPhysical m size 255 = some (m', a)) : m' = m := by
  have outcome := allocPhysical_outcome settled.blank size 255
  rw [result] at outcome
  cases outcome with
  | full _ _ => rfl
  | none _ _ => rfl
  | block small _ _ => omega
  | run _ free => exact take_mark settled free (wholePages_pos large)
  | short _ positive last => exact take_mark settled last.free positive

theorem settled_alloc {m m' : PageMap layout} (settled : m.Settled) {size pid a : Nat}
    (large : pid = 255 → 0x100000 ≤ size) (result : allocPhysical m size pid = some (m', a)) :
    m'.Settled := by
  by_cases mark : pid = 255
  · subst mark
    rw [allocPhysical_mark settled (large rfl) result]
    exact settled
  · exact settled.allocPhysical mark result

theorem Sound.allocate (sound : Sound limit s) (call taskSize : Nat)
    (large : s.calls call = .chosen 255 → 0x100000 ≤ taskSize) :
    Sound limit (s.allocate call taskSize) := by
  unfold Loader.allocate
  split
  · rename_i tid phase
    have before : ∀ k < limit, ¬Holds (s.calls call) k := holdsNone_of_phase phase fun _ => id
    rcases searchPhysical_cases s.pages taskSize tid with
      ⟨pages, taskStart, searched, result⟩ | ⟨areaStart, areaSize, searched, whole⟩
    · rw [searched]
      have settled := settled_alloc sound.settled (fun mark => large (by rw [phase, mark])) result
      exact (sound.withPages settled).setCall before (plain_answered tid taskStart)
    · rw [searched]
      exact sound.setCall before (plain_searched tid whole)
  · exact sound

/-- Pages that are free still are marked. -/
theorem Sound.mark (sound : Sound limit s) (call : Nat) (allowed : Allowed s (.mark call)) :
    Sound limit (s.mark call) := by
  unfold Loader.mark
  split
  · rename_i tid areaStart areaSize phase
    have area : (s.calls call).area = some (areaStart, areaSize) := by
      rw [phase]
      rfl
    obtain ⟨j, k, positive, run, marked⟩ :=
      markAsUsed_free (sound.found call _ _ area) (allowed _ _ area) tid
    rw [marked]
    exact (sound.withPages (sound.settled.take run positive)).setCall
      (holdsNone_of_phase phase fun _ => id) (plain_answered tid areaStart)
  · rename_i tid id areaStart areaSize phase
    have area : (s.calls call).area = some (areaStart, areaSize) := by
      rw [phase]
      rfl
    have made : (s.calls call).made = some (tid, id) := by
      rw [phase]
      rfl
    obtain ⟨j, k, positive, run, marked⟩ :=
      markAsUsed_free (sound.found call _ _ area) (allowed _ _ area) id
    rw [marked]
    exact (sound.withPages (sound.settled.take run positive)).goOn made rfl nofun
  · exact sound

theorem Sound.abandon (sound : Sound limit s) (before : ∀ k < limit, ¬Holds (s.calls call) k)
    (tid : Nat) (error : ErrorT) : Sound limit (s.abandon call tid error) :=
  (sound.withPages (sound.settled.freeAll tid)).setCall before (plain_failed error)

theorem Sound.read (sound : Sound limit s) (call : Nat) (error : ErrorT) :
    Sound limit (s.read call error) := by
  unfold Loader.read
  split
  · rename_i tid phase
    have before : ∀ k < limit, ¬Holds (s.calls call) k := fun k _ held => by
      rw [phase] at held
      exact held
    split_ifs
    · exact sound.abandon before tid error
    · exact sound.setCall before (plain_loaded tid)
  · exact sound

theorem Sound.check (sound : Sound limit s) (call : Nat) (error : ErrorT) :
    Sound limit (s.check call error) := by
  unfold Loader.check
  split
  · rename_i tid phase
    have before : ∀ k < limit, ¬Holds (s.calls call) k := fun k _ held => by
      rw [phase] at held
      exact held
    split_ifs
    · exact sound.abandon before tid error
    · exact sound.setCall before (plain_valid tid)
  · exact sound

theorem Sound.construct (sound : Sound limit s) (call : Nat) : Sound limit (s.construct call) := by
  unfold Loader.construct
  split
  · rename_i tid phase
    exact sound.setCall (holdsNone_of_phase phase fun _ => id) (plain_constructing tid 0)
  · exact sound

/-- The stack is the task's, whose id is no mark. -/
theorem Sound.allocateStack (sound : Sound limit s) (small : limit ≤ 255) (call stackSize : Nat) :
    Sound limit (s.allocateStack call stackSize) := by
  unfold Loader.allocateStack
  split
  · rename_i tid id phase
    have made : (s.calls call).made = some (tid, id) := by
      rw [phase]
      rfl
    have below := (sound.made call tid id made).2
    rcases searchPhysical_cases s.pages stackSize id with
      ⟨pages, a, searched, result⟩ | ⟨areaStart, areaSize, searched, whole⟩
    · rw [searched]
      have settled := sound.settled.allocPhysical (by omega : id ≠ 255) result
      exact (sound.withPages settled).goOn made rfl nofun
    · rw [searched]
      exact sound.goOn made rfl fun _ _ area => by cases area; exact whole
  · exact sound

/-- The id of a task made by a call goes from the call to the list. -/
theorem taken_announce {tid id : Nat} (phase : s.calls call = .equipped tid id) (k : Nat) :
    Taken ({ s with taskDatabase := s.taskDatabase ++ [id] }.setCall call (.finished tid id)) k ↔
      Taken s k := by
  unfold Taken
  change (k ∈ s.taskDatabase ++ [id] ∨ ∃ c, Holds (({ s with
    taskDatabase := s.taskDatabase ++ [id] }.setCall call (.finished tid id)).calls c) k) ↔ _
  constructor
  · rintro (listed | ⟨c, held⟩)
    · rcases List.mem_append.mp listed with old | new
      · exact .inl old
      · refine .inr ⟨call, ?_⟩
        rw [phase]
        exact List.mem_singleton.mp new
    · rw [setCall_calls] at held
      split_ifs at held
      · exact held.elim
      · exact .inr ⟨c, held⟩
  · rintro (listed | ⟨c, held⟩)
    · exact .inl (List.mem_append_left _ listed)
    · by_cases same : c = call
      · rw [same, phase] at held
        exact .inl (List.mem_append_right _ (List.mem_singleton.mpr held))
      · refine .inr ⟨c, ?_⟩
        rw [setCall_calls, if_neg same]
        exact held

theorem Sound.announce (sound : Sound limit s) (call : Nat) : Sound limit (s.announce call) := by
  unfold Loader.announce
  split
  · rename_i tid id phase
    obtain ⟨same, below⟩ := sound.made call tid id (by rw [phase]; rfl)
    have own : Holds (s.calls call) id := by
      rw [phase]
      exact rfl
    have apart := sound.apart call id below own
    refine ⟨sound.count, sound.words, fun k => ?_, ?_, fun k listed => ?_, fun c k small held => ?_,
      sound.scanned_setCall trivial, fun c t i made => ?_, fun c t i done => ?_,
      sound.found_setCall nofun, sound.settled⟩
    · rw [taken_announce phase]
      exact sound.bits k
    · change (s.taskDatabase ++ [id]).Nodup
      exact List.nodup_append.mpr ⟨sound.nodup, by simp, fun k old j new equal => apart.1
        (List.mem_singleton.mp new ▸ equal ▸ old)⟩
    · rcases List.mem_append.mp listed with old | new
      · exact sound.below k old
      · exact List.mem_singleton.mp new ▸ below
    · rw [setCall_calls] at held
      split_ifs at held with here
      · exact held.elim
      · have kept := sound.apart c k small held
        refine ⟨fun listed => ?_, fun c' held' => ?_⟩
        · rcases List.mem_append.mp listed with old | new
          · exact kept.1 old
          · obtain rfl := List.mem_singleton.mp new
            exact here (apart.2 c held)
        · rw [setCall_calls] at held'
          split_ifs at held'
          · exact held'.elim
          · exact kept.2 c' held'
    · rw [setCall_calls] at made
      split_ifs at made
      · cases made
      · exact sound.made c t i made
    · rw [setCall_calls] at done
      split_ifs at done
      · cases done
        exact ⟨same, below⟩
      · exact sound.finished c t i done
  · exact sound

/-- The id of a task goes from the list to the call that removes it. -/
theorem taken_remove {tid : Nat} (pages : PageMap layout) (phase : s.calls call = .idle)
    (nodup : s.taskDatabase.Nodup) (listed : tid ∈ s.taskDatabase) (k : Nat) :
    Taken ({ s with pages := pages, taskDatabase := s.taskDatabase.erase tid }.setCall call
      (.removing tid)) k ↔ Taken s k := by
  refine (taken_setCall fun held => ?_).trans ?_
  · change Holds (s.calls call) k at held
    rwa [phase] at held
  · change ((k ∈ s.taskDatabase.erase tid ∨ ∃ c, Holds (s.calls c) k) ∨ k = tid) ↔ _
    rw [nodup.mem_erase_iff]
    unfold Taken
    by_cases same : k = tid
    · simp [same, listed]
    · simp [same]

theorem Sound.remove (sound : Sound limit s) (call tid : Nat) :
    Sound limit (s.remove call tid) := by
  unfold Loader.remove
  split
  · rename_i phase
    split_ifs with listed
    · have kept : ∀ c k, k < limit → Holds (s.calls c) k → k ≠ tid := fun c k below held same =>
        (sound.apart c k below held).1 (same ▸ listed)
      refine ⟨sound.count, sound.words, fun k => ?_, sound.nodup.erase tid,
        fun k member => sound.below k (List.mem_of_mem_erase member), fun c k below held => ?_,
        sound.scanned_setCall trivial, fun c t i made => ?_, fun c t i done => ?_,
        sound.found_setCall nofun, sound.settled.freeAll tid⟩
      · rw [taken_remove _ phase sound.nodup listed]
        exact sound.bits k
      · rw [setCall_calls] at held
        split_ifs at held with here
        · obtain rfl : k = tid := held
          refine ⟨fun member => (sound.nodup.mem_erase_iff.mp member).1 rfl, fun c' held' => ?_⟩
          rw [setCall_calls] at held'
          split_ifs at held' with here'
          · exact here'.trans here.symm
          · exact absurd rfl (kept c' k below held')
        · refine ⟨fun member => (sound.apart c k below held).1 (List.mem_of_mem_erase member),
            fun c' held' => ?_⟩
          rw [setCall_calls] at held'
          split_ifs at held'
          · exact absurd held' (kept c k below held)
          · exact (sound.apart c k below held).2 c' held'
      · rw [setCall_calls] at made
        split_ifs at made
        · cases made
        · exact sound.made c t i made
      · rw [setCall_calls] at done
        split_ifs at done
        exact sound.finished c t i done
    · exact sound
  · exact sound

theorem Sound.step (sound : Sound limit s) (small : limit ≤ 255) (op : Loader.Op)
    (allowed : Allowed s op) : Sound limit (s.step stackSize op) := by
  cases op with
  | draw call => exact sound.draw call
  | access call => exact sound.access small call allowed
  | allocate call fileSize =>
    exact sound.allocate call _ fun phase => alignCeil_large (allowed phase)
  | mark call => exact sound.mark call allowed
  | read call error => exact sound.read call error
  | check call error => exact sound.check call error
  | construct call => exact sound.construct call
  | allocateStack call => exact sound.allocateStack small call stackSize
  | announce call => exact sound.announce call
  | remove call tid => exact sound.remove call tid

theorem Started.sound (started : Started limit s) : Sound limit s where
  count := started.count
  words := started.words
  bits k := by
    refine (started.bits k).trans (and_congr_right fun _ => not_congr ⟨.inl, ?_⟩)
    rintro (listed | ⟨c, held⟩)
    · exact listed
    · rw [started.idle c] at held
      exact held.elim
  nodup := started.nodup
  below := started.below
  apart c k _ held := by
    rw [started.idle c] at held
    exact held.elim
  scanned c := by
    rw [started.idle c]
    trivial
  made c tid id phase := by
    rw [started.idle c] at phase
    cases phase
  finished c tid id phase := by
    rw [started.idle c] at phase
    cases phase
  found c areaStart areaSize phase := by
    rw [started.idle c] at phase
    cases phase
  settled := started.settled

/-! ## Calls without an id -/

theorem Kept.refl (unnamed : Unnamed (s.calls call)) : Kept s s call :=
  ⟨rfl, rfl, rfl, .inl unnamed⟩

theorem kept_setCall (unnamed : Unnamed p ∨ ∃ error, p = .failed error) :
    Kept s (s.setCall call p) call := by
  refine ⟨rfl, rfl, rfl, ?_⟩
  rw [setCall_self]
  exact unnamed

theorem kept_withPages {pages : PageMap layout} (same : pages = s.pages)
    (unnamed : Unnamed p ∨ ∃ error, p = .failed error) :
    Kept s ({ s with pages := pages }.setCall call p) call := by
  subst same
  exact kept_setCall unnamed

/-- A call without an id has nothing to give back, and names no task, as no map offers the mark. -/
theorem kept_access (sound : Sound limit s) (small : limit ≤ 255)
    (current : Current s (s.calls call)) (unnamed : Unnamed (s.calls call) ∨
      ∃ i, s.calls call = .drawing i ∧ s.freeTaskIDs.map.length ≤ i) :
    Kept s (s.access call) call := by
  rcases unnamed with unnamed | ⟨i, phase, behind⟩
  · cases phase : s.calls call with
    | drawn nextId =>
      unfold Loader.access
      rw [phase] at unnamed ⊢
      obtain rfl : nextId = 255 := unnamed
      dsimp only
      rcases sound.freeWord_cases 255 (.giving 255) (Loader.choice 255) with
        ⟨_, goes⟩ | ⟨below, _⟩
      · rw [goes]
        exact kept_setCall (.inl rfl)
      · omega
    | constructing tid i =>
      unfold Loader.access
      rw [phase] at unnamed current ⊢
      dsimp only
      rcases searchWord_cases s i (.naming tid i) (.constructing tid (i + 1))
        (.created tid (taskIdOf (-1))) with ⟨behind, _⟩ | ⟨word, _, ⟨_, goes⟩ | goes⟩
      · exact absurd current (Nat.not_lt.mpr behind)
      · rw [goes]
        exact kept_setCall (.inl unnamed)
      · rw [goes]
        exact kept_setCall (.inl unnamed)
    | naming tid i word =>
      have scanned := sound.scanned call
      rw [phase] at unnamed current scanned
      obtain ⟨read, chosen⟩ := current
      have below := ((sound.bits tid).mp (chosen ▸ bit_clz read scanned)).1
      obtain rfl : tid = 255 := unnamed
      omega
    | drawing i =>
      rw [phase] at unnamed
      exact unnamed.elim
    | taking i word =>
      rw [phase] at unnamed
      exact unnamed.elim
    | giving nextId word =>
      rw [phase] at unnamed
      exact unnamed.elim
    | removing tid =>
      rw [phase] at unnamed
      exact unnamed.elim
    | leaving tid word =>
      rw [phase] at unnamed
      exact unnamed.elim
    | _ =>
      have unchanged : s.access call = s := by
        unfold Loader.access
        rw [phase]
      rw [unchanged]
      exact Kept.refl unnamed
  · unfold Loader.access
    rw [phase]
    dsimp only
    rcases searchWord_cases s i (.taking i) (.drawing (i + 1)) (.drawn (taskIdOf (-1))) with
      ⟨_, ends⟩ | ⟨word, read, _⟩
    · rw [ends]
      exact kept_setCall (.inl rfl)
    · exact absurd (List.getElem?_eq_some_iff.mp read).1 (Nat.not_lt.mpr behind)

theorem kept_answered {pages : PageMap layout} (same : pages = s.pages) (taskStart : Nat) :
    Kept s ({ s with pages := pages }.setCall call
      (if taskStart = 0 then .failed cError else .placed 255)) call := by
  refine kept_withPages same ?_
  split_ifs
  · exact .inr ⟨cError, rfl⟩
  · exact .inl rfl

theorem kept_allocate (sound : Sound limit s) {taskSize : Nat}
    (large : s.calls call = .chosen 255 → 0x100000 ≤ taskSize)
    (unnamed : Unnamed (s.calls call)) : Kept s (s.allocate call taskSize) call := by
  unfold Loader.allocate
  split
  · rename_i tid phase
    rw [phase] at unnamed
    cases unnamed
    rcases searchPhysical_cases s.pages taskSize 255 with
      ⟨pages, taskStart, searched, result⟩ | ⟨areaStart, areaSize, searched, _⟩
    · rw [searched]
      exact kept_answered (allocPhysical_mark sound.settled (large phase) result) taskStart
    · rw [searched]
      exact kept_setCall (.inl rfl)
  · exact Kept.refl unnamed

theorem kept_mark (sound : Sound limit s) (allowed : Allowed s (.mark call))
    (unnamed : Unnamed (s.calls call)) : Kept s (s.mark call) call := by
  unfold Loader.mark
  split
  · rename_i tid areaStart areaSize phase
    rw [phase] at unnamed
    cases unnamed
    have area : (s.calls call).area = some (areaStart, areaSize) := by
      rw [phase]
      rfl
    obtain ⟨j, k, positive, run, marked⟩ :=
      markAsUsed_free (sound.found call _ _ area) (allowed _ _ area) 255
    rw [marked]
    exact kept_answered (take_mark sound.settled run positive) areaStart
  · rename_i phase
    rw [phase] at unnamed
    exact unnamed.elim
  · exact Kept.refl unnamed

theorem kept_abandon (sound : Sound limit s) (error : ErrorT) :
    Kept s (s.abandon call 255 error) call :=
  kept_withPages (freeAll_mark sound.settled) (.inr ⟨error, rfl⟩)

theorem kept_read (sound : Sound limit s) (error : ErrorT) (unnamed : Unnamed (s.calls call)) :
    Kept s (s.read call error) call := by
  unfold Loader.read
  split
  · rename_i tid phase
    rw [phase] at unnamed
    cases unnamed
    split_ifs
    · exact kept_abandon sound error
    · exact kept_setCall (.inl rfl)
  · exact Kept.refl unnamed

theorem kept_check (sound : Sound limit s) (error : ErrorT) (unnamed : Unnamed (s.calls call)) :
    Kept s (s.check call error) call := by
  unfold Loader.check
  split
  · rename_i tid phase
    rw [phase] at unnamed
    cases unnamed
    split_ifs
    · exact kept_abandon sound error
    · exact kept_setCall (.inl rfl)
  · exact Kept.refl unnamed

theorem kept_construct (unnamed : Unnamed (s.calls call)) : Kept s (s.construct call) call := by
  unfold Loader.construct
  split
  · rename_i tid phase
    rw [phase] at unnamed
    exact kept_setCall (.inl unnamed)
  · exact Kept.refl unnamed

theorem kept_allocateStack (unnamed : Unnamed (s.calls call)) :
    Kept s (s.allocateStack call stackSize) call := by
  unfold Loader.allocateStack
  split
  · rename_i phase
    rw [phase] at unnamed
    exact unnamed.elim
  · exact Kept.refl unnamed

theorem kept_announce (unnamed : Unnamed (s.calls call)) : Kept s (s.announce call) call := by
  unfold Loader.announce
  split
  · rename_i phase
    rw [phase] at unnamed
    exact unnamed.elim
  · exact Kept.refl unnamed

theorem Sound.respected (sound : Sound limit s) (small : limit ≤ 255) :
    Respected limit stackSize s where
  nodup := sound.nodup
  below := sound.below
  named call tid id phase := by
    obtain ⟨same, below⟩ := sound.finished call tid id phase
    exact ⟨same, below, by omega⟩
  fresh call tid i word phase allowed := by
    have scanned := sound.scanned call
    change Current s (s.calls call) at allowed
    rw [phase] at allowed scanned
    obtain ⟨read, chosen⟩ := allowed
    obtain ⟨below, free⟩ := (sound.bits tid).mp (chosen ▸ bit_clz read scanned)
    rw [access_naming phase chosen (by omega), setCall_self]
    exact ⟨rfl, below, fun listed => free (.inl listed),
      fun c t made => free (.inr ⟨c, holds_made made⟩)⟩
  kept call op allowed without := by
    cases op with
    | draw c => exact without.elim
    | access c =>
      obtain ⟨rfl, unnamed⟩ := without
      exact kept_access sound small allowed unnamed
    | allocate c fileSize =>
      obtain ⟨rfl, unnamed⟩ := without
      exact kept_allocate sound (fun phase => alignCeil_large (allowed phase)) unnamed
    | mark c =>
      obtain ⟨rfl, unnamed⟩ := without
      exact kept_mark sound allowed unnamed
    | read c error =>
      obtain ⟨rfl, unnamed⟩ := without
      exact kept_read sound error unnamed
    | check c error =>
      obtain ⟨rfl, unnamed⟩ := without
      exact kept_check sound error unnamed
    | construct c =>
      obtain ⟨rfl, unnamed⟩ := without
      exact kept_construct unnamed
    | allocateStack c =>
      obtain ⟨rfl, unnamed⟩ := without
      exact kept_allocateStack unnamed
    | announce c =>
      obtain ⟨rfl, unnamed⟩ := without
      exact kept_announce unnamed
    | remove c tid => exact without.elim

/-- In every run whose constructors find the ids that their calls have chosen, in which a word of
the map of free ids is stored as it was read, and in which found pages are free still when they
are marked, ids of tasks are respected, and a call without an id changes nothing and makes no
task. -/
theorem ids_respected (small : limit ≤ 255) (started : Started limit s) (ops : List Loader.Op)
    (allowed : Admissible (fun s op => s.step stackSize op) Allowed s ops) :
    Respected limit stackSize (exec (fun s op => s.step stackSize op) s ops) := by
  have sound : Sound limit (exec (fun s op => s.step stackSize op) s ops) :=
    exec_invariant (Sound limit) (fun _ op sound allowed => sound.step small op allowed) ops s
      started.sound allowed
  exact sound.respected small

def fourPages : Layout :=
  ⟨0x100000, 4, Layout.onePage.isAligned, Layout.onePage.positive, by decide⟩

/-- Tasks with these ids, of sixteen. -/
def running (map : BitVec 32) (tasks : List Nat) : Loader fourPages where
  freeTaskIDs := ⟨16, [map]⟩
  pages := PageMap.allFree fourPages
  taskDatabase := tasks
  calls _ := .idle

theorem running_started {map : BitVec 32} {tasks : List Nat}
    (bits : ∀ k < 32, bit [map] k = true ↔ k < 16 ∧ k ∉ tasks) (nodup : tasks.Nodup)
    (below : ∀ id ∈ tasks, id < 16) : Started 16 (running map tasks) where
  count := rfl
  words := (by decide : 16 ≤ 1 * 32)
  bits k := by
    by_cases word : k < 32
    · exact bits k word
    · refine iff_of_false (fun set => ?_) fun both => by omega
      have inside := inside_of_bit set
      change k / 32 < 1 at inside
      omega
  nodup := nodup
  below := below
  idle _ := rfl
  settled := .allFree fourPages

/-- The accesses to a map of one word in `getIdOfNextCreatedTask`. -/
def drawOnce (call : Nat) : List Loader.Op := .draw call :: List.replicate 4 (.access call)

/-- What a call does with its id. -/
def loadOnce (call : Nat) : List Loader.Op :=
  [.allocate call 0x1000, .mark call, .read call 0, .check call 0, .construct call, .access call,
    .access call, .allocateStack call, .announce call]

/-- Only the kernel task is live. -/
theorem ids_respected_first :
    Respected 16 0x1000 (exec (fun s op => s.step 0x1000 op) (running 0x7fff0000 [0])
      (drawOnce 7 ++ loadOnce 7)) := by
  refine ids_respected (by decide) (running_started (by decide) (by decide) (by decide)) _
    ⟨trivial, trivial, rfl, trivial, rfl, fun phase => ?_, fun areaStart areaSize area => ?_,
      trivial, trivial, trivial, (by decide : 0 < 1), ⟨rfl, rfl⟩, trivial, trivial, trivial⟩
  · exact absurd phase (by decide)
  · have found : (0x100000, 0x100000) = (areaStart, areaSize) :=
      Option.some.inj ((by decide +kernel : some (0x100000, 0x100000) = _).trans area)
    cases found
    intro i _ high
    have first : i = 0 := by
      have bound : 0x100000 + i * 0x100000 < 0x100000 + 0x100000 := high
      omega
    subst first
    exact ⟨Page.unused, by decide +kernel, rfl⟩

/-- With sixteen tasks a call makes one with the mark of a free page as its id; of two calls that
draw one after the other, the second one's task has another id than it says; and two whose
constructors read the map at a time make tasks with the same id. -/
theorem ids_exhausted_and_shared :
    (Started 16 (running 0 (List.range 16)) ∧
      255 ∈ (exec (fun s op => s.step 0x1000 op) (running 0 (List.range 16))
        (drawOnce 0 ++ loadOnce 0)).taskDatabase) ∧
    (Started 16 (running 0x7fff0000 [0]) ∧
      (exec (fun s op => s.step 0x1000 op) (running 0x7fff0000 [0])
        (drawOnce 0 ++ drawOnce 1 ++ loadOnce 1 ++ loadOnce 0)).calls 0 = .finished 1 2) ∧
    (Started 16 (running 0x7fff0000 [0]) ∧
      (exec (fun s op => s.step 0x1000 op) (running 0x7fff0000 [0])
        (drawOnce 0 ++ drawOnce 1 ++ (loadOnce 1).take 6 ++ loadOnce 0 ++
          (loadOnce 1).drop 6)).taskDatabase = [0, 1, 1]) := by
  refine ⟨⟨running_started (by decide) (by decide) (by decide), ?_⟩,
    ⟨running_started (by decide) (by decide) (by decide), ?_⟩,
    ⟨running_started (by decide) (by decide) (by decide), ?_⟩⟩
  · decide +kernel
  · decide +kernel
  · decide +kernel

end Orcos.Guarantees.TaskLoading
