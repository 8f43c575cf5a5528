import Orcos.Guarantees.TaskArguments
import Orcos.Source.Tasks.FileLoading

/-!
# Starting the initial tasks

Source: src/source/process/TaskManager.cc, `TaskManager::initialize`.

`continue` leaves the pointer at an invalid entry, which is then visited in all rounds that are
left. The number of tasks and the counter have eight bits.
-/
namespace Orcos.Guarantees.InitialTasks
open Lib.ByteMemory Lib.Loop Source Source.Tasks Source.Hal Source.Hal.HatLayer Source.PagedRam
open ImageAreas TaskArguments

variable {layout : Layout}

variable {c : LoadConfig} {s s' : Startup layout} {t : InitTask} {entries : Nat → InitTask}
  {numTasks checks rounds k : Nat} {w last : Walk layout} {visited loaded : List Nat}

section Specification

variable (c : LoadConfig)

/-- Every entry visited in its order, with those that are loaded and what is left at the end. -/
def intended (checks : Nat) :
    Startup layout → List InitTask → Nat → Option (List Nat × Startup layout)
  | s, [], _ => some ([], s)
  | s, t :: later, k => (visit c s t checks).bind fun r =>
    (intended checks r.2 later (k + 1)).map fun done =>
      (if r.1 then k :: done.1 else done.1, done.2)

/-- The entries of the table. -/
def table (entries : Nat → InitTask) (tasktable : Nat) : List InitTask :=
  (List.range tasktable).map entries

/-- The call returns, it has visited every entry once, and loaded those that are valid. -/
def Right (s : Startup layout) (entries : Nat → InitTask) (tasktable : Nat) : Prop :=
  ∃ checks rounds w, taskManagerInitialize c s entries tasktable checks rounds = some w ∧
    (∀ k < tasktable, w.visited.count k = 1) ∧
    intended c checks s (table entries tasktable) 0 = some (w.loaded, w.startup)

/-- The image of an entry is valid. -/
def ValidEntry (s : Startup layout) (t : InitTask) : Prop :=
  ∃ checks, checkEntry c s t checks = some cOk

/-- The check of an entry ends, and the area of a valid one is in the page map. -/
def Returns (s : Startup layout) (t : InitTask) : Prop :=
  ∃ checks error, checkEntry c s t checks = some error ∧ (error = cOk → loadTask c s t ≠ none)

/-- All entries but the last one are valid when those before them are loaded. -/
def Clean : Startup layout → List InitTask → Prop
  | _, [] => True
  | s, t :: later => Returns c s t ∧
      (later = [] ∨ ValidEntry c s t ∧ Clean ((loadTask c s t).getD s) later)

end Specification

/-- More rounds of the check change nothing. -/
theorem checkEntry_mono {error : ErrorT} (ended : checkEntry c s t checks = some error)
    (more : Nat) (enough : checks ≤ more) : checkEntry c s t more = some error := by
  rw [checkEntry, checkValidTask] at ended ⊢
  split at ended
  · next refused => rw [if_pos refused, ended]
  · next passed =>
    rw [if_neg passed]
    exact loop_mono ended enough

theorem visit_valid (valid : checkEntry c s t checks = some cOk) :
    visit c s t checks = (loadTask c s t).map (Prod.mk true) := by
  rw [visit, valid, Option.bind_some, if_neg (by decide)]

theorem visit_loads (valid : checkEntry c s t checks = some cOk)
    (loads : loadTask c s t = some s') :
    visit c s t checks = some (true, s') := by
  rw [visit_valid valid, loads, Option.map_some]

theorem visit_cases {r : Bool × Startup layout} (result : visit c s t checks = some r) :
    Returns c s t ∧ (r.1 = true → ValidEntry c s t ∧ loadTask c s t = some r.2) := by
  rw [visit] at result
  obtain ⟨error, check, result⟩ := Option.bind_eq_some_iff.1 result
  by_cases valid : error = cOk
  · subst valid
    rw [if_neg (by decide)] at result
    obtain ⟨s', loads, same⟩ := Option.map_eq_some_iff.1 result
    cases same
    have goes : loadTask c s t ≠ none := by
      rw [loads]
      exact Option.some_ne_none _
    exact ⟨⟨checks, cOk, check, fun _ => goes⟩, fun _ => ⟨⟨checks, check⟩, loads⟩⟩
  · rw [if_pos valid] at result
    cases result
    exact ⟨⟨checks, error, check, fun ok => absurd ok valid⟩, fun loaded => by cases loaded⟩

/-- An entry whose check returns is visited. -/
theorem Returns.visit (returns : Returns c s t) :
    ∃ checks, ∀ more, checks ≤ more → ∃ r, visit c s t more = some r := by
  obtain ⟨checks, error, check, area⟩ := returns
  refine ⟨checks, fun more enough => ?_⟩
  have ended := checkEntry_mono check more enough
  by_cases valid : error = cOk
  · subst valid
    obtain ⟨s', loads⟩ := Option.ne_none_iff_exists'.1 (area rfl)
    exact ⟨_, visit_loads ended loads⟩
  · refine ⟨(false, dropTask c s t), ?_⟩
    rw [Tasks.visit, ended, Option.bind_some, if_pos valid]

/-! ## The loop -/

theorem next_i (w : Walk layout) (r : Bool × Startup layout) : (w.next r).i = (w.i + 1) % 2 ^ 8 :=
  rfl

theorem next_visited (w : Walk layout) (r : Bool × Startup layout) :
    (w.next r).visited = w.visited ++ [w.initTask] := rfl

theorem round_visit {r : Bool × Startup layout} (inside : w.i ≤ numTasks)
    (result : visit c w.startup (entries w.initTask) checks = some r) :
    initializeRound c entries numTasks checks w = .again (w.next r) := by
  rw [initializeRound, if_pos inside, result]
  rfl

theorem round_end (behind : numTasks < w.i) :
    initializeRound c entries numTasks checks w = .done (some w) := by
  rw [initializeRound, if_neg (by omega)]

/-- A round of a loop that returns visits its entry, or is the last one. -/
theorem round_of_result
    (result : loop (initializeRound c entries numTasks checks) rounds w = some (some last)) :
    numTasks < w.i ∧ last = w ∨ w.i ≤ numTasks ∧ ∃ rounds' r, rounds = rounds' + 1 ∧
      visit c w.startup (entries w.initTask) checks = some r ∧
        loop (initializeRound c entries numTasks checks) rounds' (w.next r) = some (some last) := by
  cases rounds with
  | zero => cases result
  | succ rounds =>
    by_cases inside : w.i ≤ numTasks
    · right
      refine ⟨inside, rounds, ?_⟩
      cases visited : visit c w.startup (entries w.initTask) checks with
      | none =>
        have stops : initializeRound c entries numTasks checks w = .done none := by
          rw [initializeRound, if_pos inside, visited]
          rfl
        rw [loop_done stops] at result
        cases result
      | some r =>
        rw [loop_again (round_visit inside visited)] at result
        exact ⟨r, rfl, rfl, result⟩
    · left
      rw [loop_done (round_end (Nat.lt_of_not_le inside))] at result
      cases result
      exact ⟨Nat.lt_of_not_le inside, rfl⟩

/-- What each round keeps holds at the end. -/
theorem result_keeps {inv : Walk layout → Prop}
    (step : ∀ w r, w.i ≤ numTasks → inv w → inv (w.next r))
    (result : loop (initializeRound c entries numTasks checks) rounds w = some (some last))
    (start : inv w) : inv last ∧ numTasks < last.i := by
  induction rounds generalizing w with
  | zero => cases result
  | succ rounds ih =>
    rcases round_of_result result with ⟨behind, same⟩ | ⟨inside, rounds', r, more, _, later⟩
    · rw [same]
      exact ⟨start, behind⟩
    · cases more
      exact ih later (step w r inside start)

/-- What was visited before is visited at the end. -/
theorem count_le (k : Nat)
    (result : loop (initializeRound c entries numTasks checks) rounds w = some (some last)) :
    w.visited.count k ≤ last.visited.count k := by
  have kept : ∀ (x : Walk layout) (r : Bool × Startup layout), x.i ≤ numTasks →
      w.visited.count k ≤ x.visited.count k → w.visited.count k ≤ (x.next r).visited.count k := by
    intro x r _ before
    rw [next_visited, List.count_append]
    exact Nat.le_add_right_of_le before
  exact (result_keeps kept result (Nat.le_refl _)).1

/-- The variable `i` has eight bits: the loop does not end for 255 tasks. -/
theorem tasks_lt (small : w.i < 2 ^ 8)
    (result : loop (initializeRound c entries numTasks checks) rounds w = some (some last)) :
    numTasks < 255 := by
  have kept : ∀ (x : Walk layout) (r : Bool × Startup layout), x.i ≤ numTasks →
      x.i < 2 ^ 8 → (x.next r).i < 2 ^ 8 := fun x r _ _ => Nat.mod_lt _ (by decide)
  obtain ⟨final, behind⟩ := result_keeps kept result small
  omega

/-- There is one visit for each task. -/
theorem visited_length (few : numTasks < 255) (first : w.visited.length + 1 = w.i)
    (room : w.i ≤ numTasks + 1)
    (result : loop (initializeRound c entries numTasks checks) rounds w = some (some last)) :
    last.visited.length = numTasks := by
  have kept : ∀ (x : Walk layout) (r : Bool × Startup layout), x.i ≤ numTasks →
      (x.visited.length + 1 = x.i ∧ x.i ≤ numTasks + 1) →
      (x.next r).visited.length + 1 = (x.next r).i ∧ (x.next r).i ≤ numTasks + 1 := by
    intro x r inside before
    have next : (x.i + 1) % 2 ^ 8 = x.i + 1 := Nat.mod_eq_of_lt (by omega)
    rw [next_visited, List.length_append, List.length_singleton, next_i, next]
    omega
  obtain ⟨⟨count, final⟩, behind⟩ := result_keeps kept result ⟨first, room⟩
  omega

/-- Numbers below `n` that are all in a list make it so long. -/
theorem le_length {n : Nat} {l : List Nat} (once : ∀ k < n, l.count k = 1) : n ≤ l.length := by
  have inside : List.range n ⊆ l := fun k member =>
    List.count_pos_iff.1 (by rw [once k (List.mem_range.1 member)]; decide)
  have short := (List.subperm_of_subset List.nodup_range inside).length_le
  rwa [List.length_range] at short

/-- An entry that is not loaded is visited again, unless it was the last one. -/
theorem clean_of_once {later : List InitTask} (few : numTasks < 255)
    (counted : w.i = k + 1) (here : w.initTask = k) (rest : k + later.length = numTasks)
    (entry : ∀ j (inside : j < later.length), entries (k + j) = later[j])
    (result : loop (initializeRound c entries numTasks checks) rounds w = some (some last))
    (once : ∀ j < numTasks, last.visited.count j = 1) : Clean c w.startup later := by
  induction later generalizing w k rounds with
  | nil => trivial
  | cons t later ih =>
    rw [List.length_cons] at rest
    rcases round_of_result result with ⟨behind, _⟩ | ⟨inside, rounds', r, _, visited, next⟩
    · omega
    have this : entries k = t := entry 0 (Nat.succ_pos _)
    rw [here, this] at visited
    obtain ⟨returns, loads⟩ := visit_cases visited
    refine ⟨returns, ?_⟩
    cases later with
    | nil => exact .inl rfl
    | cons t' later =>
      right
      rw [List.length_cons] at rest
      have small : (w.i + 1) % 2 ^ 8 = k + 2 := by
        rw [counted]
        exact Nat.mod_eq_of_lt (by omega)
      cases valid : r.1 with
      | true =>
        obtain ⟨sound, state⟩ := loads valid
        refine ⟨sound, ?_⟩
        rw [state, Option.getD_some]
        have at_ : (w.next r).initTask = k + 1 := by rw [Walk.next, valid, if_pos rfl, here]
        refine ih (w := w.next r) small at_ (by rw [List.length_cons]; omega) ?_ next
        intro j below
        have follows := entry (j + 1) (Nat.succ_lt_succ below)
        rw [List.getElem_cons_succ, ← Nat.add_assoc, Nat.add_right_comm] at follows
        exact follows
      | false =>
        have stays : (w.next r).initTask = k := by
          rw [Walk.next, valid, if_neg (by decide), here]
        rcases round_of_result next with ⟨behind, _⟩ | ⟨_, rounds'', r', _, again, further⟩
        · rw [next_i, small] at behind
          omega
        · have twice := count_le k further
          rw [once k (by omega), next_visited, List.count_append, stays, next_visited,
            List.count_append, here] at twice
          simp at twice

/-- From a walk at the first of these entries the loop visits each of them once, and loads the
valid ones. -/
def Completes (c : LoadConfig) (entries : Nat → InitTask) (numTasks checks : Nat) (w : Walk layout)
    (later : List InitTask) (k : Nat) : Prop :=
  ∃ last new, loop (initializeRound c entries numTasks checks) (later.length + 1) w =
      some (some last) ∧
    last.visited = w.visited ++ List.range' k later.length ∧
    intended c checks w.startup later k = some (new, last.startup) ∧ last.loaded = w.loaded ++ new

theorem completes_nil (behind : numTasks < w.i) : Completes c entries numTasks checks w [] k := by
  refine ⟨w, [], loop_done (round_end behind), ?_, rfl, ?_⟩
  · exact (List.append_nil _).symm
  · exact (List.append_nil _).symm

theorem completes_cons (w : Walk layout) {r : Bool × Startup layout} {later : List InitTask}
    (inside : w.i ≤ numTasks) (here : w.initTask = k) (entry : entries k = t)
    (visited : visit c w.startup t checks = some r)
    (next : Completes c entries numTasks checks (w.next r) later (k + 1)) :
    Completes c entries numTasks checks w (t :: later) k := by
  obtain ⟨last, new, result, all, tasks, loads⟩ := next
  refine ⟨last, if r.1 then k :: new else new, ?_, ?_, ?_, ?_⟩
  · rw [← entry, ← here] at visited
    rw [List.length_cons, loop_again (round_visit inside visited)]
    exact result
  · rw [all, next_visited, here, List.append_assoc, List.length_cons, List.range'_succ]
    rfl
  · have later_ : intended c checks r.2 later (k + 1) = some (new, last.startup) := tasks
    rw [intended, visited, Option.bind_some, later_, Option.map_some]
  · rw [loads, Walk.next, here]
    dsimp only
    cases r.1 with
    | true => simp only [if_true, List.append_assoc, List.singleton_append]
    | false => simp only [Bool.false_eq_true, if_false]

theorem run_of_clean {later : List InitTask} (few : numTasks < 255) {s : Startup layout}
    (rest : k + later.length = numTasks)
    (entry : ∀ j (inside : j < later.length), entries (k + j) = later[j])
    (clean : Clean c s later) :
    ∃ checks, ∀ more, checks ≤ more → ∀ visited loaded,
      Completes c entries numTasks more ⟨k + 1, k, s, visited, loaded⟩ later k := by
  induction later generalizing k s with
  | nil => exact ⟨0, fun _ _ _ _ => completes_nil (Nat.lt_succ_of_le (Nat.le_of_eq rest.symm))⟩
  | cons t later ih =>
    rw [List.length_cons] at rest
    have this : entries k = t := entry 0 (Nat.succ_pos _)
    have small : (k + 1 + 1) % 2 ^ 8 = k + 1 + 1 := Nat.mod_eq_of_lt (by omega)
    obtain ⟨returns, onward⟩ := clean
    obtain ⟨checks, ends⟩ := returns.visit
    rcases onward with empty | ⟨valid, clean⟩
    · subst empty
      refine ⟨checks, fun more enough visited loaded => ?_⟩
      obtain ⟨r, result⟩ := ends more enough
      apply completes_cons ⟨k + 1, k, s, visited, loaded⟩ (by dsimp only; omega) rfl this result
      apply completes_nil
      rw [List.length_nil] at rest
      rw [next_i, small]
      omega
    · have follows : ∀ j (inside : j < later.length), entries (k + 1 + j) = later[j] := by
        intro j below
        have there := entry (j + 1) (Nat.succ_lt_succ below)
        rw [List.getElem_cons_succ, ← Nat.add_assoc, Nat.add_right_comm] at there
        exact there
      obtain ⟨checks', known⟩ := valid
      obtain ⟨checks'', completes⟩ := ih (by omega) follows clean
      refine ⟨max checks (max checks' checks''), fun more enough visited loaded => ?_⟩
      obtain ⟨r, result⟩ := ends more (by omega)
      have same := checkEntry_mono known more (by omega)
      rw [visit_valid same] at result
      obtain ⟨s', loads, equal⟩ := Option.map_eq_some_iff.1 result
      rw [loads, Option.getD_some] at completes
      apply completes_cons ⟨k + 1, k, s, visited, loaded⟩ (by dsimp only; omega) rfl this
        (visit_loads same loads)
      rw [Walk.next, small]
      exact completes more (by omega) _ _

theorem table_entry (entries : Nat → InitTask) (tasktable : Nat) :
    ∀ j (inside : j < (table entries tasktable).length),
      entries (0 + j) = (table entries tasktable)[j] := by
  intro j inside
  simp only [table, List.getElem_map, List.getElem_range, Nat.zero_add]

theorem table_length (entries : Nat → InitTask) (tasktable : Nat) :
    (table entries tasktable).length = tasktable := by
  rw [table, List.length_map, List.length_range]

theorem clean_of_right {tasktable : Nat} (right : Right c s entries tasktable) :
    tasktable < 255 ∧ Clean c s (table entries tasktable) := by
  obtain ⟨checks, rounds, last, result, once, _⟩ := right
  have ended := Option.join_eq_some_iff.1 result
  have few := tasks_lt (by decide : 1 < 2 ^ 8) ended
  have visits := visited_length few rfl (Nat.le_add_left 1 _) ended
  have all := le_length once
  have count : tasktable % 2 ^ 8 = tasktable := by omega
  rw [count] at ended few
  refine ⟨few, ?_⟩
  apply clean_of_once few rfl rfl _ (table_entry entries tasktable) ended once
  rw [table_length, Nat.zero_add]

/-- The valid image of a task, in a memory that has nothing else. -/
def startup : Startup .twoPages where
  memory := copyInto (wordsAt 0 []) 0x200000 image
  hat := blank 0#32 0x80100000
  pages := .allFree .twoPages
  freeTaskIDs := .fresh 0#32 maxNumTasks
  taskDatabase := []

/-- An entry without an image, and one for the image. -/
def twoEntries (k : Nat) : InitTask where
  tasktable := if k = 0 then 0x100000 else 0x200000
  size := 0x100000
  name := none
  arguments := none
  stackMappings := []

end Orcos.Guarantees.InitialTasks
