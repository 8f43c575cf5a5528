import Orcos.Lib.Runs
import Orcos.Source.Tasks.Loading

/-!
# Ids of tasks and threads are unique

Source: src/source/process/Thread.cc, `Thread::Thread`; src/source/process/Task.cc,
`Task::Task`; src/source/inc/Bitmap.hh, `IDMap`.

A constructor that finds no free id stores what is left of -1 in its narrower field, and
goes on. As long as this does not happen, the ids of live objects are different and below
their limit.
-/
namespace Orcos.Guarantees.UniqueIds
open Lib.Runs Lib.WordBits Source Source.Tasks

variable {ids : Nat} {m : IDMap} {held rest : List Nat} {s : Ids}

/-! ## A map and the ids that were taken from it -/

/-- The ids in `held` are different ids of the map, and the map does not offer them. -/
structure Holds (ids : Nat) (m : IDMap) (held : List Nat) : Prop where
  count : m.ids = ids
  words : ids ≤ m.map.length * 32
  offered : ∀ k, bit m.map k = true → k < ids
  known : ∀ id ∈ held, id < ids
  used : ∀ id ∈ held, bit m.map id = false
  distinct : held.Nodup

/-- The map has a free id. -/
def Offers (m : IDMap) : Prop := ∃ k, bit m.map k = true

theorem Holds.perm (holds : Holds ids m held) (same : held.Perm rest) : Holds ids m rest where
  count := holds.count
  words := holds.words
  offered := holds.offered
  known id member := holds.known id (same.mem_iff.mpr member)
  used id member := holds.used id (same.mem_iff.mpr member)
  distinct := same.nodup_iff.mp holds.distinct

/-- A free id is taken. -/
theorem Holds.draw (holds : Holds ids m held) (offers : Offers m) :
    ∃ k < ids, m.getNextID.2 = (k : Int) ∧ Holds ids m.getNextID.1 (k :: held) := by
  obtain ⟨free, isFree⟩ := offers
  cases first : firstSet m.map with
  | none =>
    rw [firstSet_eq_none first free] at isFree
    cases isFree
  | some k =>
    have set := (firstSet_eq_some first).1
    have below := holds.offered k set
    have within : k / 32 < m.map.length := by
      have := holds.words
      omega
    rw [IDMap.getNextID_some first]
    refine ⟨k, below, rfl, holds.count, ?_, fun j isSet => ?_, ?_, fun id member => ?_, ?_⟩
    · rw [clearBit_length]
      exact holds.words
    · rw [bit_clearBit within] at isSet
      exact holds.offered j (Bool.and_eq_true _ _ ▸ isSet).2
    · intro id member
      rcases List.mem_cons.mp member with rfl | old
      · exact below
      · exact holds.known id old
    · rw [bit_clearBit within]
      rcases List.mem_cons.mp member with rfl | old
      · simp
      · rw [holds.used id old, Bool.and_false]
    · rw [List.nodup_cons]
      refine ⟨fun old => ?_, holds.distinct⟩
      rw [holds.used k old] at set
      cases set

theorem getNextID_exhausted (none_ : ¬ Offers m) : m.getNextID = (m, -1) := by
  apply IDMap.getNextID_none
  cases first : firstSet m.map with
  | none => rfl
  | some k => exact absurd ⟨k, (firstSet_eq_some first).1⟩ none_

/-- A held id is given back. -/
theorem Holds.give {id : Nat} (holds : Holds ids m (id :: rest)) :
    Holds ids (giveBackID m id) rest := by
  have below := holds.known id List.mem_cons_self
  have within : id / 32 < m.map.length := by
    have := holds.words
    omega
  have fresh := (List.nodup_cons.mp holds.distinct).1
  rw [giveBackID, IDMap.freeID_eq m (by rw [holds.count]; exact below), Option.getD_some]
  refine ⟨holds.count, ?_, fun k set => ?_,
    fun other member => holds.known other (List.mem_cons_of_mem id member),
    fun other member => ?_, (List.nodup_cons.mp holds.distinct).2⟩
  · rw [setBit_length]
    exact holds.words
  · rw [bit_setBit within] at set
    by_cases same : k = id
    · rw [same]
      exact below
    · simp [same] at set
      exact holds.offered k set
  · have different : other ≠ id := fun same => fresh (same ▸ member)
    rw [bit_setBit within, holds.used other (List.mem_cons_of_mem id member)]
    simp [different]

/-- The ids of several threads are given back, one after the other. -/
theorem Holds.giveAll (given : List Nat) {m : IDMap} (holds : Holds ids m (given ++ rest)) :
    Holds ids (given.foldl giveBackID m) rest := by
  induction given generalizing m with
  | nil => exact holds
  | cons id given ih => exact ih holds.give

/-- An id that the map does not know is not given back. -/
theorem giveBackID_unknown {id : Nat} (holds : Holds ids m held) (unknown : ids ≤ id) :
    giveBackID m id = m := by
  have beyond : (id : Int) ≥ m.ids := by
    rw [holds.count]
    exact Int.ofNat_le.mpr unknown
  rw [giveBackID, IDMap.freeID, if_pos beyond, Option.getD_some]

theorem holds_fresh (beyond : BitVec 32) (positive : 0 < ids) :
    Holds ids (.fresh beyond ids) [] where
  count := rfl
  words := by
    simp only [IDMap.fresh, List.length_modify, List.length_replicate, IDMap.ceiling]
    omega
  offered k set := by
    by_cases isPartial : ids % 32 = 0
    · rw [IDMap.fresh_bit_full beyond positive isPartial] at set
      exact of_decide_eq_true (Bool.and_eq_true _ _ ▸ set).1
    · rw [IDMap.fresh_bit_remainder beyond positive isPartial] at set
      exact of_decide_eq_true set
  known _ member := absurd member List.not_mem_nil
  used _ member := absurd member List.not_mem_nil
  distinct := List.nodup_nil

/-! ## Runs -/

/-- The live tasks have different ids below their limit, and so have the live threads. -/
structure Proper (s : Ids) : Prop where
  taskIds : s.taskIds.Nodup
  threadIds : s.threadIds.Nodup
  tasksBelow : ∀ id ∈ s.taskIds, id < maxNumTasks
  threadsBelow : ∀ id ∈ s.threadIds, id < maxNumThreads

/-- A creation finds a free id. -/
def FindsIds (s : Ids) : Ids.Op → Prop
  | .createKernelTask => Offers s.freeTaskIDs
  | .createTask => Offers s.freeTaskIDs ∧ Offers s.freeIDMap
  | .createThread task => task < s.tasks.length → Offers s.freeIDMap
  | _ => True

/-- The ids of `getIdOfNextCreatedTask` that the map knows. -/
def pending (s : Ids) : List Nat := s.drawn.filter (· < maxNumTasks)

structure Sound (s : Ids) : Prop where
  threads : Holds maxNumThreads s.freeIDMap s.threadIds
  tasks : Holds maxNumTasks s.freeTaskIDs (s.taskIds ++ pending s)

theorem Sound.proper (sound : Sound s) : Proper s where
  taskIds := (List.nodup_append.mp sound.tasks.distinct).1
  threadIds := sound.threads.distinct
  tasksBelow id member := sound.tasks.known id (List.mem_append_left _ member)
  threadsBelow id member := sound.threads.known id member

theorem sound_start (beyond : BitVec 32) : Sound (.start beyond) where
  threads := holds_fresh beyond (by decide)
  tasks := holds_fresh beyond (by decide)

theorem taskIdOf_known {k : Nat} (below : k < maxNumTasks) : taskIdOf (k : Int) = k := by
  unfold taskIdOf
  unfold maxNumTasks at below
  omega

theorem threadIdOf_known {k : Nat} (below : k < maxNumThreads) : threadIdOf (k : Int) = k := by
  unfold threadIdOf
  unfold maxNumThreads at below
  omega

theorem Sound.createKernelTask (sound : Sound s) (offers : Offers s.freeTaskIDs) :
    Sound s.createKernelTask := by
  obtain ⟨k, below, answer, holds⟩ := sound.tasks.draw offers
  unfold Ids.createKernelTask
  rw [answer, taskIdOf_known below]
  refine ⟨?_, ?_⟩
  · have same : Ids.threadIds { s with
        freeTaskIDs := s.freeTaskIDs.getNextID.1, tasks := s.tasks ++ [⟨k, []⟩] } =
        s.threadIds := by
      simp [Ids.threadIds]
    rw [same]
    exact sound.threads
  · apply holds.perm
    have ids : Ids.taskIds { s with
        freeTaskIDs := s.freeTaskIDs.getNextID.1, tasks := s.tasks ++ [⟨k, []⟩] } =
        s.taskIds ++ [k] := by
      simp [Ids.taskIds]
    rw [ids, List.append_assoc]
    exact List.perm_middle.symm

/-- The ids of the threads and of the tasks when one task is replaced. -/
theorem threadIds_set {task : Nat} {t : LiveTask} (here : s.tasks[task]? = some t)
    (t' : LiveTask) :
    ((s.tasks.set task t').flatMap LiveTask.threads).Perm
        (t'.threads ++ (s.tasks.eraseIdx task).flatMap LiveTask.threads) ∧
      s.threadIds.Perm (t.threads ++ (s.tasks.eraseIdx task).flatMap LiveTask.threads) := by
  obtain ⟨inside, rfl⟩ := List.getElem?_eq_some_iff.mp here
  constructor
  · exact (List.set_perm_cons_eraseIdx inside t').flatMap_right LiveTask.threads
  · exact (List.getElem_cons_eraseIdx_perm inside).symm.flatMap_right LiveTask.threads

theorem taskIds_set {task : Nat} {t : LiveTask} (here : s.tasks[task]? = some t)
    (threads : List Nat) :
    (s.tasks.set task { t with threads := threads }).map LiveTask.id = s.taskIds := by
  have inside := (List.getElem?_eq_some_iff.mp here).1
  apply List.ext_getElem?
  intro i
  rw [Ids.taskIds, List.getElem?_map, List.getElem?_map, List.getElem?_set]
  by_cases same : task = i
  · subst same
    rw [if_pos rfl, if_pos inside, here]
    rfl
  · rw [if_neg same]

theorem Sound.createThread (sound : Sound s) (task : Nat)
    (offers : task < s.tasks.length → Offers s.freeIDMap) : Sound (s.createThread task) := by
  unfold Ids.createThread
  cases here : s.tasks[task]? with
  | none => exact sound
  | some t =>
    have inside := (List.getElem?_eq_some_iff.mp here).1
    obtain ⟨k, below, answer, holds⟩ := sound.threads.draw (offers inside)
    dsimp only
    rw [answer, threadIdOf_known below]
    refine ⟨holds.perm ?_, ?_⟩
    · obtain ⟨new, old⟩ := threadIds_set here { t with threads := t.threads ++ [k] }
      refine (old.cons k).trans (List.Perm.trans ?_ new.symm)
      rw [List.append_assoc]
      exact List.perm_middle.symm
    · have same := taskIds_set here (t.threads ++ [k])
      unfold Ids.taskIds at same ⊢
      dsimp only
      rw [same]
      exact sound.tasks

theorem Sound.createTask (sound : Sound s) (offers : Offers s.freeTaskIDs)
    (more : Offers s.freeIDMap) : Sound s.createTask :=
  (sound.createKernelTask offers).createThread _ fun _ => more

theorem Sound.removeTask (sound : Sound s) (task : Nat) : Sound (s.removeTask task) := by
  unfold Ids.removeTask
  cases here : s.tasks[task]? with
  | none => exact sound
  | some t =>
    obtain ⟨inside, rfl⟩ := List.getElem?_eq_some_iff.mp here
    have perm := (List.getElem_cons_eraseIdx_perm inside).symm
    refine ⟨?_, ?_⟩
    · exact Holds.giveAll _ (sound.threads.perm (perm.flatMap_right LiveTask.threads))
    · exact (sound.tasks.perm ((perm.map LiveTask.id).append_right _)).give

theorem Sound.removeThread (sound : Sound s) {task thread id : Nat} {t : LiveTask}
    (here : s.tasks[task]? = some t) (there : t.threads[thread]? = some id) :
    Sound (s.removeThread task t thread id) := by
  obtain ⟨within, rfl⟩ := List.getElem?_eq_some_iff.mp there
  obtain ⟨new, old⟩ :=
    threadIds_set here { t with threads := t.threads.eraseIdx thread }
  unfold Ids.removeThread
  refine ⟨?_, ?_⟩
  · have leaving := (List.getElem_cons_eraseIdx_perm within).symm
    have split := old.trans (leaving.append_right _)
    exact (sound.threads.perm split).give.perm new.symm
  · have same := taskIds_set here (t.threads.eraseIdx thread)
    unfold Ids.taskIds at same ⊢
    dsimp only
    rw [same]
    exact sound.tasks

theorem Sound.terminateThread (sound : Sound s) (task thread : Nat) :
    Sound (s.terminateThread task thread) := by
  unfold Ids.terminateThread
  cases here : s.tasks[task]? with
  | none => exact sound
  | some t =>
    dsimp only
    cases there : t.threads[thread]? with
    | none => exact sound
    | some id =>
      have left := sound.removeThread here there
      dsimp only
      split_ifs
      · exact left.removeTask task
      · exact left

theorem Sound.draw (sound : Sound s) : Sound s.draw := by
  unfold Ids.draw
  refine ⟨sound.threads, ?_⟩
  by_cases offers : Offers s.freeTaskIDs
  · obtain ⟨k, below, answer, holds⟩ := sound.tasks.draw offers
    rw [answer, taskIdOf_known below]
    apply holds.perm
    have more : pending { s with
        freeTaskIDs := s.freeTaskIDs.getNextID.1, drawn := s.drawn ++ [k] } =
        pending s ++ [k] := by
      simp [pending, below]
    rw [more, ← List.append_assoc]
    exact (List.perm_append_singleton k _).symm
  · have more : pending { s with
        freeTaskIDs := s.freeTaskIDs.getNextID.1
        drawn := s.drawn ++ [taskIdOf s.freeTaskIDs.getNextID.2] } = pending s := by
      rw [getNextID_exhausted offers]
      simp [pending, taskIdOf, maxNumTasks]
    rw [more, getNextID_exhausted offers]
    exact sound.tasks

theorem Sound.giveBack (sound : Sound s) (i : Nat) : Sound (s.giveBack i) := by
  unfold Ids.giveBack
  cases here : s.drawn[i]? with
  | none => exact sound
  | some id =>
    obtain ⟨inside, rfl⟩ := List.getElem?_eq_some_iff.mp here
    have perm := (List.getElem_cons_eraseIdx_perm inside).symm.filter (· < maxNumTasks)
    refine ⟨sound.threads, ?_⟩
    have tasks := sound.tasks.perm (perm.append_left s.taskIds)
    by_cases known : s.drawn[i] < maxNumTasks
    · rw [List.filter_cons_of_pos (by simpa using known)] at tasks
      exact (tasks.perm List.perm_middle).give
    · rw [List.filter_cons_of_neg (by simpa using known)] at tasks
      dsimp only
      rw [giveBackID_unknown tasks (Nat.le_of_not_lt known)]
      exact tasks

theorem Sound.step (sound : Sound s) (op : Ids.Op) (finds : FindsIds s op) :
    Sound (s.step op) := by
  cases op with
  | createKernelTask => exact sound.createKernelTask finds
  | createTask => exact sound.createTask finds.1 finds.2
  | createThread task => exact sound.createThread task finds
  | terminateThread task thread => exact sound.terminateThread task thread
  | removeTask task => exact sound.removeTask task
  | draw => exact sound.draw
  | giveBack i => exact sound.giveBack i

/-! ## A creation without a free id -/

theorem createKernelTask_exhausted (none_ : ¬ Offers s.freeTaskIDs) :
    255 ∈ s.createKernelTask.taskIds := by
  unfold Ids.createKernelTask Ids.taskIds
  rw [getNextID_exhausted none_]
  simp [taskIdOf]

theorem createThread_taskIds (s : Ids) (task : Nat) :
    (s.createThread task).taskIds = s.taskIds := by
  unfold Ids.createThread
  cases here : s.tasks[task]? with
  | none => rfl
  | some t => exact taskIds_set here _

theorem createThread_exhausted {task : Nat} (inside : task < s.tasks.length)
    (none_ : ¬ Offers s.freeIDMap) : 65535 ∈ (s.createThread task).threadIds := by
  unfold Ids.createThread
  rw [List.getElem?_eq_getElem inside, getNextID_exhausted none_]
  apply List.mem_flatMap.mpr
  refine ⟨_, List.mem_set inside _, ?_⟩
  exact List.mem_append_right _ (List.mem_singleton.mpr rfl)

/-- It leaves an object with an id that is no id. -/
theorem exhausted_improper {op : Ids.Op} (none_ : ¬ FindsIds s op) : ¬ Proper (s.step op) := by
  intro proper
  cases op with
  | createKernelTask =>
    exact absurd (proper.tasksBelow 255 (createKernelTask_exhausted none_)) (by decide)
  | createTask =>
    by_cases offers : Offers s.freeTaskIDs
    · have full : ¬ Offers s.createKernelTask.freeIDMap := fun more => none_ ⟨offers, more⟩
      have inside : s.tasks.length < s.createKernelTask.tasks.length := by
        simp [Ids.createKernelTask]
      exact absurd (proper.threadsBelow 65535 (createThread_exhausted inside full)) (by decide)
    · have member : 255 ∈ s.createTask.taskIds := by
        unfold Ids.createTask
        rw [createThread_taskIds]
        exact createKernelTask_exhausted offers
      exact absurd (proper.tasksBelow 255 member) (by decide)
  | createThread task =>
    obtain ⟨inside, full⟩ := Classical.not_imp.mp none_
    exact absurd (proper.threadsBelow 65535 (createThread_exhausted inside full)) (by decide)
  | terminateThread task thread => exact none_ trivial
  | removeTask task => exact none_ trivial
  | draw => exact none_ trivial
  | giveBack i => exact none_ trivial

/-- All states of a run have proper ids exactly if every creation finds a free id. -/
theorem ids_proper_iff (beyond : BitVec 32) (ops : List Ids.Op) :
    (∀ before after, ops = before ++ after → Proper (exec Ids.step (.start beyond) before)) ↔
      Admissible Ids.step FindsIds (.start beyond) ops := by
  have general (s : Ids) (sound : Sound s) :
      (∀ before after, ops = before ++ after → Proper (exec Ids.step s before)) ↔
        Admissible Ids.step FindsIds s ops := by
    induction ops generalizing s with
    | nil =>
      apply iff_of_true
      · intro before after split
        rw [(List.append_eq_nil_iff.mp split.symm).1]
        exact sound.proper
      · trivial
    | cons op ops ih =>
      constructor
      · intro proper
        have finds : FindsIds s op := by
          by_contra none_
          exact exhausted_improper none_ (proper [op] ops rfl)
        refine ⟨finds, (ih _ (sound.step op finds)).mp fun before after split => ?_⟩
        exact proper (op :: before) after (by rw [split]; rfl)
      · rintro ⟨finds, more⟩ before after split
        cases before with
        | nil => exact sound.proper
        | cons first before =>
          rw [List.cons_append] at split
          obtain ⟨rfl, rest⟩ := List.cons.inj split
          exact (ih _ (sound.step op finds)).mpr more before after rest
  exact general _ (sound_start beyond)

/-- The seventeenth task gets the id 255. -/
theorem seventeen_tasks :
    ¬ ∀ ops : List Ids.Op, Proper (exec Ids.step (.start 0#32) ops) := by
  intro all
  have proper := all (List.replicate 17 .createKernelTask)
  exact absurd (proper.tasksBelow 255 (by decide +kernel)) (by decide)

end Orcos.Guarantees.UniqueIds
