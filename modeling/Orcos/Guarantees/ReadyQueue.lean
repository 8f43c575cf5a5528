import Mathlib.Data.Nat.Basic
import Orcos.Lib.Runs
import Orcos.Lib.StableQueue
import Orcos.Source.PriorityThread

/-!
# Ready queue: highest priority first, first come first served among equals

The specification keeps the waiting threads in the order of their arrival and
takes the longest waiting of those with the highest effective priority. The
ready queue serves these arrivals from any sorted start, as long as no thread
is entered again while it is the last arrival of its own priority: `enter`
would then find the thread itself as the item to insert behind.
-/
namespace Orcos.Guarantees.ReadyQueue
open Orcos.Lib.Runs Orcos.Lib.StableQueue Orcos.Lib.Sequences
open Orcos.Source Orcos.Source.LinkedList Orcos.Source.PriorityThreadScheduler

inductive Request (δ ι : Type)
  | enter (item : ι)
  | getNext
  | setEffectivePriority (thread : δ) (p : Nat)

inductive Answer (ι : Type)
  | code (e : ErrorT)
  | next (item : Option ι)
  | done
  | diverged
  deriving DecidableEq

/-- The specification: who waits, in the order of arrival, and all priorities. -/
structure Waiting (δ ι : Type) where
  arrivals : List ι
  effectivePriority : δ → Nat

variable {δ ι κ : Type} [DecidableEq ι] [DecidableEq κ]

/-- The thread is not entered while it is the last arrival of its priority, and
the priority of a queued thread does not change. -/
def Proper (data : ι → δ) (w : Waiting δ ι) : Request δ ι → Prop
  | .enter item =>
    (w.arrivals.filter (fun i => w.effectivePriority (data i) = w.effectivePriority (data item))
      ).getLast? ≠ some item
  | .getNext => True
  | .setEffectivePriority thread _ => ∀ i ∈ w.arrivals, data i ≠ thread

instance (data : ι → δ) (w : Waiting δ ι) [DecidableEq δ] :
    ∀ request : Request δ ι, Decidable (Proper data w request)
  | .enter _ => inferInstanceAs (Decidable (_ ≠ _))
  | .getNext => .isTrue trivial
  | .setEffectivePriority thread _ =>
    inferInstanceAs (Decidable (∀ i ∈ w.arrivals, data i ≠ thread))

/-- The heap represents sequences, of which the ready queue serves the waiting threads. -/
structure Ready (data : ι → δ) (database : κ) (w : Waiting δ ι) (s : Scheduler δ ι κ)
    (seq : κ → List ι) : Prop where
  represents : Represents s.heap seq
  frame : ∀ i, s.heap.data i = data i
  priorities : s.effectivePriority = w.effectivePriority
  serves : Serves (fun i => w.effectivePriority (data i)) w.arrivals (seq database)

/-- An entering thread is linked behind everything of at least its priority. -/
theorem enter_simulates {data : ι → δ} {database : κ} {w : Waiting δ ι} {s : Scheduler δ ι κ}
    {seq : κ → List ι} (ready : Ready data database w s seq) (item : ι) {fuel : Nat}
    (enough : w.arrivals.length ≤ fuel) (proper : Proper data w (.enter item)) :
    ∃ s' seq', enter s database item fuel = some (s', cOk) ∧
      Ready data database ⟨w.arrivals.erase item ++ [item], w.effectivePriority⟩ s' seq' := by
  obtain ⟨rep, same, priorities, serves⟩ := ready
  have key : ∀ i, s.priority i = w.effectivePriority (data i) := by
    intro i
    rw [Scheduler.priority, priorities, same]
  have short : (seq database).length ≤ fuel := by
    rw [serves.perm.length_eq]
    exact enough
  have walk := scan_eq_find s (s.priority item) (rep.chain database) short
  rw [← rep.tail database] at walk
  simp only [key] at walk
  generalize prio : (fun i => w.effectivePriority (data i)) = priority at serves walk
  have prioAt : ∀ i, w.effectivePriority (data i) = priority i := congrFun prio
  simp only [prioAt] at walk
  have queueNodup := rep.nodup database
  cases found : (seq database).reverse.find? (fun i => priority item ≤ priority i) with
  | none =>
    -- everything queued has less priority, so the item is not queued
    have lower : ∀ b ∈ seq database, priority b < priority item := by
      intro b inQ
      have := List.find?_eq_none.mp found b (by simpa using inQ)
      simpa using this
    have notQueued : item ∉ seq database := fun inQ => (lower item inQ).ne rfl
    have notWaiting : item ∉ w.arrivals := fun inA => notQueued ((serves.mem_iff item).mpr inA)
    rw [found] at walk
    refine ⟨⟨(addHead s.heap database item).1, s.effectivePriority⟩, _, ?_,
      addHead_represents rep database item, fun j => ?_, priorities, ?_⟩
    · simp only [enter, key, prioAt, getTail, walk]
      rfl
    · exact (addHead_data s.heap database item j).trans (same j)
    · simp only [Function.update_self, detach, List.erase_of_not_mem notQueued,
        List.erase_of_not_mem notWaiting, prioAt]
      exact Serves.arrive [] _ serves (by simp) lower
  | some x =>
    obtain ⟨as, bs, split, high, low⟩ := split_of_find_reverse found
    have higher : priority item ≤ priority x := by simpa using high
    have lower : ∀ b ∈ bs, priority b < priority item := by simpa using low
    have behind : item ∉ bs := fun inB => (lower item inB).ne rfl
    have sorted := serves.sorted
    rw [split] at sorted
    obtain ⟨_, _, across⟩ := List.pairwise_append.mp sorted
    have differ : x ≠ item := by
      rintro rfl
      -- the item itself was found: nothing of its priority stands behind it
      have group := serves.fifo (priority x)
      have none : bs.filter (fun b => priority b = priority x) = [] :=
        List.filter_eq_nil_iff.mpr fun b inB => by simpa using (lower b inB).ne
      rw [split, List.filter_append, List.filter_cons_of_pos (by simp), none] at group
      refine proper ?_
      simp only [prioAt, ← group, List.getLast?_concat]
    obtain ⟨erased, placed⟩ := insertAfter_erase split queueNodup differ behind
    have inQueue : x ∈ seq database := by rw [split]; simp
    rw [found] at walk
    refine ⟨⟨(insertAfter s.heap database item x).1, s.effectivePriority⟩, _, ?_,
      insertAfter_represents rep ((rep.host database x).mpr inQueue) differ,
      fun j => ?_, priorities, ?_⟩
    · simp only [enter, key, prioAt, getTail, walk]
      rfl
    · exact (insertAfter_data s.heap database item x j).trans (same j)
    · have left := serves.depart (x := item) queueNodup
      rw [erased] at left
      simp only [Function.update_self, detach, placed, prioAt]
      refine Serves.arrive _ _ left (fun a inA => ?_) lower
      rcases List.mem_append.mp (List.mem_of_mem_erase inA) with before | atX
      · exact higher.trans (across a before x (by simp))
      · rw [List.mem_singleton.mp atX]
        exact higher

variable [DecidableEq δ]

/-- The request as the scheduler performs it. -/
def perform (database : κ) (fuel : Nat) (s : Scheduler δ ι κ) :
    Request δ ι → Scheduler δ ι κ × Answer ι
  | .enter item =>
    match enter s database item fuel with
    | some (s, e) => (s, .code e)
    | none => (s, .diverged)
  | .getNext => Prod.map id .next (getNext s database)
  | .setEffectivePriority thread p => (setEffectivePriority s thread p, .done)

/-- The request on the arrivals; `data` leads from an item to its thread. -/
def performOn (data : ι → δ) (w : Waiting δ ι) : Request δ ι → Waiting δ ι × Answer ι
  | .enter item => ({ w with arrivals := w.arrivals.erase item ++ [item] }, .code cOk)
  | .getNext =>
    match longestWaiting (fun i => w.effectivePriority (data i)) w.arrivals with
    | some item => ({ w with arrivals := w.arrivals.erase item }, .next (some item))
    | none => (w, .next none)
  | .setEffectivePriority thread p =>
    ({ w with effectivePriority := Function.update w.effectivePriority thread p }, .done)

/-- The removed head is the longest waiting thread of highest priority. -/
theorem getNext_simulates {data : ι → δ} {database : κ} {w : Waiting δ ι} {s : Scheduler δ ι κ}
    {seq : κ → List ι} (ready : Ready data database w s seq) :
    ∃ seq', Ready data database (performOn data w .getNext).1 (getNext s database).1 seq' ∧
      (performOn data w .getNext).2 = .next (getNext s database).2 := by
  obtain ⟨rep, same, priorities, serves⟩ := ready
  obtain ⟨answer, rep'⟩ := removeHead_represents rep database
  have frame : ∀ i, (getNext s database).1.heap.data i = data i := fun i =>
    (removeHead_data s.heap database i).trans (same i)
  have first := serves.head_eq_longestWaiting
  refine ⟨_, ⟨rep', frame, ?_, ?_⟩, ?_⟩
  · rw [performOn, ← first]
    cases (seq database).head? <;> exact priorities
  · rw [performOn, ← first]
    cases queue : seq database with
    | nil => simpa [queue] using serves
    | cons x xs =>
      rw [queue] at serves
      have left := serves.depart (x := x) (queue ▸ rep.nodup database)
      simpa using left
  · rw [performOn, ← first, getNext, answer]
    cases (seq database).head? <;> rfl

/-- One request: the queue keeps serving the arrivals, with the same answer. -/
theorem perform_simulates {data : ι → δ} {database : κ} {fuel : Nat} (w : Waiting δ ι)
    (s : Scheduler δ ι κ) (request : Request δ ι) (ready : ∃ seq, Ready data database w s seq)
    (proper : Proper data w request ∧ w.arrivals.length ≤ fuel) :
    (∃ seq, Ready data database (performOn data w request).1
        (perform database fuel s request).1 seq) ∧
      (performOn data w request).2 = (perform database fuel s request).2 := by
  obtain ⟨seq, ready⟩ := ready
  cases request with
  | enter item =>
    obtain ⟨s', seq', entered, ready'⟩ := enter_simulates ready item proper.2 proper.1
    simp only [perform, entered]
    exact ⟨⟨seq', ready'⟩, rfl⟩
  | getNext =>
    obtain ⟨seq', ready', answer⟩ := getNext_simulates ready
    exact ⟨⟨seq', ready'⟩, answer⟩
  | setEffectivePriority thread p =>
    obtain ⟨rep, same, priorities, serves⟩ := ready
    refine ⟨⟨seq, rep, same, ?_, ?_⟩, rfl⟩
    · simp [performOn, perform, setEffectivePriority, priorities]
    · refine serves.rekey fun i inA => ?_
      simp [performOn, proper.1 i inA]

theorem arrivals_grow (data : ι → δ) (w : Waiting δ ι) (request : Request δ ι) :
    (performOn data w request).1.arrivals.length ≤ w.arrivals.length + 1 := by
  cases request with
  | enter item =>
    have := List.length_erase_le (a := item) (l := w.arrivals)
    simpa [performOn] using this
  | getNext =>
    rw [performOn]
    split
    · next item _ =>
      have := List.length_erase_le (a := item) (l := w.arrivals)
      exact this.trans (Nat.le_succ _)
    · exact Nat.le_succ _
  | setEffectivePriority thread p => exact Nat.le_succ _

/-- From any heap with a sorted ready queue and after any proper requests, the
ready queue holds exactly the waiting threads, sorted by non-increasing
priority and in order of arrival within a priority, and every `getNext` of the
run returned the longest waiting thread of highest priority. -/
theorem readyQueue_serves_arrivals (database : κ) (start : Scheduler δ ι κ) (seq : κ → List ι)
    (represents : Represents start.heap seq)
    (sorted : (seq database).Pairwise (fun a b => start.priority b ≤ start.priority a))
    (requests : List (Request δ ι)) (fuel : Nat)
    (enough : (seq database).length + requests.length ≤ fuel)
    (proper : Admissible (fun w r => (performOn start.heap.data w r).1) (Proper start.heap.data)
      ⟨seq database, start.effectivePriority⟩ requests) :
    let final := exec (fun s r => (perform database fuel s r).1) start requests
    let waiting := exec (fun w r => (performOn start.heap.data w r).1)
      ⟨seq database, start.effectivePriority⟩ requests
    (∃ seq', Represents final.heap seq' ∧
      Serves final.priority waiting.arrivals (seq' database) ∧
      (seq' database).Perm waiting.arrivals) ∧
    outputs (perform database fuel) start requests =
      outputs (performOn start.heap.data) ⟨seq database, start.effectivePriority⟩ requests := by
  intro final waiting
  have bounded := admissible_bounded (fun w : Waiting δ ι => w.arrivals.length)
    (arrivals_grow start.heap.data) fuel requests _ enough proper
  obtain ⟨⟨seq', last⟩, answers⟩ := outputs_simulation
    (fun w s => ∃ seq, Ready start.heap.data database w s seq) perform_simulates requests
    _ start ⟨seq, represents, fun _ => rfl, rfl, serves_self sorted⟩ bounded
  have keys : final.priority = fun i => waiting.effectivePriority (start.heap.data i) := by
    funext i
    rw [Scheduler.priority, last.priorities, last.frame]
  refine ⟨⟨seq', last.represents, ?_, last.serves.perm⟩, answers.symm⟩
  rw [keys]
  exact last.serves

/-- A scheduler without ready threads; every thread has priority `p`. -/
def idle (p : Nat) : Scheduler Nat Nat Unit := ⟨Heap.fresh id, fun _ => p⟩

/-- Three threads of one priority, one of them entered twice, and one above. -/
theorem readyQueue_serves_four :
    outputs (perform () 20) (idle 3) [.enter 1, .enter 2, .enter 1, .setEffectivePriority 4 9,
        .enter 3, .enter 4, .getNext, .getNext, .getNext, .getNext, .getNext] =
      outputs (performOn id) ⟨[], fun _ => 3⟩ [.enter 1, .enter 2, .enter 1,
        .setEffectivePriority 4 9, .enter 3, .enter 4, .getNext, .getNext, .getNext, .getNext,
        .getNext] :=
  (readyQueue_serves_arrivals () (idle 3) (fun _ => []) (fresh_represents id) .nil _ 20
    (by decide) (by decide)).2

/-- A thread that enters twice in a row is lost: its item is linked behind itself. -/
theorem reentered_thread_lost :
    outputs (perform () 20) (idle 3) [.enter 1, .enter 1, .getNext] =
        [.code cOk, .code cOk, .next none] ∧
      outputs (performOn id) ⟨[], fun _ => 3⟩ [.enter 1, .enter 1, .getNext] =
        [.code cOk, .code cOk, .next (some (1 : Nat))] := by
  decide

end Orcos.Guarantees.ReadyQueue
