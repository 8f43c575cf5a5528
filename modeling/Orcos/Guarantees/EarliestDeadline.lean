import Orcos.Lib.StableQueue
import Orcos.Source.DispatcherSteps

/-!
The order in which src/source/scheduler/EarliestDeadlineFirstThreadScheduler.cc
serves the threads.

Deadlines are turned into priorities of a scale they share with the threads
that have no deadline. Among real-time threads the earliest deadline is served
first, and in the order of arrival among equal ones. They are served before the
other threads as long as their deadlines are not so late that another thread
has at least their priority.
-/
namespace Orcos.Guarantees.EarliestDeadline
open Orcos.Lib.Runs Orcos.Lib.Sequences Orcos.Lib.StableQueue Orcos.Source
open Orcos.Source.LinkedList

variable {τ : Type}

def IsRealTime (thread : Thread) : Prop := thread.relativeDeadline ≠ 0

instance (thread : Thread) : Decidable (IsRealTime thread) := inferInstanceAs (Decidable (_ ≠ _))

def deadline (thread : Thread) : Nat := thread.arrivalTime + thread.relativeDeadline

/-- What is asked of the scheduler. Before a thread is entered it may get any
data, of which its priority is computed; a thread that blocks, waits or ends is
taken off its list. -/
inductive Request (τ : Type)
  | prepare (t : τ) (thread : Thread)
  | enter (t : τ)
  | withdraw (t : τ)
  | getNext

/-- The specification: the ready threads in the order of their arrival, the
threads put to sleep until they arrive, and the data of all. -/
structure Waiting (τ : Type) where
  arrivals : List τ
  asleep : List τ
  threads : τ → Thread

namespace Waiting

variable (w : Waiting τ)

def priority (t : τ) : Nat := (w.threads t).effectivePriority

/-- The first of the ready real-time threads whose deadline is the earliest. -/
def earliestDeadline : Option τ :=
  w.arrivals.find? fun t => IsRealTime (w.threads t) ∧
    ∀ u ∈ w.arrivals, IsRealTime (w.threads u) → deadline (w.threads t) ≤ deadline (w.threads u)

/-- A real-time thread is ready whose deadline, counted down from the end of the
time range, is above the priority of all ready threads without a deadline. -/
def Urgent : Prop :=
  ∃ t ∈ w.arrivals, IsRealTime (w.threads t) ∧
    ∀ u ∈ w.arrivals, ¬IsRealTime (w.threads u) →
      w.priority u < maxUint8 - deadline (w.threads t)

end Waiting

variable [DecidableEq τ]

/-- The priority of a thread is computed while it is not ready, from times
within the time range. A thread does not enter while it is the last arrival of
its priority, nor falls asleep while it sleeps. -/
def Proper (w : Waiting τ) : Request τ → Prop
  | .prepare t thread => t ∉ w.arrivals ∧ deadline thread ≤ maxUint8
  | .enter t =>
    if (SchedulerCfd.earliestDeadlineFirst.sleepsUntil (w.threads t)).isSome then t ∉ w.asleep
    else (w.arrivals.filter fun u => w.priority u = w.priority t).getLast? ≠ some t
  | .withdraw _ => True
  | .getNext => True

instance (w : Waiting τ) : ∀ request : Request τ, Decidable (Proper w request)
  | .prepare _ _ => inferInstanceAs (Decidable (_ ∧ _))
  | .enter t => by
    unfold Proper
    infer_instance
  | .withdraw _ => .isTrue trivial
  | .getNext => .isTrue trivial

/-- The request on the ready threads. -/
def performOn (w : Waiting τ) : Request τ → Waiting τ
  | .prepare t thread =>
    { w with threads := Function.update w.threads t thread.computePriorityEDF }
  | .enter t =>
    match SchedulerCfd.earliestDeadlineFirst.sleepsUntil (w.threads t) with
    | some timePoint =>
      { arrivals := w.arrivals.filter (· ≠ t)
        asleep := t :: w.asleep
        threads := Function.update w.threads t
          (((w.threads t).setSleepTime timePoint).setReady false) }
    | none =>
      { w with
        arrivals := w.arrivals.filter (· ≠ t) ++ [t]
        asleep := w.asleep.filter (· ≠ t) }
  | .withdraw t =>
    { w with
      arrivals := w.arrivals.filter (· ≠ t)
      asleep := w.asleep.filter (· ≠ t) }
  | .getNext =>
    match longestWaiting w.priority w.arrivals with
    | some t => { w with arrivals := w.arrivals.filter (· ≠ t) }
    | none => w

/-- `PriorityThreadScheduler::getNext()` on the queue of the kernel. -/
def getNext (s : Kernel τ) : Kernel τ × Option τ :=
  let (heap, next) := removeHead s.heap .ready
  ({ s with heap := heap }, next)

/-- The request as the scheduler performs it. -/
def perform (fuel : Nat) (s : Kernel τ) : Request τ → Option (Kernel τ)
  | .prepare t thread => some ((s.setThread t thread).computePriority .earliestDeadlineFirst t)
  | .enter t => s.enter .earliestDeadlineFirst fuel t
  | .withdraw t => some { s with heap := removeFromHost s.heap t }
  | .getNext => some (getNext s).1

/-- The priority of a real-time thread is its deadline, counted down from the
end of the time range. -/
def InTime (thread : Thread) : Prop :=
  IsRealTime thread →
    deadline thread ≤ maxUint8 ∧ thread.effectivePriority = maxUint8 - deadline thread

omit [DecidableEq τ] in
/-- In a time range of 64 bits the subtraction does not wrap. -/
theorem computePriorityEDF_inTime {thread : Thread} (inRange : deadline thread ≤ maxUint8) :
    InTime thread.computePriorityEDF := by
  intro realTime
  have kept : thread.computePriorityEDF.relativeDeadline = thread.relativeDeadline ∧
      thread.computePriorityEDF.arrivalTime = thread.arrivalTime := by
    unfold Thread.computePriorityEDF
    split
    · exact ⟨rfl, rfl⟩
    · split <;> exact ⟨rfl, rfl⟩
  have same : deadline thread.computePriorityEDF = deadline thread := by
    rw [deadline, kept.1, kept.2, deadline]
  have given : thread.relativeDeadline ≠ 0 := kept.1 ▸ realTime
  have sum : (thread.arrivalTime + thread.relativeDeadline) % 2 ^ 64 = deadline thread := by
    rw [deadline, maxUint8] at inRange
    exact Nat.mod_eq_of_lt (by omega)
  rw [same]
  refine ⟨inRange, ?_⟩
  simp only [Thread.computePriorityEDF, if_pos given, sum]
  rfl

/-- The kernel keeps the ready threads of the specification in its queue. -/
structure Manages (w : Waiting τ) (s : Kernel τ) (a : Queues τ) : Prop where
  refines : Refines s a
  threads : a.threads = w.threads
  serves : Serves w.priority w.arrivals (a.queue .ready)
  sleeping : ∀ t, t ∈ a.queue .sleep ↔ t ∈ w.asleep
  inTime : ∀ t, InTime (w.threads t)

namespace Manages

variable {w : Waiting τ} {s : Kernel τ} {a : Queues τ} {t : τ}

/-- The removal of a thread. -/
theorem withdraw (manages : Manages w s a) (t : τ) :
    Manages (performOn w (.withdraw t)) { s with heap := removeFromHost s.heap t }
      (a.remove t) where
  refines := manages.refines.remove t
  threads := manages.threads
  serves := manages.serves.filter _
  sleeping u := by simp [performOn, manages.sleeping u]
  inTime := manages.inTime

theorem prepare (manages : Manages w s a) {thread : Thread}
    (proper : Proper w (.prepare t thread)) :
    Manages (performOn w (.prepare t thread))
      ((s.setThread t thread).computePriority .earliestDeadlineFirst t)
      ((a.setThread t thread).computePriority .earliestDeadlineFirst t) where
  refines := (manages.refines.setThread t thread).computePriority .earliestDeadlineFirst t
  threads := by
    simp [Queues.computePriority, Queues.setThread, performOn, manages.threads]
  serves := by
    refine manages.serves.rekey fun u member => ?_
    have other : u ≠ t := fun same => proper.1 (same ▸ member)
    simp [Waiting.priority, performOn, other]
  sleeping := manages.sleeping
  inTime u := by
    by_cases same : u = t
    · simpa [performOn, same] using computePriorityEDF_inTime proper.2
    · simpa [performOn, same] using manages.inTime u

/-- The scheduler leaves the data of an entering thread as they are. -/
theorem entered_eq (a : Queues τ) (t : τ) :
    a.setThread t (SchedulerCfd.earliestDeadlineFirst.entered (a.threads t)) = a :=
  a.setThread_self t

/-- A thread that arrives later is put to sleep until then. -/
theorem enter_asleep [Fintype τ] (manages : Manages w s a) (proper : Proper w (.enter t))
    {timePoint : Nat}
    (sleeps : SchedulerCfd.earliestDeadlineFirst.sleepsUntil (w.threads t) = some timePoint) :
    ∃ s' a', s.enter .earliestDeadlineFirst (Fintype.card τ) t = some s' ∧
      Manages (performOn w (.enter t)) s' a' := by
  have asleep : t ∉ a.queue .sleep := by
    simp only [Proper, sleeps, Option.isSome_some, if_true] at proper
    exact fun member => proper ((manages.sleeping t).mp member)
  have sleeps' : SchedulerCfd.earliestDeadlineFirst.sleepsUntil (a.threads t) = some timePoint := by
    rw [manages.threads]
    exact sleeps
  have free : a.CanEnter .earliestDeadlineFirst t := by
    simp only [Queues.CanEnter, sleeps']
    exact Queues.freeToSleep_of_notMem asleep
  obtain ⟨s', entered, refines⟩ := manages.refines.enter le_rfl free
  rw [Queues.enter_asleep _ _ _ sleeps', entered_eq] at refines
  have kept : ∀ u, ((performOn w (.enter t)).threads u).priority = (w.threads u).priority ∧
      (InTime (w.threads u) → InTime ((performOn w (.enter t)).threads u)) := by
    intro u
    by_cases same : u = t
    · subst same
      simp only [performOn, sleeps, Function.update_self]
      exact ⟨rfl, id⟩
    · simp only [performOn, sleeps, Function.update_of_ne same, true_and]
      exact id
  refine ⟨s', _, entered, refines, ?_, ?_, fun u => ?_, fun u => (kept u).2 (manages.inTime u)⟩
  · simp [performOn, sleeps, Queues.sleep, Queues.putOff, Queues.setThread, manages.threads]
  · have left := manages.serves.filter (· ≠ t)
    rw [← Queues.sleep_queue_of_ne a t .ready timePoint (by decide)] at left
    simp only [performOn, sleeps]
    exact left.rekey fun u _ => congrArg PriorityThread.effectivePriority (by
      simpa [performOn, sleeps] using (kept u).1)
  · simp only [performOn, sleeps, Queues.sleep, Queues.mem_addSleeping, Queues.putOff,
      Queues.setThread_queue, manages.sleeping u, List.mem_cons]
    tauto

/-- A thread that has arrived takes its place by its priority. -/
theorem enter_awake [Fintype τ] (manages : Manages w s a) (proper : Proper w (.enter t))
    (awake : SchedulerCfd.earliestDeadlineFirst.sleepsUntil (w.threads t) = none) :
    ∃ s' a', s.enter .earliestDeadlineFirst (Fintype.card τ) t = some s' ∧
      Manages (performOn w (.enter t)) s' a' := by
  have awake' : SchedulerCfd.earliestDeadlineFirst.sleepsUntil (a.threads t) = none := by
    rw [manages.threads]
    exact awake
  have prio : ∀ u, (a.threads u).effectivePriority = w.priority u := fun u => by
    rw [manages.threads, Waiting.priority]
  have free : a.CanEnter .earliestDeadlineFirst t := by
    simp only [Proper, awake, Option.isSome_none, Bool.false_eq_true, if_false] at proper
    simp only [Queues.CanEnter, awake', SchedulerCfd.entered, Queues.setThread_self,
      Queues.FreeToEnter, prio]
    exact fun found => proper (manages.serves.last_of_found found)
  obtain ⟨s', entered, refines⟩ := manages.refines.enter le_rfl free
  rw [Queues.enter_awake _ _ _ awake', entered_eq] at refines
  refine ⟨s', _, entered, refines, ?_, ?_, fun u => ?_, ?_⟩
  · simp [performOn, awake, manages.threads]
  · have placed := (manages.serves.filter (· ≠ t)).insertBehind t
    simp only [performOn, awake, Queues.addReady, Queues.move, Function.update_self, Queues.remove,
      prio]
    exact placed
  · simp only [performOn, awake, Queues.mem_addReady, manages.sleeping u, List.mem_filter]
    simp
  · simpa only [performOn, awake] using manages.inTime

/-- The thread taken from the head is the longest waiting one of the highest priority. -/
theorem getNext (manages : Manages w s a) :
    (EarliestDeadline.getNext s).2 = longestWaiting w.priority w.arrivals ∧
      ∃ a', Manages (performOn w .getNext) (EarliestDeadline.getNext s).1 a' := by
  obtain ⟨item, rest⟩ := removeHead_represents manages.refines.represents QueueName.ready
  have first := manages.serves.head_eq_longestWaiting
  have answer : (EarliestDeadline.getNext s).2 = longestWaiting w.priority w.arrivals :=
    item.trans first
  have data := removeHead_data s.heap QueueName.ready
  refine ⟨answer, ?_⟩
  cases head : (a.queue .ready).head? with
  | none =>
    have empty : a.queue .ready = [] := List.head?_eq_none_iff.mp head
    rw [empty, List.tail_nil, ← empty, Function.update_eq_self] at rest
    refine ⟨a, ?_⟩
    rw [performOn, ← first, head]
    exact { manages with refines := manages.refines.change rest data rfl rfl rfl }
  | some t =>
    have next : longestWaiting w.priority w.arrivals = some t := first.symm.trans head
    have asleep : t ∉ w.asleep := fun member => by
      have there := (manages.sleeping t).mpr member
      cases manages.refines.only_queue (List.mem_of_mem_head? head) there
    rw [← manages.refines.remove_head head] at rest
    refine ⟨a.remove t, ?_⟩
    rw [performOn, next]
    exact
      { refines := manages.refines.change rest data rfl rfl rfl
        threads := manages.threads
        serves := manages.serves.filter _
        sleeping := fun u => by
          simp only [Queues.mem_remove, manages.sleeping u, and_iff_left_iff_imp]
          exact fun member same => asleep (same ▸ member)
        inTime := manages.inTime }

/-- One request: the scheduler keeps the ready threads. -/
theorem perform [Fintype τ] (w : Waiting τ) (s : Kernel τ) (request : Request τ)
    (manages : ∃ a, Manages w s a) (proper : Proper w request) :
    ∃ s', EarliestDeadline.perform (Fintype.card τ) s request = some s' ∧
      ∃ a', Manages (performOn w request) s' a' := by
  obtain ⟨a, manages⟩ := manages
  cases request with
  | prepare t thread => exact ⟨_, rfl, _, manages.prepare proper⟩
  | enter t =>
    cases sleeps : SchedulerCfd.earliestDeadlineFirst.sleepsUntil (w.threads t) with
    | none =>
      obtain ⟨s', a', entered, after⟩ := manages.enter_awake proper sleeps
      exact ⟨s', entered, a', after⟩
    | some timePoint =>
      obtain ⟨s', a', entered, after⟩ := manages.enter_asleep proper sleeps
      exact ⟨s', entered, a', after⟩
  | withdraw t => exact ⟨_, rfl, _, manages.withdraw t⟩
  | getNext => exact ⟨_, rfl, manages.getNext.2⟩

end Manages

/-- What is promised of the thread that is served next. -/
structure ServesDeadlines (w : Waiting τ) (next : Option τ) : Prop where
  earliest : ∀ t, next = some t → IsRealTime (w.threads t) → w.earliestDeadline = some t
  outranked : ∀ t, next = some t → ¬IsRealTime (w.threads t) →
    ∀ u ∈ w.arrivals, IsRealTime (w.threads u) →
      maxUint8 - deadline (w.threads u) ≤ w.priority t
  urgent : w.Urgent → ∃ t, next = some t ∧ IsRealTime (w.threads t)

section Order

omit [DecidableEq τ]

variable {w : Waiting τ} {t : τ}

/-- A real-time thread of the highest priority has the earliest deadline. -/
theorem earliest_of_highest (inTime : ∀ t, InTime (w.threads t))
    (first : longestWaiting w.priority w.arrivals = some t) (realTime : IsRealTime (w.threads t)) :
    w.earliestDeadline = some t := by
  obtain ⟨highest, front, back, split, lower⟩ := List.find?_eq_some_iff_append.mp first
  have top : ∀ u ∈ w.arrivals, w.priority u ≤ w.priority t := of_decide_eq_true highest
  obtain ⟨late, counted⟩ := inTime t realTime
  refine List.find?_eq_some_iff_append.mpr ⟨decide_eq_true ⟨realTime, ?_⟩, front, back, split, ?_⟩
  · intro u member real
    have := top u member
    obtain ⟨_, counted'⟩ := inTime u real
    rw [Waiting.priority, Waiting.priority, counted, counted'] at this
    omega
  · -- a deadline as early in front of it would be of the highest priority, too
    intro u member
    have before := lower u member
    simp only [Bool.not_eq_true', decide_eq_false_iff_not] at before ⊢
    rintro ⟨real, earliest⟩
    refine before fun v inV => (top v inV).trans ?_
    have := earliest t (by simp [split]) realTime
    obtain ⟨_, counted'⟩ := inTime u real
    rw [Waiting.priority, Waiting.priority, counted, counted']
    omega

theorem longestWaiting_servesDeadlines (inTime : ∀ t, InTime (w.threads t))
    (served : w.arrivals ≠ [] → (longestWaiting w.priority w.arrivals).isSome) :
    ServesDeadlines w (longestWaiting w.priority w.arrivals) := by
  have outranked : ∀ t, longestWaiting w.priority w.arrivals = some t →
      ∀ u ∈ w.arrivals, IsRealTime (w.threads u) →
        maxUint8 - deadline (w.threads u) ≤ w.priority t := by
    intro t first u member real
    rw [← (inTime u real).2]
    obtain ⟨highest, _⟩ := List.find?_eq_some_iff_append.mp first
    exact of_decide_eq_true highest u member
  constructor
  · exact fun t first realTime => earliest_of_highest inTime first realTime
  · exact fun t first _ => outranked t first
  · rintro ⟨r, ready, realTime, above⟩
    obtain ⟨t, first⟩ := Option.isSome_iff_exists.mp (served (List.ne_nil_of_mem ready))
    refine ⟨t, first, ?_⟩
    by_contra other
    have high := outranked t first r ready realTime
    have low := above t (List.mem_of_find?_eq_some first) other
    exact absurd high (Nat.not_le.mpr low)

end Order

/-- After any requests `getNext` serves real-time threads by earliest deadline
and, among equal deadlines, in the order of arrival. It serves one whenever one
is urgent, and another thread only when that has at least the priority of each
ready real-time thread. -/
theorem earliestDeadline_first [Fintype τ] (threads : τ → Thread)
    (inRange : ∀ t, deadline (threads t) ≤ maxUint8) (requests : List (Request τ))
    (proper : Admissible performOn Proper ⟨[], [], fun t => (threads t).computePriorityEDF⟩
      requests) :
    let w := exec performOn ⟨[], [], fun t => (threads t).computePriorityEDF⟩ requests
    ∃ s, requests.foldlM (perform (Fintype.card τ))
        (Kernel.start fun t => (threads t).computePriorityEDF) = some s ∧
      s.threads = w.threads ∧ (s.list .ready).Perm w.arrivals ∧
      ServesDeadlines w (getNext s).2 := by
  intro w
  have start : Manages ⟨[], [], fun t => (threads t).computePriorityEDF⟩
      (Kernel.start fun t => (threads t).computePriorityEDF)
      (Queues.start fun t => (threads t).computePriorityEDF) :=
    { refines := Refines.start _
      threads := rfl
      serves := serves_self .nil
      sleeping := fun _ => Iff.rfl
      inTime := fun t => computePriorityEDF_inTime (inRange t) }
  obtain ⟨s, ran, a, manages⟩ := foldlM_simulation (fun s w => ∃ a, Manages w s a)
    (fun s w request manages proper => Manages.perform w s request manages proper) requests
    _ _ ⟨_, start⟩ proper
  refine ⟨s, ran, manages.refines.threads.trans manages.threads, ?_, ?_⟩
  · rw [manages.refines.list_eq]
    exact manages.serves.perm
  · rw [manages.getNext.1]
    refine longestWaiting_servesDeadlines manages.inTime fun ready => ?_
    obtain ⟨t, member⟩ := List.exists_mem_of_ne_nil _ ready
    rw [← manages.serves.head_eq_longestWaiting, List.isSome_head?]
    exact List.ne_nil_of_mem ((manages.serves.mem_iff t).mpr member)

/-- Thread 0 has no deadline but a priority, the others have deadlines. -/
def three (t : Fin 3) : Thread :=
  let thread := Thread.create 1 0 0 (some ⟨0, 5000, 0, 0⟩)
  if t.val = 0 then thread else { thread with relativeDeadline := 70, instanceNumber := 2 }

/-- Two threads with the same deadline arrive after one without a deadline. -/
theorem earliestDeadline_first_three :
    ∃ s, [.enter 0, .enter 2, .enter 1].foldlM (perform (Fintype.card (Fin 3)))
        (Kernel.start fun t => (three t).computePriorityEDF) = some s ∧
      ServesDeadlines ⟨[0, 2, 1], [], fun t => (three t).computePriorityEDF⟩ (getNext s).2 := by
  obtain ⟨s, ran, _, _, serves⟩ := earliestDeadline_first three (by decide)
    [.enter 0, .enter 2, .enter 1] (by decide +kernel)
  exact ⟨s, ran, serves⟩

/-- The second thread, due at the end of the time range. -/
def late : Thread :=
  { three (Fin.last 2) with arrivalTime := 2 ^ 64 - 2000, relativeDeadline := 1000 }

/-- A real-time thread that is due at the end of the time range waits for a
thread that has no deadline. -/
theorem late_deadline_waits :
    Admissible performOn Proper ⟨[], [], fun t => (three t).computePriorityEDF⟩
        [.prepare 1 late, .enter 1, .enter 0] ∧
      ∃ s, [.prepare 1 late, .enter 1, .enter 0].foldlM (perform (Fintype.card (Fin 3)))
          (Kernel.start fun t => (three t).computePriorityEDF) = some s ∧
        1 ∈ s.list .ready ∧ IsRealTime (s.threads 1) ∧ (getNext s).2 = some 0 ∧
        ¬IsRealTime (s.threads 0) := by
  have waits : (([.prepare 1 late, .enter 1, .enter 0].foldlM (perform (Fintype.card (Fin 3)))
      (Kernel.start fun t => (three t).computePriorityEDF)).map fun s =>
        decide (1 ∈ s.list .ready ∧ IsRealTime (s.threads 1) ∧ (getNext s).2 = some 0 ∧
          ¬IsRealTime (s.threads 0))) = some true := by decide +kernel
  obtain ⟨s, ran, served⟩ := Option.map_eq_some_iff.mp waits
  exact ⟨by decide +kernel, s, ran, of_decide_eq_true served⟩

end Orcos.Guarantees.EarliestDeadline
