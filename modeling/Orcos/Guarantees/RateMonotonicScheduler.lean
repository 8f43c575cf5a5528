import Mathlib.Order.Bounds.Basic
import Orcos.Guarantees.SleepOrder

/-!
The priorities and the timer events of
src/source/scheduler/RateMonotonicThreadScheduler.cc.

`computePriority` counts the period down from the largest 32-bit number, and
gives every period from that number on the priority of the period 1, which is
the highest of all.

The scan of the sleep list ends at the first thread that sleeps on and is to
preempt the next one. What is behind it stays asleep, whatever its time, and
its time is not compared. The scan is right on a list in the order of the times
to wake up, but `unblock` and `signal` of the dispatcher put threads at its end
without a comparison.
-/
namespace Orcos.Guarantees.RateMonotonicScheduler
open Orcos.Lib Orcos.Lib.Runs Orcos.Lib.Sequences Orcos.Lib.Walk Orcos.Source

section Priorities

def priority (t : Thread) : Nat := t.computePriorityRM.effectivePriority

/-- The priority of a period as the source writes it, over the integers. -/
def exactPriority (period : Nat) : Int :=
  if period < maxUint4 then (maxUint4 : Int) - period else (maxUint4 : Int) - 1

/-- The stored priority is the one without wrapping, and a number of 32 bits. -/
def Exact (t : Thread) : Prop :=
  (priority t : Int) = exactPriority t.period ∧ 0 ≤ exactPriority t.period ∧
    exactPriority t.period ≤ maxUint4

/-- The second of two periodic threads has at most the priority of the first,
and none of their priorities wrapped. -/
def Monotonic (p q : Thread) : Prop := priority q ≤ priority p ∧ Exact p ∧ Exact q

/-- The first period is counted down below the highest priority, and the second is clamped to it. -/
def Clamped (p q : Nat) : Prop := 2 ≤ p ∧ p < maxUint4 ∧ maxUint4 ≤ q

variable {t : Thread}

theorem priority_below (periodic : t.period ≠ 0) (below : t.period < maxUint4) :
    priority t = maxUint4 - t.period := by
  simp [priority, Thread.computePriorityRM, Thread.effectivePriority, Thread.setPriority, periodic,
    below]

theorem priority_clamped (clamped : maxUint4 ≤ t.period) : priority t = maxUint4 - 1 := by
  have periodic : t.period ≠ 0 := by
    intro zero
    rw [zero] at clamped
    exact absurd clamped (by decide)
  simp [priority, Thread.computePriorityRM, Thread.effectivePriority, Thread.setPriority, periodic,
    Nat.not_lt.mpr clamped]

theorem priority_exact (periodic : t.period ≠ 0) : Exact t := by
  have positive : 1 ≤ maxUint4 := by decide
  unfold Exact exactPriority
  by_cases below : t.period < maxUint4
  · rw [priority_below periodic below, if_pos below]
    omega
  · rw [priority_clamped (Nat.not_lt.mp below), if_neg below]
    omega

/-- The priorities fall with the periods unless the second period is clamped
and the first is not. -/
theorem rateMonotonic_iff (p q : Thread) (periodic : p.period ≠ 0) (le : p.period ≤ q.period) :
    Monotonic p q ↔ ¬Clamped p.period q.period := by
  have periodic' : q.period ≠ 0 := by omega
  have positive : 2 ≤ maxUint4 := by decide
  have same : Monotonic p q ↔ priority q ≤ priority p :=
    and_iff_left ⟨priority_exact periodic, priority_exact periodic'⟩
  rw [same]
  unfold Clamped
  by_cases second : q.period < maxUint4
  · have first : p.period < maxUint4 := Nat.lt_of_le_of_lt le second
    rw [priority_below periodic first, priority_below periodic' second]
    omega
  · have high := Nat.not_lt.mp second
    rw [priority_clamped high]
    by_cases first : p.period < maxUint4
    · rw [priority_below periodic first]
      omega
    · rw [priority_clamped (Nat.not_lt.mp first)]
      omega

/-- A thread with a period in milliseconds, at 50 cycles in each microsecond. -/
def everyMs (period : Nat) : Thread := Thread.create 50 0 0 (some ⟨0, 0, 1000 * period, 0⟩)

/-- A second and two seconds. -/
theorem rateMonotonic_iff_seconds :
    Monotonic (everyMs 1000) (everyMs 2000) ↔
      ¬Clamped (everyMs 1000).period (everyMs 2000).period :=
  rateMonotonic_iff (everyMs 1000) (everyMs 2000) (by decide) (by decide)

/-- A thread that runs every 100 seconds is preferred to one that runs every second. -/
theorem longer_period_preferred :
    (everyMs 1000).period ≠ 0 ∧ (everyMs 1000).period ≤ (everyMs 100000).period ∧
      ¬Monotonic (everyMs 1000) (everyMs 100000) := by
  apply And.intro (by decide)
  apply And.intro (by decide)
  intro monotonic
  exact absurd monotonic.1 (by decide)

end Priorities

variable {τ : Type}

section Specification

variable (a a' : Queues τ) (currentTime : Nat)

/-- The time of the thread has come. -/
def Due (u : τ) : Prop := (a.threads u).sleepTime ≤ currentTime

instance (u : τ) : Decidable (Due a currentTime u) := inferInstanceAs (Decidable (_ ≤ _))

/-- The times at which threads wake whose priority is at least that of every
ready thread, and the time for no event. -/
def wakeUps : Set Nat :=
  insert maxUint8 {time | ∃ u ∈ a.queue .sleep,
    (∀ r ∈ a.queue .ready, (a.threads r).effectivePriority ≤ (a.threads u).effectivePriority) ∧
      time = (a.threads u).sleepTime}

/-- What a call of `getNextTimerEvent` at some time is to do: the threads whose
time has come move to the ready queue, and the earliest wake-up that counts is
returned. -/
structure EventCorrect (time : Nat) : Prop where
  ready : ∀ u, u ∈ a'.queue .ready ↔
    u ∈ a.queue .ready ∨ (u ∈ a.queue .sleep ∧ Due a currentTime u)
  sleep : ∀ u, u ∈ a'.queue .sleep ↔ u ∈ a.queue .sleep ∧ ¬Due a currentTime u
  earliest : IsLeast (wakeUps a') time

/-- The priority a thread has when it was entered after it woke up. -/
def wokenPriority (thread : Thread) : Nat :=
  (SchedulerCfd.rateMonotonic.entered thread).effectivePriority

/-- The priority does not depend on what waking changes. -/
theorem wokenPriority_awake (thread : Thread) :
    wokenPriority ((thread.setReady true).setSleepTime 0) = wokenPriority thread := by
  have same : ((thread.setReady true).setSleepTime 0).instanceNumber = thread.instanceNumber := rfl
  unfold wokenPriority SchedulerCfd.entered
  dsimp only
  rw [same]
  by_cases first : thread.instanceNumber = 1
  · rw [if_pos first, if_pos first]
    rfl
  · rw [if_neg first, if_neg first]
    rfl

/-- A thread that sleeps on and has at least the priority of all ready threads
and of those in front of it whose time has come. -/
def Preempts (front : List τ) (u : τ) : Prop :=
  ¬Due a currentTime u ∧ (a.threads u).sleepTime ≤ maxUint8 ∧
    (∀ r ∈ a.queue .ready, (a.threads r).effectivePriority ≤ (a.threads u).effectivePriority) ∧
    ∀ v ∈ front, Due a currentTime v →
      wokenPriority (a.threads v) ≤ (a.threads u).effectivePriority

instance (front : List τ) (u : τ) : Decidable (Preempts a currentTime front u) :=
  inferInstanceAs (Decidable (_ ∧ _ ∧ _ ∧ _))

/-- The threads that preempt all that are ready after the call. -/
def preempting : List τ := (a.queue .sleep).filter (Preempts a currentTime (a.queue .sleep))

/-- No thread whose time has come is behind one that preempts what is ready so
far, and the first of the preempting threads is the first to wake. -/
structure Prompt : Prop where
  woken : ∀ front u back, a.queue .sleep = front ++ u :: back → Preempts a currentTime front u →
    ∀ v ∈ back, ¬Due a currentTime v
  first : ∀ u ∈ (preempting a currentTime).head?, ∀ v ∈ preempting a currentTime,
    (a.threads u).sleepTime ≤ (a.threads v).sleepTime

/-- The ready queue is in the order of the priorities, the highest first. -/
def Ranked : Prop :=
  (a.queue .ready).Pairwise fun t u =>
    (a.threads u).effectivePriority ≤ (a.threads t).effectivePriority

/-- The priority of a thread in the ready queue is only changed by a push,
which enters the thread again. A thread that is created or releases a mutex is
not in that queue. -/
def KeepsRanks : Kernel.Event τ → Prop
  | .computePriority t => t ∉ a.queue .ready
  | .popPriority t _ => t ∉ a.queue .ready
  | _ => True

instance [DecidableEq τ] : (event : Kernel.Event τ) → Decidable (KeepsRanks a event)
  | .computePriority _ => inferInstanceAs (Decidable (¬_))
  | .popPriority _ _ => inferInstanceAs (Decidable (¬_))
  | .run _ | .sleep .. | .block _ | .unblock _ | .stop _ | .resume _ | .sigwait .. | .signal ..
  | .pushPriority .. | .softTerminate _ | .terminateThread _ | .dispatch _ =>
    inferInstanceAs (Decidable True)

end Specification

section Sorted

variable {a : Queues τ} {currentTime : Nat}

theorem Preempts.anti {front more : List τ} {u : τ} (sub : ∀ v ∈ front, v ∈ more)
    (preempts : Preempts a currentTime more u) : Preempts a currentTime front u :=
  ⟨preempts.1, preempts.2.1, preempts.2.2.1, fun v member => preempts.2.2.2 v (sub v member)⟩

/-- The head of a ready queue in order has the highest priority. -/
theorem Ranked.headPriority_le (ranked : Ranked a) (n : Nat) :
    a.headPriority ≤ n ↔ ∀ r ∈ a.queue .ready, (a.threads r).effectivePriority ≤ n := by
  unfold Queues.headPriority
  unfold Ranked at ranked
  cases ready : a.queue .ready with
  | nil => simp
  | cons r rest =>
    rw [ready] at ranked
    constructor
    · intro le u member
      cases List.mem_cons.mp member with
      | inl same =>
        rw [same]
        exact le
      | inr later => exact Nat.le_trans (List.rel_of_pairwise_cons ranked later) le
    · intro all
      exact all r (by simp)

end Sorted

section Ranks

variable [DecidableEq τ] {a : Queues τ} {t : τ}

/-- The same for all threads but one. -/
def RankedBut (a : Queues τ) (t : τ) : Prop :=
  ((a.queue .ready).filter (· ≠ t)).Pairwise fun u v =>
    (a.threads v).effectivePriority ≤ (a.threads u).effectivePriority

theorem Ranked.but (ranked : Ranked a) (t : τ) : RankedBut a t := List.Pairwise.filter _ ranked

theorem RankedBut.setThread (ranked : RankedBut a t) (thread : Thread) :
    RankedBut (a.setThread t thread) t := by
  have same : ∀ u ∈ (a.queue .ready).filter (· ≠ t),
      (a.setThread t thread).threads u = a.threads u := by
    intro u member
    have other : u ≠ t := by simpa using (List.mem_filter.mp member).2
    simp [other]
  apply List.Pairwise.imp_of_mem _ ranked
  intro u v left right le
  rw [same u left, same v right]
  exact le

theorem Ranked.setThread (ranked : Ranked a) {thread : Thread}
    (same : thread.effectivePriority = (a.threads t).effectivePriority) :
    Ranked (a.setThread t thread) := by
  have priorities : ∀ u, ((a.setThread t thread).threads u).effectivePriority =
      (a.threads u).effectivePriority := by
    intro u
    rw [Queues.setThread_threads]
    split
    case isTrue here => rw [same, here]
    case isFalse => rfl
  apply List.Pairwise.imp _ ranked
  intro u v le
  rw [priorities, priorities]
  exact le

/-- A thread outside of the ready queue may get any data. -/
theorem Ranked.setThread_of_notMem (ranked : Ranked a) (absent : t ∉ a.queue .ready)
    (thread : Thread) : Ranked (a.setThread t thread) := by
  have all : (a.queue .ready).filter (· ≠ t) = a.queue .ready := by
    apply List.filter_eq_self.mpr
    intro u member
    have other : u ≠ t := fun same => absent (same ▸ member)
    simpa using other
  have changed := (ranked.but t).setThread thread
  rw [RankedBut, Queues.setThread_queue, all] at changed
  exact changed

theorem RankedBut.move (ranked : RankedBut a t) {q : QueueName} (other : q ≠ .ready)
    (p : τ → Bool) : Ranked (a.move t q p) := by
  rw [Ranked, Queues.move_queue_of_ne _ _ _ _ _ other.symm]
  exact ranked

theorem RankedBut.addReady (ranked : RankedBut a t) : Ranked (a.addReady .rateMonotonic t) := by
  have same : (fun u => decide
    ((a.threads t).effectivePriority ≤ (a.threads u).effectivePriority)) =
      fun u => decide (OrderDual.toDual (a.threads u).effectivePriority ≤
        OrderDual.toDual (a.threads t).effectivePriority) := by
    funext u
    exact decide_eq_decide.mpr Iff.rfl
  have moved : a.addReady .rateMonotonic t = a.move t .ready fun u =>
    (a.threads t).effectivePriority ≤ (a.threads u).effectivePriority := rfl
  rw [Ranked, Queues.addReady_threads, moved, Queues.move]
  simp only [Function.update_self]
  rw [same]
  exact sorted_insertBehind (fun u => OrderDual.toDual (a.threads u).effectivePriority) ranked

theorem Ranked.leave (ranked : Ranked a) : Ranked (a.leave t) := by
  rw [Ranked, Queues.leave_threads, Queues.leave_queue]
  exact ranked

theorem RankedBut.sleep (ranked : RankedBut a t) (timePoint : Nat) :
    Ranked (a.sleep t timePoint) :=
  ((ranked.setThread _).move (by decide) _).leave

theorem RankedBut.enter (ranked : RankedBut a t) : Ranked (a.enter .rateMonotonic t) := by
  cases sleeps : SchedulerCfd.rateMonotonic.sleepsUntil (a.threads t) with
  | none =>
    rw [Queues.enter_awake _ a t sleeps]
    exact (ranked.setThread _).addReady
  | some timePoint =>
    rw [Queues.enter_asleep _ a t sleeps]
    exact (ranked.setThread _).sleep timePoint

theorem Ranked.wake (ranked : Ranked a) : Ranked (a.wake .rateMonotonic t) := by
  unfold Queues.wake
  split
  · exact (ranked.but t).move (by decide) _
  · split
    · exact (ranked.but t).move (by decide) _
    · exact (ranked.but t).enter

theorem Ranked.signal (ranked : Ranked a) (signaltype : SignalType) (sig : Nat) (sigvalue : Int) :
    Ranked (a.signal .rateMonotonic signaltype sig sigvalue) := by
  apply walkList_invariant (fun b _ => Ranked b) _ _ a ranked
  intro b t rest before
  have told : Ranked (b.signalled t sigvalue) := before.setThread rfl
  rw [Queues.visitWaiting]
  split
  · split
    · exact .inl ⟨_, rfl, told⟩
    · exact .inl ⟨_, rfl, told.wake⟩
  · exact .inl ⟨b, rfl, before⟩

theorem Ranked.preempt (ranked : Ranked a) : Ranked (a.preempt .rateMonotonic) := by
  rw [Queues.preempt]
  cases a.running with
  | none => exact ranked
  | some t => exact RankedBut.enter (a := { a with running := none }) (ranked.but t)

theorem Ranked.dispatch (ranked : Ranked a) (currentTime : Nat) :
    Ranked (a.dispatch .rateMonotonic currentTime) := by
  have woken : Ranked ((a.preempt .rateMonotonic).getNextTimerEvent .rateMonotonic
    currentTime) := by
    apply walkList_invariant (fun b _ => Ranked b.1) _ _ (_, Queues.headPriority _) ranked.preempt
    intro b t rest before
    rw [Queues.visitSleeping]
    split
    · exact .inl ⟨_, rfl, ((before.but t).setThread _).enter⟩
    · split
      · exact .inr ⟨b, rfl, before⟩
      · exact .inl ⟨b, rfl, before⟩
  rw [Queues.dispatch, Queues.runNext]
  split
  · rename_i t _
    exact Ranked.setThread (a := { (a.preempt .rateMonotonic).getNextTimerEvent .rateMonotonic
      currentTime |>.remove t with running := some t, dispatching := false }) (woken.but t) rfl
  · exact woken

theorem Ranked.dispatcherUnblock (ranked : Ranked a) :
    Ranked (a.dispatcherUnblock .rateMonotonic t) := by
  rw [Queues.dispatcherUnblock]
  split
  · exact (ranked.but t).move (by decide) _
  · rw [Queues.enter_remove]
    exact (ranked.but t).enter

theorem Ranked.terminate (ranked : Ranked a) : Ranked (a.realTimeTerminate .rateMonotonic t) := by
  rw [Queues.realTimeTerminate]
  split
  · have renewed : RankedBut (a.renewed .rateMonotonic t) t :=
      ((ranked.but t).setThread _).setThread _
    exact renewed.sleep _
  · have ended : Ranked (a.ended t) := (ranked.but t).setThread _
    exact ended.signal .generic _ _

/-- Every operation keeps the order of the ready queue. -/
theorem Ranked.perform (ranked : Ranked a) {event : Kernel.Event τ} (keeps : KeepsRanks a event) :
    Ranked (a.perform .rateMonotonic event) := by
  cases event with
  | dispatch currentTime => exact ranked.dispatch currentTime
  | run t => exact ((ranked.but t).setThread _).enter
  | computePriority t => exact ranked.setThread_of_notMem keeps _
  | sleep t timePoint => exact (ranked.but t).sleep timePoint
  | block t => exact (((ranked.but t).setThread _).move (by decide) _).leave
  | unblock t =>
    rw [Queues.perform, Queues.unblock]
    split
    · have cleared : Ranked (a.setThread t ((a.threads t).setBlocked false)) :=
        ranked.setThread rfl
      dsimp only
      split
      · exact cleared
      · exact Ranked.dispatcherUnblock (cleared.setThread (by rfl))
    · exact ranked
  | stop t =>
    rw [Queues.perform, Queues.stop]
    split
    · exact ranked.setThread rfl
    · exact (((ranked.but t).setThread _).move (by decide) _).leave
  | resume t =>
    have cleared : Ranked (a.setThread t ((a.threads t).setStopped false)) := ranked.setThread rfl
    rw [Queues.perform, Queues.resume]
    split
    · exact cleared
    · exact Ranked.dispatcherUnblock (cleared.setThread (by rfl))
  | sigwait signaltype t sig =>
    exact (((ranked.but t).setThread _).move (by cases signaltype <;> decide) _).leave
  | signal signaltype sig sigvalue => exact ranked.signal signaltype sig sigvalue
  | pushPriority t newPriority m =>
    rw [Queues.perform, Queues.pushPriority]
    rcases pushed : (a.threads t).priority.pushPriority newPriority m with ⟨priority, entered⟩
    dsimp only
    cases entered with
    | true =>
      rw [if_pos rfl, Queues.enter_remove]
      exact ((ranked.but t).setThread _).enter
    | false =>
      have same : priority = (a.threads t).priority := by
        unfold PriorityThread.pushPriority at pushed
        split at pushed
        · exact (congrArg Prod.fst pushed).symm
        · split at pushed
          · exact (congrArg Prod.fst pushed).symm
          · exact absurd (congrArg Prod.snd pushed) (by simp)
      rw [if_neg Bool.false_ne_true]
      exact ranked.setThread (by rw [same])
  | popPriority t m => exact ranked.setThread_of_notMem keeps _
  | softTerminate t => exact ranked.setThread rfl
  | terminateThread t =>
    have terminated : Ranked (a.realTimeTerminate .rateMonotonic t) := ranked.terminate
    rw [Queues.perform, Queues.terminateThread]
    split
    · exact terminated
    · exact Ranked.leave (a := Queues.remove _ t) (terminated.but t)

end Ranks

section Scan

variable [DecidableEq τ]

/-- The body of the loop on queues, with `nextPriority` and the time to be returned. -/
def visitSleeping (currentTime : Nat) (b : Queues τ × Nat × Nat) (t : τ) :
    Visit (Queues τ × Nat × Nat) :=
  if (b.1.threads t).sleepTime ≤ currentTime then
    let entered := (b.1.awake t).enter .rateMonotonic t
    .next (entered, entered.headPriority, b.2.2)
  else if (b.1.threads t).sleepTime ≤ b.2.2 ∧ b.2.1 ≤ (b.1.threads t).effectivePriority then
    .stop (b.1, b.2.1, (b.1.threads t).sleepTime)
  else .next b

def scan (a : Queues τ) (currentTime : Nat) : Queues τ × Nat × Nat :=
  walkList (visitSleeping currentTime) (a, a.headPriority, maxUint8) (a.queue .sleep)

omit [DecidableEq τ] in
/-- A thread that wakes up is never put to sleep again. -/
theorem stays (a : Queues τ) (t : τ) : Queues.Stays .rateMonotonic a t := by
  simp [Queues.Stays, SchedulerCfd.sleepsUntil, Thread.setSleepTime]

/-- The loop over the sleep list of the kernel is the loop on the queues. -/
theorem scan_refines [Fintype τ] {s : Kernel τ} {a : Queues τ} (refines : Refines s a)
    (currentTime : Nat) :
    ∃ s', Kernel.getNextTimerEvent .rateMonotonic (Fintype.card τ) s currentTime =
        some (s', (scan a currentTime).2.2) ∧ Refines s' (scan a currentTime).1 := by
  have visits : ∀ (r : Kernel τ × Nat × Nat) (b : Queues τ × Nat × Nat) (t : τ) (rest : List τ),
      Refines.Sleepers .rateMonotonic currentTime r.1 b.1 (t :: rest) ∧ r.2 = b.2 →
      (∃ r' b', Kernel.visitRateMonotonic (Fintype.card τ) currentTime r t = some (.next r') ∧
        visitSleeping currentTime b t = .next b' ∧
        Refines.Sleepers .rateMonotonic currentTime r'.1 b'.1 rest ∧ r'.2 = b'.2) ∨
      ∃ r' b', Kernel.visitRateMonotonic (Fintype.card τ) currentTime r t = some (.stop r') ∧
        visitSleeping currentTime b t = .stop b' ∧ Refines r'.1 b'.1 ∧ r'.2 = b'.2 := by
    intro r b t rest before
    obtain ⟨sleepers, same⟩ := before
    rw [Kernel.visitRateMonotonic, visitSleeping, sleepers.1.threads, same]
    by_cases due : (b.1.threads t).sleepTime ≤ currentTime
    · obtain ⟨s', entered, woken⟩ := sleepers.removeAndEnter le_rfl due
      simp only [due, if_true, entered]
      exact .inl ⟨_, _, rfl, rfl, woken, Prod.ext woken.1.headPriority rfl⟩
    · simp only [due, if_false]
      split
      · exact .inr ⟨_, _, rfl, rfl, sleepers.1, rfl⟩
      · exact .inl ⟨_, _, rfl, rfl, sleepers.skip, same⟩
  obtain ⟨r, walked, final, same⟩ := walk_refines
    (Kernel.visitRateMonotonic (Fintype.card τ) currentTime) (visitSleeping currentTime)
    (fun r b rest => Refines.Sleepers .rateMonotonic currentTime r.1 b.1 rest ∧ r.2 = b.2)
    (fun r b => Refines r.1 b.1 ∧ r.2 = b.2) (fun _ _ _ _ before => before.1.linked) visits
    (fun _ _ before => ⟨before.1.1, before.2⟩) (a.queue .sleep) (s, s.headPriority, maxUint8)
    (a, a.headPriority, maxUint8) (Fintype.card τ)
    ⟨⟨refines, ⟨[], rfl⟩, fun t _ _ => stays a t⟩, Prod.ext refines.headPriority rfl⟩
    (refines.length_le le_rfl .sleep)
  rw [← refines.represents.head .sleep] at walked
  rw [Kernel.getNextTimerEvent, LinkedList.getHead, walked]
  refine ⟨r.1, ?_, final⟩
  rw [Option.map_some, same]
  rfl

/-- The threads in front were visited: those whose time had come are ready, and
none of the others preempted what was ready then. -/
structure Visited (a : Queues τ) (currentTime : Nat) (front rest : List τ) (b : Queues τ) :
    Prop where
  split : a.queue .sleep = front ++ rest
  sleep : b.queue .sleep = front.filter (fun u => ¬Due a currentTime u) ++ rest
  ready : ∀ u, u ∈ b.queue .ready ↔ u ∈ a.queue .ready ∨ (u ∈ front ∧ Due a currentTime u)
  ranked : Ranked b
  kept : ∀ u, (u ∈ front → ¬Due a currentTime u) → b.threads u = a.threads u
  woken : ∀ u ∈ front, Due a currentTime u →
    (b.threads u).effectivePriority = wokenPriority (a.threads u)
  passed : ∀ left u right, front = left ++ u :: right → ¬Preempts a currentTime left u

section Visits

variable {a b : Queues τ} {currentTime : Nat} {front rest : List τ} {u : τ}

omit [DecidableEq τ] in
theorem Visited.mem_front (visited : Visited a currentTime front rest b) {v : τ}
    (member : v ∈ front) : v ∈ a.queue .sleep := by
  rw [visited.split]
  simp [member]

omit [DecidableEq τ] in
/-- Having the highest priority after some threads were woken. -/
theorem Visited.highest_iff (visited : Visited a currentTime front rest b)
    (apart : ∀ r ∈ a.queue .ready, r ∉ a.queue .sleep) (late : ¬Due a currentTime u) :
    (∀ r ∈ b.queue .ready, (b.threads r).effectivePriority ≤ (b.threads u).effectivePriority) ↔
      (∀ r ∈ a.queue .ready, (a.threads r).effectivePriority ≤ (a.threads u).effectivePriority) ∧
        ∀ v ∈ front, Due a currentTime v →
          wokenPriority (a.threads v) ≤ (a.threads u).effectivePriority := by
  have same : b.threads u = a.threads u := visited.kept u fun _ => late
  have before : ∀ r ∈ a.queue .ready, b.threads r = a.threads r := by
    intro r ready
    apply visited.kept r
    intro member
    exact absurd (visited.mem_front member) (apart r ready)
  rw [same]
  constructor
  · intro highest
    constructor
    · intro r ready
      rw [← before r ready]
      exact highest r ((visited.ready r).mpr (.inl ready))
    · intro v member due
      rw [← visited.woken v member due]
      exact highest v ((visited.ready v).mpr (.inr ⟨member, due⟩))
  · intro highest r ready
    cases (visited.ready r).mp ready with
    | inl old =>
      rw [before r old]
      exact highest.1 r old
    | inr new =>
      rw [visited.woken r new.1 new.2]
      exact highest.2 r new.1 new.2

omit [DecidableEq τ] in
/-- The scan stops exactly at a thread that preempts what is ready. -/
theorem Visited.stops_iff (visited : Visited a currentTime front (u :: rest) b)
    (apart : ∀ r ∈ a.queue .ready, r ∉ a.queue .sleep) (late : ¬Due a currentTime u) :
    ((b.threads u).sleepTime ≤ maxUint8 ∧ b.headPriority ≤ (b.threads u).effectivePriority) ↔
      Preempts a currentTime front u := by
  have same : b.threads u = a.threads u := visited.kept u fun _ => late
  rw [visited.ranked.headPriority_le, visited.highest_iff apart late, same]
  constructor
  · intro stops
    exact ⟨late, stops.1, stops.2⟩
  · intro preempts
    exact ⟨preempts.2.1, preempts.2.2⟩

omit [DecidableEq τ] in
/-- A split of a list with one more thread at the end. -/
theorem split_concat {left right : List τ} {v : τ} (split : front ++ [u] = left ++ v :: right) :
    (front = left ∧ u = v) ∨ ∃ mid, front = left ++ v :: mid := by
  cases List.eq_nil_or_concat right with
  | inl none =>
    rw [none] at split
    have both := List.append_inj' split rfl
    exact .inl ⟨both.1, (List.cons.inj both.2).1⟩
  | inr last =>
    obtain ⟨mid, w, rfl⟩ := last
    have regrouped : front ++ [u] = (left ++ v :: mid) ++ [w] := by simpa using split
    exact .inr ⟨mid, (List.append_inj' regrouped rfl).1⟩

omit [DecidableEq τ] in
/-- A thread that sleeps on and does not preempt. -/
theorem Visited.skip (visited : Visited a currentTime front (u :: rest) b)
    (late : ¬Due a currentTime u) (passes : ¬Preempts a currentTime front u) :
    Visited a currentTime (front ++ [u]) rest b where
  split := by simp [visited.split]
  sleep := by simp [visited.sleep, late]
  ready v := by
    rw [visited.ready]
    constructor
    · intro place
      exact place.imp id fun new => ⟨by simp [new.1], new.2⟩
    · intro place
      apply place.imp id
      intro new
      cases List.mem_append.mp new.1 with
      | inl member => exact ⟨member, new.2⟩
      | inr last => exact absurd (List.mem_singleton.mp last ▸ new.2) late
  ranked := visited.ranked
  kept v sleeps := visited.kept v fun member => sleeps (by simp [member])
  woken v member due := by
    cases List.mem_append.mp member with
    | inl member => exact visited.woken v member due
    | inr last => exact absurd (List.mem_singleton.mp last ▸ due) late
  passed left v right split := by
    cases split_concat split with
    | inl last => exact last.1 ▸ last.2 ▸ passes
    | inr before =>
      obtain ⟨mid, before⟩ := before
      exact visited.passed left v mid before

/-- A thread whose time has come. -/
theorem Visited.wake (visited : Visited a currentTime front (u :: rest) b)
    (nodup : (a.queue .sleep).Nodup) (apart : ∀ r ∈ a.queue .ready, r ∉ a.queue .sleep)
    (due : Due a currentTime u) :
    Visited a currentTime (front ++ [u]) rest ((b.awake u).enter .rateMonotonic u) := by
  have asleep : u ∈ a.queue .sleep := by simp [visited.split]
  have fresh : u ∉ front ++ rest := by
    rw [visited.split] at nodup
    exact (List.nodup_cons.mp (List.nodup_middle.mp nodup)).1
  have fresh : u ∉ front ∧ u ∉ rest := by simpa using fresh
  have others : ∀ v ∈ front, v ≠ u := fun v member same => fresh.1 (same ▸ member)
  have same : b.threads u = a.threads u := visited.kept u fun member => absurd member fresh.1
  have entered := Queues.enter_awake .rateMonotonic (b.awake u) u
    (by simpa [Queues.awake, Queues.Stays] using stays b u)
  have elsewhere : ∀ v, v ≠ u → ((b.awake u).enter .rateMonotonic u).threads v = b.threads v := by
    intro v other
    rw [Queues.enter_threads_of_ne _ _ _ other]
    simp [Queues.awake, other]
  constructor
  case split => simp [visited.split]
  case sleep =>
    have keep : ∀ list : List τ, u ∉ list → list.filter (fun v => v ≠ u) = list := by
      intro list absent
      apply List.filter_eq_self.mpr
      intro v member
      have other : v ≠ u := fun same => absent (same ▸ member)
      simpa using other
    have inFront : u ∉ front.filter fun v => ¬Due a currentTime v :=
      fun member => fresh.1 (List.mem_of_mem_filter member)
    have before : (b.awake u).queue .sleep =
        front.filter (fun v => ¬Due a currentTime v) ++ u :: rest := visited.sleep
    rw [entered, Queues.addReady_queue_of_ne _ _ _ _ (by decide), Queues.setThread_queue, before,
      List.filter_append, List.filter_cons_of_neg (by simp), keep _ inFront, keep _ fresh.2]
    simp [due]
  case ready =>
    intro v
    have ready : (b.awake u).queue .ready = b.queue .ready := rfl
    rw [entered, Queues.mem_addReady, Queues.setThread_queue, ready, visited.ready]
    constructor
    · intro place
      cases place with
      | inl here => exact .inr ⟨by simp [here.1], here.1 ▸ due⟩
      | inr old => exact old.1.imp id fun new => ⟨by simp [new.1], new.2⟩
    · intro place
      cases place with
      | inl old => exact .inr ⟨.inl old, fun here => apart v old (here ▸ asleep)⟩
      | inr new =>
        cases List.mem_append.mp new.1 with
        | inl member => exact .inr ⟨.inr ⟨member, new.2⟩, others v member⟩
        | inr last => exact .inl ⟨List.mem_singleton.mp last, rfl⟩
  case ranked => exact ((visited.ranked.but u).setThread _).enter
  case kept =>
    intro v sleeps
    have other : v ≠ u := fun here => sleeps (by simp [here]) (here ▸ due)
    rw [elsewhere v other]
    exact visited.kept v fun member => sleeps (by simp [member])
  case woken =>
    intro v member early
    cases List.mem_append.mp member with
    | inl member =>
      rw [elsewhere v (others v member)]
      exact visited.woken v member early
    | inr last =>
      rw [List.mem_singleton.mp last, entered, ← same]
      simp only [Queues.addReady_threads, Queues.setThread_threads, Queues.awake, if_true]
      exact wokenPriority_awake _
  case passed =>
    intro left v right split preempts
    cases split_concat split with
    | inl last => exact preempts.1 (last.2 ▸ due)
    | inr before =>
      obtain ⟨mid, before⟩ := before
      exact visited.passed left v mid before preempts

/-- The scan went through the list, or it stopped at a thread that preempts. -/
def Scanned (a : Queues τ) (currentTime : Nat) (r : Queues τ × Nat × Nat) : Prop :=
  ∃ front rest, Visited a currentTime front rest r.1 ∧
    ((rest = [] ∧ r.2.2 = maxUint8) ∨
      ∃ u back, rest = u :: back ∧ Preempts a currentTime front u ∧
        r.2.2 = (a.threads u).sleepTime)

theorem scanned_walk (nodup : (a.queue .sleep).Nodup)
    (apart : ∀ r ∈ a.queue .ready, r ∉ a.queue .sleep) (rest : List τ) :
    ∀ (front : List τ) (r : Queues τ × Nat × Nat), Visited a currentTime front rest r.1 →
      r.2 = (r.1.headPriority, maxUint8) →
      Scanned a currentTime (walkList (visitSleeping currentTime) r rest) := by
  induction rest with
  | nil =>
    intro front r visited next
    exact ⟨front, [], visited, .inl ⟨rfl, by rw [walkList, next]⟩⟩
  | cons u rest ih =>
    intro front r visited next
    have asleep : u ∉ front := by
      rw [visited.split] at nodup
      exact fun member => (List.nodup_append.mp nodup).2.2 u member u (by simp) rfl
    have same : r.1.threads u = a.threads u := visited.kept u fun member => absurd member asleep
    rw [walkList, visitSleeping]
    by_cases due : Due a currentTime u
    · rw [if_pos (by rw [same]; exact due)]
      apply ih (front ++ [u]) _ (visited.wake nodup apart due)
      rw [next]
    · rw [if_neg (by rw [same]; exact due), next]
      by_cases preempts : Preempts a currentTime front u
      · rw [if_pos ((visited.stops_iff apart due).mpr preempts)]
        exact ⟨front, u :: rest, visited, .inr ⟨u, rest, rfl, preempts, by rw [same]⟩⟩
      · rw [if_neg (mt (visited.stops_iff apart due).mp preempts)]
        exact ih (front ++ [u]) r (visited.skip due preempts) next

theorem scanned (ranked : Ranked a) (nodup : (a.queue .sleep).Nodup)
    (apart : ∀ r ∈ a.queue .ready, r ∉ a.queue .sleep) (currentTime : Nat) :
    Scanned a currentTime (scan a currentTime) := by
  apply scanned_walk nodup apart (a.queue .sleep) [] (a, a.headPriority, maxUint8) _ rfl
  constructor
  case split => rfl
  case sleep => rfl
  case ready => simp
  case ranked => exact ranked
  case kept => exact fun _ _ => rfl
  case woken => simp
  case passed => simp

end Visits

section Outcome

variable {a b : Queues τ} {currentTime : Nat} {front back : List τ} {u : τ}

omit [DecidableEq τ]

/-- No visited thread preempts all that are ready after the call. -/
theorem Visited.not_preempting {rest : List τ} (visited : Visited a currentTime front rest b)
    (member : u ∈ front) : ¬Preempts a currentTime (a.queue .sleep) u := by
  intro preempts
  obtain ⟨left, right, split⟩ := List.append_of_mem member
  apply visited.passed left u right split
  apply preempts.anti
  intro v inLeft
  exact visited.mem_front (by simp [split, inLeft])

/-- A scan through the whole list is right. -/
theorem Visited.complete (visited : Visited a currentTime front [] b)
    (apart : ∀ r ∈ a.queue .ready, r ∉ a.queue .sleep) :
    EventCorrect a b currentTime maxUint8 ∧ Prompt a currentTime := by
  have all : a.queue .sleep = front := by simpa using visited.split
  constructor
  · constructor
    case ready =>
      rw [all]
      exact visited.ready
    case sleep => simp [visited.sleep, all]
    case earliest =>
      constructor
      · exact .inl rfl
      · intro time counts
        cases counts with
        | inl none => exact none.ge
        | inr wakes =>
          obtain ⟨u, member, highest, time⟩ := wakes
          have inFront : u ∈ front ∧ ¬Due a currentTime u := by simpa [visited.sleep] using member
          rw [time, visited.kept u fun _ => inFront.2]
          apply Nat.le_of_not_lt
          intro soon
          apply visited.not_preempting inFront.1
          rw [all]
          exact ⟨inFront.2, soon.le, (visited.highest_iff apart inFront.2).mp highest⟩
  · constructor
    case woken =>
      intro left u right split preempts
      exact absurd preempts (visited.passed left u right (all ▸ split))
    case first =>
      intro u head
      have member := List.mem_filter.mp (List.mem_of_mem_head? head)
      exact absurd (of_decide_eq_true member.2) (visited.not_preempting (all ▸ member.1))

section Stopped

variable (visited : Visited a currentTime front (u :: back) b)
  (preempts : Preempts a currentTime front u)

include visited preempts

/-- The threads whose time has come were all visited when none is behind. -/
theorem Visited.due_mem (quiet : ∀ v ∈ back, ¬Due a currentTime v) {v : τ}
    (member : v ∈ a.queue .sleep) (due : Due a currentTime v) : v ∈ front := by
  rw [visited.split] at member
  cases List.mem_append.mp member with
  | inl inFront => exact inFront
  | inr behind =>
    cases List.mem_cons.mp behind with
    | inl here => exact absurd (here ▸ due) preempts.1
    | inr later => exact absurd due (quiet v later)

theorem Visited.preempts_iff (quiet : ∀ v ∈ back, ¬Due a currentTime v) (v : τ) :
    Preempts a currentTime (a.queue .sleep) v ↔ Preempts a currentTime front v := by
  constructor
  · exact Preempts.anti fun w member => visited.mem_front member
  · intro before
    exact ⟨before.1, before.2.1, before.2.2.1, fun w member due =>
      before.2.2.2 w (visited.due_mem preempts quiet member due) due⟩

/-- The thread that ended the scan is the first of the preempting ones. -/
theorem Visited.head_preempting (quiet : ∀ v ∈ back, ¬Due a currentTime v) :
    (preempting a currentTime).head? = some u := by
  have split : preempting a currentTime =
      (front ++ u :: back).filter (Preempts a currentTime (a.queue .sleep)) :=
    congrArg (List.filter _) visited.split
  have none : front.filter (Preempts a currentTime (a.queue .sleep)) = [] := by
    apply List.filter_eq_nil_iff.mpr
    intro v member
    simpa using visited.not_preempting member
  have here : Preempts a currentTime (a.queue .sleep) u :=
    (visited.preempts_iff preempts quiet u).mpr preempts
  rw [split, List.filter_append, none, List.nil_append,
    List.filter_cons_of_pos (by simpa using here),
    List.head?_cons]

/-- A right scan leaves nothing behind that it should have met first. -/
theorem Visited.prompt_of_correct (apart : ∀ r ∈ a.queue .ready, r ∉ a.queue .sleep)
    (correct : EventCorrect a b currentTime (a.threads u).sleepTime) : Prompt a currentTime := by
  have quiet : ∀ v ∈ back, ¬Due a currentTime v := by
    intro v member
    exact ((correct.sleep v).mp (by simp [visited.sleep, member])).2
  constructor
  case woken =>
    intro left w right split before v member
    have both := visited.split.symm.trans split
    cases List.append_eq_append_iff.mp both with
    | inl later =>
      obtain ⟨mid, _, rest⟩ := later
      cases mid with
      | nil =>
        have same : back = right := (List.cons.inj rest).2
        exact quiet v (same ▸ member)
      | cons x mid =>
        have inBack : back = mid ++ w :: right := (List.cons.inj rest).2
        exact quiet v (by simp [inBack, member])
    | inr earlier =>
      obtain ⟨mid, visitedFirst, rest⟩ := earlier
      cases mid with
      | nil =>
        have same : right = back := (List.cons.inj rest).2
        exact quiet v (same ▸ member)
      | cons x mid =>
        have here : w = x := (List.cons.inj rest).1
        exact absurd before (visited.passed left w mid (here ▸ visitedFirst))
  case first =>
    rw [visited.head_preempting preempts quiet]
    intro w same v member
    cases same
    have member := List.mem_filter.mp member
    have later : Preempts a currentTime front v :=
      (visited.preempts_iff preempts quiet v).mp (of_decide_eq_true member.2)
    apply correct.earliest.2
    apply Or.inr
    refine ⟨v, (correct.sleep v).mpr ⟨member.1, later.1⟩, ?_, ?_⟩
    · exact (visited.highest_iff apart later.1).mpr later.2.2
    · rw [visited.kept v fun _ => later.1]

theorem Visited.correct_of_prompt (apart : ∀ r ∈ a.queue .ready, r ∉ a.queue .sleep)
    (prompt : Prompt a currentTime) : EventCorrect a b currentTime (a.threads u).sleepTime := by
  have quiet : ∀ v ∈ back, ¬Due a currentTime v :=
    prompt.woken front u back visited.split preempts
  have first := prompt.first u (visited.head_preempting preempts quiet)
  have left : ∀ v, v ∈ b.queue .sleep ↔ v ∈ a.queue .sleep ∧ ¬Due a currentTime v := by
    intro v
    have behind : v = u ∨ v ∈ back → ¬Due a currentTime v := by
      intro place
      cases place with
      | inl here => exact here ▸ preempts.1
      | inr later => exact quiet v later
    simp only [visited.sleep, visited.split, List.mem_append, List.mem_filter, List.mem_cons,
      decide_eq_true_eq]
    tauto
  constructor
  case ready =>
    intro v
    rw [visited.ready v]
    constructor
    · exact fun place => place.imp id fun new => ⟨visited.mem_front new.1, new.2⟩
    · exact fun place => place.imp id fun new =>
        ⟨visited.due_mem preempts quiet new.1 new.2, new.2⟩
  case sleep => exact left
  case earliest =>
    constructor
    · apply Or.inr
      refine ⟨u, by simp [visited.sleep], ?_, ?_⟩
      · exact (visited.highest_iff apart preempts.1).mpr preempts.2.2
      · rw [visited.kept u fun _ => preempts.1]
    · intro time counts
      cases counts with
      | inl none => exact none ▸ preempts.2.1
      | inr wakes =>
        obtain ⟨v, member, highest, time⟩ := wakes
        have asleep := (left v).mp member
        rw [time, visited.kept v fun _ => asleep.2]
        by_cases inRange : (a.threads v).sleepTime ≤ maxUint8
        · have before : Preempts a currentTime front v :=
            ⟨asleep.2, inRange, (visited.highest_iff apart asleep.2).mp highest⟩
          apply first v
          exact List.mem_filter.mpr ⟨asleep.1, decide_eq_true
            ((visited.preempts_iff preempts quiet v).mpr before)⟩
        · exact Nat.le_trans preempts.2.1 (Nat.le_of_not_le inRange)

end Stopped

end Outcome

end Scan

section Runs

variable [DecidableEq τ] [Fintype τ]

/-- One call, on any sleep list. -/
theorem event_iff {s : Kernel τ} {a : Queues τ} (refines : Refines s a) (ranked : Ranked a)
    (currentTime : Nat) :
    ∃ s' time, Kernel.getNextTimerEvent .rateMonotonic (Fintype.card τ) s currentTime =
        some (s', time) ∧
      (EventCorrect s.view s'.view currentTime time ↔ Prompt s.view currentTime) := by
  have apart : ∀ r ∈ a.queue .ready, r ∉ a.queue .sleep := by
    intro r ready asleep
    cases refines.only_queue ready asleep
  obtain ⟨s', event, final⟩ := scan_refines refines currentTime
  obtain ⟨front, rest, visited, ended⟩ :=
    scanned ranked (refines.represents.nodup .sleep) apart currentTime
  refine ⟨s', _, event, ?_⟩
  rw [refines.view_eq, final.view_eq]
  cases ended with
  | inl all =>
    rw [all.1] at visited
    rw [all.2]
    have complete := visited.complete apart
    exact iff_of_true complete.1 complete.2
  | inr stopped =>
    obtain ⟨u, back, more, preempts, time⟩ := stopped
    rw [more] at visited
    rw [time]
    exact ⟨visited.prompt_of_correct preempts apart, visited.correct_of_prompt preempts apart⟩

/-- In every run each dispatch gets the right timer event exactly when the sleep
list is in an order in which the scan does not end too early. -/
theorem timerEvent_iff_prompt (threads : τ → Thread) (events : List (Kernel.Event τ))
    (currentTime : Nat)
    (admissible : Admissible (Queues.step .rateMonotonic)
      (fun a event => a.Linkable .rateMonotonic event ∧ KeepsRanks a event) (Queues.start threads)
      (events ++ [.dispatch currentTime])) :
    ∃ s s' s'' time, Kernel.exec .rateMonotonic (Kernel.start threads) events = some s ∧
      Kernel.preempt .rateMonotonic (Fintype.card τ) s = some s' ∧
      Kernel.getNextTimerEvent .rateMonotonic (Fintype.card τ) s' currentTime =
        some (s'', time) ∧
      (EventCorrect s'.view s''.view currentTime time ↔ Prompt s'.view currentTime) := by
  have kept : ∀ (s : Kernel τ) (a : Queues τ) (event : Kernel.Event τ), Refines s a → Ranked a →
      a.Linkable .rateMonotonic event → KeepsRanks a event → Ranked (a.step .rateMonotonic event) :=
    fun _ _ _ _ ranked _ keeps => Queues.step_rule .rateMonotonic ranked (ranked.perform keeps)
  rw [admissible_append] at admissible
  obtain ⟨before, ⟨⟨free, _⟩, _⟩, _⟩ := admissible
  obtain ⟨s, ran, refines, ranked⟩ := (Refines.start threads).exec Ranked kept
    List.Pairwise.nil events before
  obtain ⟨s', preempted, refines'⟩ := refines.preempt le_rfl free
  obtain ⟨s'', time, event, outcome⟩ := event_iff refines' ranked.preempt currentTime
  exact ⟨s, s', s'', time, ran, preempted, event, outcome⟩

/-- A thread that sleeps longer than another one is stopped and resumed. -/
theorem timerEvent_iff_prompt_laterStop : ∃ s s' s'' time,
    Kernel.exec .rateMonotonic (Kernel.start SleepOrder.pair) SleepOrder.laterStop = some s ∧
      Kernel.preempt .rateMonotonic (Fintype.card (Fin 2)) s = some s' ∧
      Kernel.getNextTimerEvent .rateMonotonic (Fintype.card (Fin 2)) s' 15 = some (s'', time) ∧
      (EventCorrect s'.view s''.view 15 time ↔ Prompt s'.view 15) :=
  timerEvent_iff_prompt SleepOrder.pair SleepOrder.laterStop 15 (by decide +kernel)

/-- A thread that was stopped and resumed stays behind one that is to wake
later, and is not woken when its time has come. -/
theorem resumed_sleeps_on : ∃ s s' s'' time,
    Kernel.exec .rateMonotonic (Kernel.start SleepOrder.pair) SleepOrder.earlierStop = some s ∧
      Kernel.preempt .rateMonotonic (Fintype.card (Fin 2)) s = some s' ∧
      Kernel.getNextTimerEvent .rateMonotonic (Fintype.card (Fin 2)) s' 15 = some (s'', time) ∧
      ¬EventCorrect s'.view s''.view 15 time := by
  have left : ((Kernel.exec .rateMonotonic (Kernel.start SleepOrder.pair)
      SleepOrder.earlierStop).bind fun s =>
        (Kernel.preempt .rateMonotonic (Fintype.card (Fin 2)) s).bind fun s' =>
          (Kernel.getNextTimerEvent .rateMonotonic (Fintype.card (Fin 2)) s' 15).map
            fun event => decide (SleepOrder.earlier ∈ s'.list .sleep ∧
              (s'.threads SleepOrder.earlier).sleepTime ≤ 15 ∧
              SleepOrder.earlier ∈ event.1.list .sleep)) = some true := by decide +kernel
  obtain ⟨s, ran, rest⟩ := Option.bind_eq_some_iff.mp left
  obtain ⟨s', preempted, rest⟩ := Option.bind_eq_some_iff.mp rest
  obtain ⟨⟨s'', time⟩, event, place⟩ := Option.map_eq_some_iff.mp rest
  obtain ⟨_, due, still⟩ := of_decide_eq_true place
  exact ⟨s, s', s'', time, ran, preempted, event, fun correct =>
    ((correct.sleep SleepOrder.earlier).mp still).2 due⟩

end Runs

end Orcos.Guarantees.RateMonotonicScheduler
