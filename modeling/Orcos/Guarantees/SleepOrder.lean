import Mathlib.Order.Bounds.Basic
import Orcos.Source.ThreadFrames
import Orcos.Source.DispatcherSteps

/-!
The timer events of src/source/scheduler/EarliestDeadlineFirstThreadScheduler.cc.

Each scan of the sleep list ends, wakes the threads whose time has come and
returns the earliest wake-up that is to preempt the next thread, as long as
no thread whose time has come is put to sleep again by `enter`. The code does
that to the first instance of every thread with an arrival time, which it has
not removed from the sleep list before.
-/
namespace Orcos.Guarantees.TimerEvents
open Orcos.Lib Orcos.Lib.Runs Orcos.Lib.Walk Orcos.Source

variable {τ : Type}

/-- The times at which threads wake that are to preempt the one that is next, and the
time for no event. -/
def wakeUps (threads : τ → Thread) (sleeping : List τ) (nextPriority : Nat) : Set Nat :=
  insert maxUint8 {time | ∃ t ∈ sleeping, nextPriority < (threads t).effectivePriority ∧
    time = (threads t).sleepTime}

/-- The loop keeps the least of the times met so far. -/
theorem nextEvent_isLeast (a : Queues τ) :
    IsLeast (wakeUps a.threads (a.queue .sleep) a.headPriority) a.nextEvent := by
  have loop : ∀ (rest : List τ) (met : Set Nat) (sleeptime : Nat), IsLeast met sleeptime →
      IsLeast (met ∪ {time | ∃ t ∈ rest, a.headPriority < (a.threads t).effectivePriority ∧
        time = (a.threads t).sleepTime}) (rest.foldl a.sooner sleeptime) := by
    intro rest
    induction rest with
    | nil =>
      intro met sleeptime least
      simpa using least
    | cons t rest ih =>
      intro met sleeptime least
      have next : IsLeast (met ∪ {time | a.headPriority < (a.threads t).effectivePriority ∧
          time = (a.threads t).sleepTime}) (a.sooner sleeptime t) := by
        rw [Queues.sooner]
        split
        case isTrue sooner =>
          refine ⟨.inr ⟨sooner.2, rfl⟩, ?_⟩
          rintro time (before | ⟨_, here⟩)
          · exact sooner.1.le.trans (least.2 before)
          · exact here.ge
        case isFalse later =>
          refine ⟨.inl least.1, ?_⟩
          rintro time (before | ⟨counts, here⟩)
          · exact least.2 before
          · rw [here]
            exact Nat.le_of_not_lt fun less => later ⟨less, counts⟩
      have rest := ih _ _ next
      rw [List.foldl_cons]
      convert rest using 1
      ext time
      simp only [Set.mem_union, Set.mem_ofPred_eq, List.mem_cons, exists_eq_or_imp, or_assoc]
  have all := loop (a.queue .sleep) {maxUint8} maxUint8 isLeast_singleton
  rwa [Set.singleton_union] at all

variable [DecidableEq τ] {a : Queues τ}

/-- Every thread whose time has come is woken. -/
theorem woken (nodup : (a.queue .sleep).Nodup) {currentTime : Nat}
    (wakes : a.Wakes .earliestDeadlineFirst currentTime) {t : τ} (asleep : t ∈ a.queue .sleep)
    (due : (a.threads t).sleepTime ≤ currentTime) :
    t ∈ (a.getNextTimerEvent .earliestDeadlineFirst currentTime).queue .ready ∧
      t ∉ (a.getNextTimerEvent .earliestDeadlineFirst currentTime).queue .sleep := by
  rcases a.getNextTimerEvent_wakes nodup wakes asleep due with woken | ⟨_, _, _, _, _, ends⟩
  · exact woken
  · cases ends.rateMonotonic

variable [Fintype τ]

/-- What a call of `getNextTimerEvent` at some time is to do: it ends with these
threads and this time. -/
def EventCorrect (s s' : Kernel τ) (currentTime time : Nat) : Prop :=
  (∀ t ∈ s.list .sleep, (s.threads t).sleepTime ≤ currentTime →
    t ∈ s'.list .ready ∧ t ∉ s'.list .sleep) ∧
    IsLeast (wakeUps s'.threads (s'.list .sleep) s'.headPriority) time

/-- In every run each dispatch gets the right timer event. -/
theorem timerEvent_correct (threads : τ → Thread) (events : List (Kernel.Event τ))
    (currentTime : Nat)
    (admissible : Admissible (Queues.step .earliestDeadlineFirst)
      (Queues.Linkable .earliestDeadlineFirst) (Queues.start threads)
      (events ++ [.dispatch currentTime])) :
    ∃ s s' s'' time, Kernel.exec .earliestDeadlineFirst (Kernel.start threads) events = some s ∧
      Kernel.preempt .earliestDeadlineFirst (Fintype.card τ) s = some s' ∧
      Kernel.getNextTimerEvent .earliestDeadlineFirst (Fintype.card τ) s' currentTime =
        some (s'', time) ∧ EventCorrect s' s'' currentTime time := by
  rw [admissible_append] at admissible
  obtain ⟨before, ⟨free, wakes⟩, _⟩ := admissible
  obtain ⟨s, ran, refines⟩ := (Refines.start threads).ran events before
  obtain ⟨s', preempted, refines'⟩ := refines.preempt le_rfl free
  obtain ⟨s'', event, refines''⟩ := refines'.earliestDeadlineEvent le_rfl wakes
  refine ⟨s, s', s'', _, ran, preempted, event, fun t asleep due => ?_, ?_⟩
  · rw [refines'.list_eq] at asleep
    rw [refines'.threads] at due
    rw [refines''.list_eq, refines''.list_eq]
    exact woken (refines'.represents.nodup .sleep) wakes asleep due
  · rw [refines''.threads, refines''.list_eq, refines''.headPriority]
    exact nextEvent_isLeast _

/-- Threads with a relative deadline; the clock is at zero when they are created. -/
def early (t : Fin 2) : Thread := Thread.create 1 0 0 (some ⟨0, 0, 100, 10 * t + 10⟩)

/-- The same with threads that are created later. -/
def late (t : Fin 2) : Thread := Thread.create 1 5 0 (some ⟨0, 0, 100, 10 * t + 10⟩)

/-- Both threads run once and are woken for their second instances. -/
theorem timerEvent_correct_periodic : ∃ s s' s'' time,
    Kernel.exec .earliestDeadlineFirst (Kernel.start early)
        [.computePriority 0, .computePriority 1, .run 0, .run 1, .dispatch 0, .terminateThread 0,
          .dispatch 1, .terminateThread 1, .dispatch 2] = some s ∧
      Kernel.preempt .earliestDeadlineFirst (Fintype.card (Fin 2)) s = some s' ∧
      Kernel.getNextTimerEvent .earliestDeadlineFirst (Fintype.card (Fin 2)) s' 100 =
        some (s'', time) ∧ EventCorrect s' s'' 100 time :=
  timerEvent_correct early _ 100 (by decide +kernel)

/-- The first instance of a thread with an arrival time is lost when it is to wake. -/
theorem first_instance_lost : ∃ s s' s'' time,
    Kernel.exec .earliestDeadlineFirst (Kernel.start late) [.computePriority 0, .run 0] = some s ∧
      Kernel.preempt .earliestDeadlineFirst (Fintype.card (Fin 2)) s = some s' ∧
      Kernel.getNextTimerEvent .earliestDeadlineFirst (Fintype.card (Fin 2)) s' 6 =
        some (s'', time) ∧ ¬EventCorrect s' s'' 6 time := by
  have lost : ((Kernel.exec .earliestDeadlineFirst (Kernel.start late)
      [.computePriority 0, .run 0]).bind fun s =>
        (Kernel.preempt .earliestDeadlineFirst (Fintype.card (Fin 2)) s).bind fun s' =>
          (Kernel.getNextTimerEvent .earliestDeadlineFirst (Fintype.card (Fin 2)) s' 6).map
            fun event => decide (0 ∈ s'.list .sleep ∧ (s'.threads 0).sleepTime ≤ 6 ∧
              0 ∉ event.1.list .ready)) = some true := by decide +kernel
  obtain ⟨s, ran, rest⟩ := Option.bind_eq_some_iff.mp lost
  obtain ⟨s', preempted, rest⟩ := Option.bind_eq_some_iff.mp rest
  obtain ⟨⟨s'', time⟩, event, place⟩ := Option.map_eq_some_iff.mp rest
  obtain ⟨asleep, due, gone⟩ := of_decide_eq_true place
  exact ⟨s, s', s'', time, ran, preempted, event, fun correct => gone (correct.1 0 asleep due).1⟩

end Orcos.Guarantees.TimerEvents

/-!
The order of the sleep list of src/source/scheduler/SingleCPUDispatcher.cc.

`sleep` searches for the place of a thread, while `unblock` and `signal` put a
thread that still has time to sleep at the tail. The list stays in the order of
the times to wake up as long as these threads sleep no shorter than the others.
-/
namespace Orcos.Guarantees.SleepOrder
open Orcos.Lib Orcos.Lib.Runs Orcos.Lib.Sequences Orcos.Lib.Walk Orcos.Source

variable {τ : Type}

/-- The threads of the list are in the order of their times to wake up. -/
def Ordered (threads : τ → Thread) (list : List τ) : Prop :=
  list.Pairwise fun t u => (threads t).sleepTime ≤ (threads u).sleepTime

/-- The sleep list is in order. -/
def Orderly (a : Queues τ) : Prop := Ordered a.threads (a.queue .sleep)

instance (threads : τ → Thread) (list : List τ) : Decidable (Ordered threads list) :=
  inferInstanceAs (Decidable (List.Pairwise _ _))

/-- The time at which a thread that a signal wakes is put on the sleep list. -/
def wakeTime (cfg : SchedulerCfd) (thread : Thread) : Option Nat :=
  if thread.isBlocked then none
  else if 0 < thread.sleepTime then some thread.sleepTime
  else cfg.sleepsUntil thread

/-- A thread that a signal puts at the tail of the sleep list. -/
def GoesToSleep (thread : Thread) : Prop := thread.isBlocked = false ∧ 0 < thread.sleepTime

instance (thread : Thread) : Decidable (GoesToSleep thread) :=
  inferInstanceAs (Decidable (_ ∧ _))

/-- A thread with time left to sleep sleeps no shorter than those on the sleep list. -/
def Latest (a : Queues τ) (t : τ) : Prop :=
  0 < (a.threads t).sleepTime →
    ∀ u ∈ a.queue .sleep, (a.threads u).sleepTime ≤ (a.threads t).sleepTime

/-- The threads among some that a signal wakes. -/
def woken (a : Queues τ) (sig : Nat) (waiting : List τ) : List τ :=
  waiting.filter fun t => (a.threads t).signal = sig ∧ (a.threads t).isStopped = false

/-- Those of the woken threads that are put at the tail of the sleep list sleep
no shorter than the threads there and than the threads woken before. -/
def SignalKeepsOrder (cfg : SchedulerCfd) (a : Queues τ) (sig : Nat) (waiting : List τ) : Prop :=
  (∀ t ∈ woken a sig waiting, (a.threads t).isBlocked = false → Latest a t) ∧
    (woken a sig waiting).Pairwise fun t u => GoesToSleep (a.threads u) →
      ∀ time ∈ wakeTime cfg (a.threads t), time ≤ (a.threads u).sleepTime

instance (a : Queues τ) (t : τ) : Decidable (Latest a t) :=
  inferInstanceAs (Decidable (_ → ∀ u ∈ _, _))

instance (cfg : SchedulerCfd) (a : Queues τ) (sig : Nat) (waiting : List τ) :
    Decidable (SignalKeepsOrder cfg a sig waiting) :=
  inferInstanceAs (Decidable ((∀ t ∈ _, _) ∧ _))

/-- No operation puts a thread behind one that sleeps longer. -/
def KeepsOrder [DecidableEq τ] (cfg : SchedulerCfd) (a : Queues τ) : Kernel.Event τ → Prop
  | .unblock t =>
    (a.threads t).isBlocked = true → (a.threads t).isStopped = false → Latest a t
  | .resume t => (a.threads t).isBlocked = false → Latest a t
  | .signal signaltype sig _ => SignalKeepsOrder cfg a sig (a.queue signaltype.list)
  | .terminateThread t => Queues.renews (a.threads t) = false →
      SignalKeepsOrder cfg (a.ended t) (Kernel.childTerminated (a.threads t).owner)
        ((a.ended t).queue .wait)
  | _ => True

instance [DecidableEq τ] (cfg : SchedulerCfd) (a : Queues τ) :
    (event : Kernel.Event τ) → Decidable (KeepsOrder cfg a event)
  | .unblock _ => inferInstanceAs (Decidable (_ → _ → Latest ..))
  | .resume _ => inferInstanceAs (Decidable (_ → Latest ..))
  | .signal .. => inferInstanceAs (Decidable (SignalKeepsOrder ..))
  | .terminateThread _ => inferInstanceAs (Decidable (_ → SignalKeepsOrder ..))
  | .run _ | .computePriority _ | .sleep .. | .block _ | .stop _ | .sigwait .. | .dispatch _
  | .pushPriority .. | .popPriority .. | .softTerminate _ => inferInstanceAs (Decidable True)

section Places

variable [DecidableEq τ] {a : Queues τ} {t : τ} {cfg : SchedulerCfd}

/-- The same for all threads but one. -/
def OrderedBut (a : Queues τ) (t : τ) : Prop :=
  Ordered a.threads ((a.queue .sleep).filter (· ≠ t))

theorem Orderly.but (ordered : Orderly a) (t : τ) : OrderedBut a t :=
  List.Pairwise.filter _ ordered

theorem OrderedBut.setThread (ordered : OrderedBut a t) (thread : Thread) :
    OrderedBut (a.setThread t thread) t := by
  have same : ∀ u ∈ (a.queue .sleep).filter (· ≠ t),
      (a.setThread t thread).threads u = a.threads u := fun u member => by
    have other : u ≠ t := by simpa using (List.mem_filter.mp member).2
    simp [other]
  exact List.Pairwise.imp_of_mem (fun left right le => by
    rw [same _ left, same _ right]
    exact le) ordered

theorem Orderly.setThread (ordered : Orderly a) {thread : Thread}
    (same : thread.sleepTime = (a.threads t).sleepTime) :
    Orderly (a.setThread t thread) := by
  have times : ∀ u, ((a.setThread t thread).threads u).sleepTime = (a.threads u).sleepTime := by
    intro u
    rw [Queues.setThread_threads]
    split
    case isTrue here => rw [same, here]
    case isFalse => rfl
  exact List.Pairwise.imp (fun le => by rw [times, times]; exact le) ordered

theorem OrderedBut.remove (ordered : OrderedBut a t) :
    Orderly (a.remove t) := ordered

theorem OrderedBut.addTail (ordered : OrderedBut a t) {q : QueueName} (other : q ≠ .sleep) :
    Orderly (a.addTail t q) := by
  rw [Orderly, Queues.addTail, Queues.move_queue_of_ne _ _ _ _ _ other.symm]
  exact ordered

theorem OrderedBut.addTail_sleep (ordered : OrderedBut a t)
    (latest : ∀ u ∈ a.queue .sleep, (a.threads u).sleepTime ≤ (a.threads t).sleepTime) :
    Orderly (a.addTail t .sleep) := by
  have tail : (a.addTail t .sleep).queue .sleep = (a.queue .sleep).filter (· ≠ t) ++ [t] := by
    rw [Queues.addTail, Queues.move]
    simp only [Function.update_self]
    exact insertBehind_all fun _ _ => rfl
  rw [Orderly, tail]
  refine List.pairwise_append.mpr ⟨ordered, List.pairwise_singleton _ _, ?_⟩
  intro u member v last
  rw [List.mem_singleton.mp last]
  exact latest u (List.mem_of_mem_filter member)

theorem OrderedBut.addReady (ordered : OrderedBut a t) :
    Orderly (a.addReady cfg t) := by
  rw [Orderly, Queues.addReady_queue_of_ne _ _ _ _ (by decide), Queues.addReady_threads]
  exact ordered

theorem OrderedBut.addSleeping (ordered : OrderedBut a t) :
    Orderly (a.addSleeping t) := by
  rw [Orderly, Queues.addSleeping, Queues.leave_threads, Queues.leave_queue, Queues.move]
  simp only [Function.update_self]
  exact sorted_insertBehind (fun u => (a.threads u).sleepTime) ordered

theorem OrderedBut.sleep (ordered : OrderedBut a t) (timePoint : Nat) :
    Orderly (a.sleep t timePoint) :=
  (ordered.setThread _).addSleeping

theorem OrderedBut.enter (ordered : OrderedBut a t) :
    Orderly (a.enter cfg t) := by
  cases sleeps : cfg.sleepsUntil (a.threads t) with
  | none =>
    rw [Queues.enter_awake cfg a t sleeps]
    exact (ordered.setThread _).addReady
  | some timePoint =>
    rw [Queues.enter_asleep cfg a t sleeps]
    exact (ordered.setThread _).sleep timePoint

theorem Orderly.leave (ordered : Orderly a) :
    Orderly (a.leave t) := by
  rw [Orderly, Queues.leave_threads, Queues.leave_queue]
  exact ordered

end Places

section Loops

variable [DecidableEq τ] {a : Queues τ} {t : τ} {cfg : SchedulerCfd}

variable (cfg) in
/-- A thread that wakes up is entered or falls asleep again. -/
theorem Orderly.getNextTimerEvent (ordered : Orderly a) (currentTime : Nat) :
    Orderly (a.getNextTimerEvent cfg currentTime) := by
  refine walkList_invariant (fun b _ => Orderly b.1) ?_ _ (a, a.headPriority) ordered
  intro b t rest before
  rw [Queues.visitSleeping]
  split
  · exact .inl ⟨_, rfl, ((before.but t).setThread _).enter⟩
  · split
    · exact .inr ⟨b, rfl, before⟩
    · exact .inl ⟨b, rfl, before⟩

theorem Orderly.dispatch (ordered : Orderly a) (currentTime : Nat) :
    Orderly (a.dispatch cfg currentTime) := by
  have preempted : Orderly (a.preempt cfg) := by
    rw [Queues.preempt]
    cases a.running with
    | none => exact ordered
    | some t => exact OrderedBut.enter (a := { a with running := none }) (ordered.but t)
  have woken := preempted.getNextTimerEvent cfg currentTime
  rw [Queues.dispatch, Queues.runNext]
  split
  · rename_i t _
    exact Orderly.setThread (a :=
      { (a.preempt cfg).getNextTimerEvent cfg currentTime |>.remove t with
      running := some t, dispatching := false }) (woken.but t).remove rfl
  · exact woken

/-- A thread that is woken gets on the sleep list at its time, if at all. -/
theorem mem_wake_sleep {v : τ} (member : v ∈ (a.wake cfg t).queue .sleep) :
    (v = t ∧ wakeTime cfg (a.threads t) = some ((a.wake cfg t).threads t).sleepTime) ∨
      (v ∈ a.queue .sleep ∧ v ≠ t ∧ (a.wake cfg t).threads v = a.threads v) := by
  unfold wakeTime
  unfold Queues.wake at member ⊢
  split
  case isTrue blocked =>
    rw [if_pos blocked] at member
    exact .inr (by simpa using member)
  case isFalse free =>
    rw [if_neg free] at member
    split
    case isTrue asleep =>
      rw [if_pos asleep] at member
      simpa using member
    case isFalse awake =>
      rw [if_neg awake] at member
      cases sleeps : cfg.sleepsUntil (a.threads t) with
      | none =>
        rw [Queues.enter_awake cfg a t sleeps] at member ⊢
        obtain ⟨there, other⟩ : v ∈ a.queue .sleep ∧ v ≠ t := by simpa using member
        exact .inr ⟨there, other, by simp [other]⟩
      | some timePoint =>
        rw [Queues.enter_asleep cfg a t sleeps] at member ⊢
        have places : v = t ∨ v ∈ a.queue .sleep ∧ v ≠ t := by
          simpa [Queues.sleep, Queues.putOff] using member
        rcases places with rfl | ⟨there, other⟩
        · exact .inl ⟨rfl, by simp [Queues.sleep, Queues.putOff, Thread.setSleepTime,
            Thread.setReady]⟩
        · exact .inr ⟨there, other, by simp [Queues.sleep, Queues.putOff, other]⟩

omit [DecidableEq τ] in
/-- The condition for the threads that remain after one was visited. -/
theorem SignalKeepsOrder.next {b : Queues τ} {sig : Nat} {rest : List τ}
    (keeps : SignalKeepsOrder cfg a sig (t :: rest))
    (same : ∀ u ∈ rest, b.threads u = a.threads u)
    (times : ∀ v ∈ b.queue .sleep,
      (v ∈ a.queue .sleep ∧ (b.threads v).sleepTime = (a.threads v).sleepTime) ∨
        (woken a sig (t :: rest) = t :: woken a sig rest ∧
          wakeTime cfg (a.threads t) = some (b.threads v).sleepTime)) :
    SignalKeepsOrder cfg b sig rest := by
  obtain ⟨latest, pairs⟩ := keeps
  have wakes : woken b sig rest = woken a sig rest :=
    List.filter_congr fun u member => by rw [same u member]
  have later : (woken a sig rest).Sublist (woken a sig (t :: rest)) :=
    (List.sublist_cons_self t rest).filter _
  have old : ∀ u ∈ woken a sig rest, b.threads u = a.threads u :=
    fun u member => same u (List.mem_of_mem_filter member)
  constructor
  · intro u member free asleep v inSleep
    rw [wakes] at member
    rw [old u member] at free asleep ⊢
    rcases times v inSleep with ⟨there, kept⟩ | ⟨first, time⟩
    · rw [kept]
      exact latest u (later.subset member) free asleep v there
    · rw [first] at pairs
      exact List.rel_of_pairwise_cons pairs member ⟨free, asleep⟩ _ time
  · rw [wakes]
    refine (pairs.sublist later).imp_of_mem fun left right before => ?_
    rw [old _ left, old _ right]
    exact before

/-- What waking one thread does to the order. -/
theorem Orderly.wake (ordered : Orderly a)
    (latest : (a.threads t).isBlocked = false → Latest a t) : Orderly (a.wake cfg t) := by
  unfold Queues.wake
  split
  · exact (ordered.but t).addTail (by decide)
  · rename_i free
    split
    · rename_i asleep
      exact (ordered.but t).addTail_sleep (latest (by simpa using free) asleep)
    · exact (ordered.but t).enter

variable (cfg) in
/-- A signal. -/
theorem Orderly.signal (ordered : Orderly a) (signaltype : SignalType)
    (nodup : (a.queue signaltype.list).Nodup) (sig : Nat) (sigvalue : Int)
    (keeps : SignalKeepsOrder cfg a sig (a.queue signaltype.list)) :
    Orderly (a.signal cfg signaltype sig sigvalue) := by
  refine (walkList_invariant (fun b rest => Orderly b ∧ rest.Nodup ∧
    SignalKeepsOrder cfg b sig rest) ?_ _ a ⟨ordered, nodup, keeps⟩).1
  rintro b t rest ⟨before, nodup, keeps⟩
  obtain ⟨fresh, nodup⟩ := List.nodup_cons.mp nodup
  have others : ∀ u ∈ rest, u ≠ t := fun u member same => fresh (same ▸ member)
  have told : Orderly (b.signalled t sigvalue) := before.setThread rfl
  have times : ∀ v, ((b.signalled t sigvalue).threads v).sleepTime = (b.threads v).sleepTime := by
    intro v
    rw [Queues.signalled, Queues.setThread_threads]
    split
    case isTrue here => rw [here]; rfl
    case isFalse => rfl
  refine .inl ?_
  rw [Queues.visitWaiting]
  split
  case isFalse =>
    exact ⟨b, rfl, before, nodup, keeps.next (fun _ _ => rfl) fun v member => .inl ⟨member, rfl⟩⟩
  case isTrue called =>
    split
    case isTrue stopped =>
      refine ⟨_, rfl, told, nodup, keeps.next ?_ fun v member => .inl ⟨member, times v⟩⟩
      intro u member
      simp [Queues.signalled, others u member]
    case isFalse going =>
      have first : woken b sig (t :: rest) = t :: woken b sig rest :=
        List.filter_cons_of_pos (by simpa [called] using going)
      have here : (b.signalled t sigvalue).threads t =
          { (b.threads t).setSignal false with signalvalue := sigvalue } := by
        simp [Queues.signalled]
      have same : wakeTime cfg ((b.signalled t sigvalue).threads t) =
          wakeTime cfg (b.threads t) := by
        rw [here]
        cases cfg <;> rfl
      have latest : (b.threads t).isBlocked = false → Latest b t :=
        keeps.1 t (by rw [first]; exact .head _)
      refine ⟨_, rfl, told.wake fun free asleep v member => ?_, nodup, keeps.next ?_ ?_⟩
      · rw [times] at asleep ⊢
        rw [times]
        rw [here] at free
        exact latest free asleep v member
      · intro u member
        rw [Queues.wake_threads_of_ne cfg _ (others u member)]
        simp [Queues.signalled, others u member]
      · intro v member
        rcases mem_wake_sleep member with ⟨rfl, time⟩ | ⟨there, _, kept⟩
        · exact .inr ⟨first, same ▸ time⟩
        · exact .inl ⟨there, by rw [kept, times]⟩

end Loops

section Runs

variable [DecidableEq τ] {a : Queues τ} {cfg : SchedulerCfd}

theorem Latest.setThread {t : τ} (latest : Latest a t) {thread : Thread}
    (same : thread.sleepTime = (a.threads t).sleepTime) : Latest (a.setThread t thread) t := by
  have times : ∀ u, ((a.setThread t thread).threads u).sleepTime = (a.threads u).sleepTime := by
    intro u
    rw [Queues.setThread_threads]
    split
    case isTrue here => rw [same, here]
    case isFalse => rfl
  intro asleep u member
  rw [times] at asleep ⊢
  rw [times]
  exact latest asleep u member

theorem Orderly.dispatcherUnblock {t : τ} (ordered : Orderly a) (latest : Latest a t) :
    Orderly (a.dispatcherUnblock cfg t) := by
  rw [Queues.dispatcherUnblock]
  split
  · rename_i asleep
    exact (ordered.but t).addTail_sleep (latest asleep)
  · rw [Queues.enter_remove]
    exact (ordered.but t).enter

theorem Orderly.terminate (ordered : Orderly a) (nodup : ∀ q, (a.queue q).Nodup) {t : τ}
    (keeps : KeepsOrder cfg a (.terminateThread t)) : Orderly (a.realTimeTerminate cfg t) := by
  rw [Queues.realTimeTerminate]
  cases periodic : Queues.renews (a.threads t) with
  | true =>
    have renewed : OrderedBut (a.renewed cfg t) t := by
      cases cfg with
      | roundRobin _ => exact (ordered.but t).setThread _
      | rateMonotonic => exact ((ordered.but t).setThread _).setThread _
      | earliestDeadlineFirst => exact ((ordered.but t).setThread _).setThread _
    exact renewed.sleep _
  | false =>
    have ended : Orderly (a.ended t) := ((ordered.but t).setThread _).remove
    exact ended.signal cfg .generic ((nodup .wait).filter _) _ _ (keeps periodic)

/-- Every operation keeps the order under its condition. -/
theorem Orderly.perform (ordered : Orderly a) (nodup : ∀ q, (a.queue q).Nodup)
    {event : Kernel.Event τ} (keeps : KeepsOrder cfg a event) :
    Orderly (a.perform cfg event) := by
  cases event with
  | dispatch currentTime => exact ordered.dispatch currentTime
  | run t => exact ((ordered.but t).setThread _).enter
  | computePriority t =>
    cases cfg with
    | roundRobin _ => exact ordered
    | rateMonotonic => exact ordered.setThread rfl
    | earliestDeadlineFirst =>
      refine ordered.setThread ?_
      unfold Thread.computePriorityEDF
      split
      · rfl
      · split <;> rfl
  | sleep t timePoint => exact (ordered.but t).sleep timePoint
  | block t => exact (((ordered.but t).setThread _).addTail (by decide)).leave
  | unblock t =>
    rw [Queues.perform, Queues.unblock]
    split
    case isFalse => exact ordered
    case isTrue blocked =>
      dsimp only
      split
      case isTrue => exact ordered.setThread rfl
      case isFalse going =>
        have latest : Latest a t := keeps blocked (by
          simpa [Thread.setBlocked, Thread.isStopped] using going)
        have cleared : Orderly (a.setThread t ((a.threads t).setBlocked false)) :=
          ordered.setThread rfl
        have still : Latest (a.setThread t ((a.threads t).setBlocked false)) t :=
          latest.setThread rfl
        exact Orderly.dispatcherUnblock (cleared.setThread (by rfl)) (still.setThread (by rfl))
  | stop t =>
    rw [Queues.perform, Queues.stop]
    split
    · exact ordered.setThread rfl
    · exact (((ordered.but t).setThread _).addTail (by decide)).leave
  | resume t =>
    rw [Queues.perform, Queues.resume]
    split
    case isTrue => exact ordered.setThread rfl
    case isFalse free =>
      have latest : Latest a t := keeps (by
        simpa [Thread.setStopped, Thread.isBlocked] using free)
      have cleared : Orderly (a.setThread t ((a.threads t).setStopped false)) :=
        ordered.setThread rfl
      have still : Latest (a.setThread t ((a.threads t).setStopped false)) t :=
        latest.setThread rfl
      exact Orderly.dispatcherUnblock (cleared.setThread (by rfl)) (still.setThread (by rfl))
  | sigwait signaltype t sig =>
    exact (((ordered.but t).setThread _).addTail (by cases signaltype <;> decide)).leave
  | signal signaltype sig sigvalue =>
    exact ordered.signal cfg signaltype (nodup _) sig sigvalue keeps
  | pushPriority t newPriority m =>
    rw [Queues.perform, Queues.pushPriority]
    split
    split
    · rw [Queues.enter_remove]
      exact ((ordered.but t).setThread _).enter
    · exact ordered.setThread rfl
  | popPriority t m => exact ordered.setThread rfl
  | softTerminate t => exact ordered.setThread rfl
  | terminateThread t =>
    have terminated := ordered.terminate nodup keeps
    rw [Queues.perform, Queues.terminateThread]
    split
    · exact terminated
    · exact (terminated.but t).remove.leave

/-- As long as no thread is put behind one that sleeps longer, the sleep list is
in order after every run of the kernel. -/
theorem sleepList_ordered [Fintype τ] (cfg : SchedulerCfd) (threads : τ → Thread)
    (events : List (Kernel.Event τ))
    (admissible : Admissible (Queues.step cfg)
      (fun a event => a.Linkable cfg event ∧ KeepsOrder cfg a event) (Queues.start threads)
      events) :
    ∃ s, Kernel.exec cfg (Kernel.start threads) events = some s ∧
      Ordered s.threads (s.list .sleep) := by
  have kept : ∀ s a (event : Kernel.Event τ), Refines s a → Orderly a → a.Linkable cfg event →
      KeepsOrder cfg a event → Orderly (a.step cfg event) :=
    fun _ a _ refines ordered _ keeps =>
      Queues.step_rule cfg ordered (ordered.perform refines.represents.nodup keeps)
  obtain ⟨s, ran, refines, ordered⟩ := (Refines.start threads).exec Orderly kept
    List.Pairwise.nil events admissible
  refine ⟨s, ran, ?_⟩
  rw [refines.list_eq, refines.threads]
  exact ordered

/-- Two threads of one task. -/
def pair (_ : Fin 2) : Thread := Thread.create 1 0 0 none

/-- The one that wakes earlier, and the other. -/
def earlier : Fin 2 := (Fin.last 0).castSucc

def later : Fin 2 := Fin.last 1

/-- Of two sleeping threads the one that is to wake later is stopped and resumed. -/
def laterStop : List (Kernel.Event (Fin 2)) :=
  [.run earlier, .run later, .dispatch 0, .sleep earlier 10, .dispatch 0, .sleep later 20,
    .dispatch 0, .stop later, .resume later]

/-- Here it is the one that is to wake earlier. -/
def earlierStop : List (Kernel.Event (Fin 2)) :=
  [.run earlier, .run later, .dispatch 0, .sleep earlier 10, .dispatch 0, .sleep later 20,
    .dispatch 0, .stop earlier, .resume earlier]

/-- A run with a stop and a resume that keep the order. -/
theorem sleepList_ordered_laterStop :
    ∃ s, Kernel.exec .rateMonotonic (Kernel.start pair) laterStop = some s ∧
      Ordered s.threads (s.list .sleep) :=
  sleepList_ordered .rateMonotonic pair laterStop (by decide +kernel)

/-- A resumed thread is put behind one that is to wake later. -/
theorem resumed_out_of_order :
    ∃ s, Kernel.exec .rateMonotonic (Kernel.start pair) earlierStop = some s ∧
      ¬Ordered s.threads (s.list .sleep) := by
  have unordered : (Kernel.exec .rateMonotonic (Kernel.start pair) earlierStop).map
      (fun s => decide (Ordered s.threads (s.list .sleep))) = some false := by decide +kernel
  obtain ⟨s, ran, out⟩ := Option.map_eq_some_iff.mp unordered
  exact ⟨s, ran, of_decide_eq_false out⟩

end Runs

end Orcos.Guarantees.SleepOrder
