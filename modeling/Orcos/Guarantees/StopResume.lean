import Orcos.Source.ThreadFrames

/-!
Stopping and resuming a thread that waits: `stop` and `resume` of
src/source/process/Thread.cc, `block` and `unblock` of
src/source/scheduler/SingleCPUDispatcher.cc.

Both kinds of waiting threads are moved to the list of blocked threads. `unblock`
puts a thread that still has time to sleep on the sleep list again, but it knows
nothing of signals: a thread that waits for one gets ready, and a signal raised
meanwhile does not find it.
-/
namespace Orcos.Guarantees.StopResume
open Orcos.Lib Orcos.Lib.Runs Orcos.Source Orcos.Source.Queues

variable {τ : Type}

/-- What a thread waits for: its blocked flag, the time to wake up, the signal and
the flag of one that waits for a signal. -/
def wait (thread : Thread) : Bool × Nat × Nat × Bool :=
  (thread.isBlocked, thread.sleepTime, thread.signal, thread.status.signal)

section Stopped

variable [DecidableEq τ] {a : Queues τ} {t : τ} {cfg : SchedulerCfd}

/-- The event does not itself change what a stopped thread waits for: it is not
addressed to the thread, or it is one that does not move it. -/
def Harmless (t : τ) (a : Queues τ) : Kernel.Event τ → Prop
  | .computePriority _ | .popPriority _ _ | .softTerminate _ | .stop _ | .unblock _ => True
  | .pushPriority u newPriority m =>
    u = t → m = 0 ∨ newPriority ≤ (a.threads t).effectivePriority
  | event => event.thread ≠ some t

instance (t : τ) (a : Queues τ) : (event : Kernel.Event τ) → Decidable (Harmless t a event)
  | .computePriority _ | .popPriority .. | .softTerminate _ | .stop _ | .unblock _ =>
    inferInstanceAs (Decidable True)
  | .pushPriority .. => inferInstanceAs (Decidable (_ → _ ∨ _))
  | .run _ | .sleep .. | .block _ | .resume _ | .sigwait .. | .signal .. | .terminateThread _
  | .dispatch _ => inferInstanceAs (Decidable (_ ≠ _))

/-- The thread is on the list of blocked threads with what it waits for. -/
structure Parked (waits : Bool × Nat × Nat × Bool) (t : τ) (a : Queues τ) : Prop where
  queue : ∀ q, t ∈ a.queue q ↔ q = .blocked
  idle : a.running ≠ some t
  data : wait (a.threads t) = waits

variable {waits : Bool × Nat × Nat × Bool}

omit [DecidableEq τ] in
theorem Parked.untouched {b : Queues τ} (parked : Parked waits t a) (same : Untouched t a b) :
    Parked waits t b :=
  ⟨fun q => (same.queue q).trans (parked.queue q), same.running parked.idle, by
    rw [same.threads, parked.data]⟩

theorem Parked.setThread (parked : Parked waits t a) {thread : Thread}
    (same : wait thread = wait (a.threads t)) : Parked waits t (a.setThread t thread) :=
  ⟨parked.queue, parked.idle, by simpa using same.trans parked.data⟩

/-- A thread that is not blocked and does not run is parked when it is stopped. -/
theorem parked_stop (idle : a.running ≠ some t) (unblocked : (a.threads t).isBlocked = false)
    (data : wait (a.threads t) = waits) : Parked waits t (a.stop t) := by
  have still : ((a.threads t).setStopped true).isBlocked = false := unblocked
  unfold Queues.stop
  simp only [setThread_threads, if_true, still, Bool.false_eq_true, if_false]
  constructor
  · intro q
    simp [Queues.dispatcherBlock]
  · simp [Queues.dispatcherBlock, idle]
  · simp only [Queues.dispatcherBlock, leave_threads, addTail_threads, setThread_threads, if_true]
    exact data

theorem Parked.perform (parked : Parked waits t a) (unblocked : waits.1 = false)
    {event : Kernel.Event τ} (harmless : Harmless t a event) :
    Parked waits t (a.perform cfg event) := by
  by_cases addressed : event.thread = some t
  · have flag : (a.threads t).isBlocked = false := by
      rw [← unblocked, ← parked.data]
      rfl
    cases event with
    | computePriority u =>
      cases addressed
      cases cfg with
      | roundRobin _ => exact parked
      | rateMonotonic => exact parked.setThread rfl
      | earliestDeadlineFirst =>
        refine parked.setThread ?_
        unfold Thread.computePriorityEDF
        split
        · rfl
        · split <;> rfl
    | popPriority u m =>
      cases addressed
      exact parked.setThread rfl
    | softTerminate u =>
      cases addressed
      exact parked.setThread rfl
    | stop u =>
      cases addressed
      exact parked_stop parked.idle flag parked.data
    | unblock u =>
      cases addressed
      simp only [Queues.perform, Queues.unblock, flag, Bool.false_eq_true, if_false]
      exact parked
    | pushPriority u newPriority m =>
      cases addressed
      have unraised : (a.threads t).priority.pushPriority newPriority m =
          ((a.threads t).priority, false) := by
        unfold PriorityThread.pushPriority
        rcases harmless rfl with null | low
        · rw [if_pos null]
        · split
          · rfl
          · exact if_pos low
      simp only [Queues.perform, Queues.pushPriority, unraised, Bool.false_eq_true, if_false]
      exact parked.setThread rfl
    | _ => exact absurd addressed harmless
  · exact parked.untouched (Untouched.perform parked.idle
      (fun q other member => other ((parked.queue q).mp member)) addressed)

/-- As long as nothing else happens to the thread it stays parked. -/
theorem Parked.exec (parked : Parked waits t a) (unblocked : waits.1 = false)
    (events : List (Kernel.Event τ))
    (harmless : Admissible (Queues.step cfg) (fun a event => a.Linkable cfg event ∧
      Harmless t a event) a events) : Parked waits t (exec (Queues.step cfg) a events) :=
  exec_invariant (Parked waits t) (fun _ _ before ok =>
    step_rule cfg before (before.perform unblocked ok.2)) events a parked harmless

end Stopped

section Resumed

variable [DecidableEq τ] {a : Queues τ} {t : τ} {cfg : SchedulerCfd}
  {waits : Bool × Nat × Nat × Bool}

theorem entered_signal (thread : Thread) :
    (cfg.entered thread).status.signal = thread.status.signal := by
  cases cfg with
  | rateMonotonic =>
    unfold SchedulerCfd.entered
    dsimp only
    split <;> rfl
  | _ => rfl

/-- Entering a thread does not touch the flag for signals. -/
theorem enter_signal :
    ((a.enter cfg t).threads t).status.signal = (a.threads t).status.signal := by
  cases sleeps : cfg.sleepsUntil (a.threads t) with
  | none =>
    rw [enter_awake cfg a t sleeps, addReady_threads, setThread_threads, if_pos rfl, entered_signal]
  | some timePoint =>
    rw [enter_asleep cfg a t sleeps, Queues.sleep, addSleeping_threads, putOff, setThread_threads,
      if_pos rfl, setThread_threads, if_pos rfl]
    exact entered_signal _

variable (cfg) in
/-- The thread after `resume`, before the dispatcher unblocks it. -/
theorem resume_parked (parked : Parked waits t a) (unblocked : waits.1 = false) :
    ∃ b : Queues τ, a.resume cfg t = b.dispatcherUnblock cfg t ∧ Parked waits t b := by
  have flag : ((a.threads t).setStopped false).isBlocked = false := by
    rw [← unblocked, ← parked.data]
    rfl
  have cleared : Parked waits t (a.setThread t ((a.threads t).setStopped false)) :=
    parked.setThread rfl
  unfold Queues.resume
  simp only [setThread_threads, if_true, flag, Bool.false_eq_true, if_false]
  exact ⟨_, rfl, cleared.setThread (by simp only [setThread_threads, if_true]; rfl)⟩

/-- A thread with time left to sleep goes back to sleep. -/
theorem resume_asleep (parked : Parked waits t a) (unblocked : waits.1 = false)
    (asleep : 0 < waits.2.1) :
    t ∈ (a.resume cfg t).queue .sleep ∧ (a.resume cfg t).running ≠ some t ∧
      wait ((a.resume cfg t).threads t) = waits := by
  obtain ⟨b, resumed, parked⟩ := resume_parked cfg parked unblocked
  have time : 0 < (b.threads t).sleepTime := by
    rw [← parked.data] at asleep
    exact asleep
  rw [resumed, Queues.dispatcherUnblock, if_pos time]
  exact ⟨by simp, parked.idle, parked.data⟩

variable (cfg) in
/-- No thread goes back to the lists of those that wait for signals. -/
theorem resume_signal (parked : Parked waits t a) (unblocked : waits.1 = false) {q : QueueName}
    (list : q = .wait ∨ q = .condwait) :
    t ∉ (a.resume cfg t).queue q ∧ ((a.resume cfg t).threads t).status.signal = waits.2.2.2 := by
  obtain ⟨b, resumed, parked⟩ := resume_parked cfg parked unblocked
  have flag : (b.threads t).status.signal = waits.2.2.2 := by
    rw [← parked.data]
    rfl
  have others : q ≠ .ready ∧ q ≠ .sleep := by
    rcases list with rfl | rfl <;> decide
  rw [resumed, Queues.dispatcherUnblock]
  split
  · exact ⟨by simp [others.2], flag⟩
  · rw [enter_remove]
    refine ⟨?_, enter_signal.trans flag⟩
    rw [enter_queue_of_ne _ _ _ others.1 others.2]
    simp

end Resumed

section Woken

variable [DecidableEq τ] [Fintype τ] {s s' : Kernel τ} {a : Queues τ} {t : τ} {cfg : SchedulerCfd}
  {currentTime : Nat}

omit [Fintype τ] in
theorem runNext_ready (ready : t ∈ a.queue .ready) :
    t ∈ a.runNext.queue .ready ∨ a.runNext.running = some t := by
  unfold Queues.runNext
  split
  case h_1 u head =>
    by_cases same : t = u
    · exact .inr (by simp [same])
    · exact .inl (by simp [ready, same])
  case h_2 none =>
    rw [List.head?_eq_none_iff] at none
    rw [none] at ready
    cases ready

/-- A dispatch at its time or later wakes a thread, just when the scan gets to it. -/
theorem dispatch_wakes_iff (refines : Refines s a) (idle : a.running ≠ some t)
    (linkable : a.Linkable cfg (.dispatch currentTime)) (asleep : t ∈ a.queue .sleep)
    (due : (a.threads t).sleepTime ≤ currentTime) :
    (t ∈ (a.dispatch cfg currentTime).queue .ready ∨
      (a.dispatch cfg currentTime).running = some t) ↔
        ¬Passed cfg currentTime (a.preempt cfg) t := by
  obtain ⟨_, _, refines₁⟩ := refines.preempt le_rfl linkable.1
  obtain ⟨_, _, refines₂⟩ := refines₁.getNextTimerEvent le_rfl linkable.2
  have preempted := Untouched.preempt cfg idle
  have nodup := refines₁.represents.nodup .sleep
  have asleep := (preempted.queue .sleep).mpr asleep
  rw [Queues.dispatch]
  constructor
  · intro woken passed
    have scanned := passed.untouched nodup
    have absent : t ∉ ((a.preempt cfg).getNextTimerEvent cfg currentTime).queue .ready :=
      fun ready => by cases refines₂.only_queue ((scanned.queue _).mpr asleep) ready
    have left := Untouched.runNext absent
    rcases woken with ready | running
    · exact absent ((left.queue _).mp ready)
    · exact left.running (scanned.running (preempted.running idle)) running
  · intro reached
    rcases getNextTimerEvent_wakes (a.preempt cfg) nodup linkable.2 asleep
      (by rwa [preempted.threads]) with ⟨ready, _⟩ | passed
    · exact runNext_ready ready
    · exact absurd passed reached

end Woken

section Runs

variable [Fintype τ]

/-- The thread sleeps until some time or waits for a signal; it is on this list for it. -/
def Waits (s : Kernel τ) (t : τ) (q : QueueName) : Prop :=
  t ∈ s.list q ∧ s.running ≠ some t ∧ (s.threads t).isBlocked = false ∧
    if q = .sleep then 0 < (s.threads t).sleepTime
    else (q = .wait ∨ q = .condwait) ∧ (s.threads t).status.signal = true

instance [DecidableEq τ] (s : Kernel τ) (t : τ) (q : QueueName) : Decidable (Waits s t q) := by
  unfold Waits
  infer_instance

variable [DecidableEq τ]

/-- A dispatch links no item behind itself and puts no thread to sleep again. -/
def Dispatchable (cfg : SchedulerCfd) (s : Kernel τ) (currentTime : Nat) : Prop :=
  ∃ a, Refines s a ∧ a.Linkable cfg (.dispatch currentTime)

/-- What is promised of a thread that waited before `stop` at `s` and is resumed
at `s'`: it waits on, or its signal has reached it. A thread that sleeps is woken
by a dispatch at its time or later. -/
structure Kept (cfg : SchedulerCfd) (s s' : Kernel τ) (t : τ) (q : QueueName) : Prop where
  waits : t ∈ s'.list q ∨ (q ≠ .sleep ∧ (s'.threads t).status.signal = false)
  time : (s'.threads t).sleepTime = (s.threads t).sleepTime
  signal : (s'.threads t).signal = (s.threads t).signal
  woken : q = .sleep → ∀ currentTime, (s.threads t).sleepTime ≤ currentTime →
    Dispatchable cfg s' currentTime →
      ∃ s'', Kernel.step cfg (Fintype.card τ) s' (.dispatch currentTime) = some s'' ∧
        (t ∈ s''.list .ready ∨ s''.running = some t)

/-- At no dispatch at its time or later does the scan of the sleep list end in front of the
thread, at one that sleeps on and is to preempt the next one. -/
def Reached (cfg : SchedulerCfd) (s : Kernel τ) (t : τ) : Prop :=
  ∀ a currentTime, Refines s a → (s.threads t).sleepTime ≤ currentTime →
    a.Linkable cfg (.dispatch currentTime) → ¬Passed cfg currentTime (a.preempt cfg) t

theorem kept_iff_reached {cfg : SchedulerCfd} {s s' : Kernel τ} {a : Queues τ} {t : τ}
    (refines : Refines s' a) (idle : a.running ≠ some t) (asleep : t ∈ a.queue .sleep)
    (data : wait (a.threads t) = wait (s.threads t)) :
    Kept cfg s s' t .sleep ↔ Reached cfg s' t := by
  obtain ⟨_, time, signal, _⟩ : (a.threads t).isBlocked = (s.threads t).isBlocked ∧
      (a.threads t).sleepTime = (s.threads t).sleepTime ∧
        (a.threads t).signal = (s.threads t).signal ∧
          (a.threads t).status.signal = (s.threads t).status.signal := by
    simpa [wait] using data
  rw [← refines.threads] at time signal
  have woken_iff : ∀ b currentTime, Refines s' b → (s.threads t).sleepTime ≤ currentTime →
      b.Linkable cfg (.dispatch currentTime) →
        ∃ s'', Kernel.step cfg (Fintype.card τ) s' (.dispatch currentTime) = some s'' ∧
          ((t ∈ s''.list .ready ∨ s''.running = some t) ↔
            ¬Passed cfg currentTime (b.preempt cfg) t) := by
    intro b currentTime refines' due linkable
    have asleep' : t ∈ b.queue .sleep := by rwa [← refines'.list_eq, refines.list_eq]
    have idle' : b.running ≠ some t := by rwa [← refines'.running, refines.running]
    obtain ⟨s'', stepped, last⟩ := refines'.step le_rfl linkable
    have performed : b.step cfg (.dispatch currentTime) = b.dispatch cfg currentTime := by
      simp [Queues.step, Kernel.Event.isDispatch, Queues.perform]
    rw [performed] at last
    refine ⟨s'', stepped, ?_⟩
    rw [last.list_eq, last.running]
    exact dispatch_wakes_iff refines' idle' linkable asleep' (by rwa [← refines'.threads, time])
  constructor
  · intro kept b currentTime refines' due linkable
    rw [time] at due
    obtain ⟨s'', stepped, woken⟩ := kept.woken rfl currentTime due ⟨b, refines', linkable⟩
    obtain ⟨_, same, iff⟩ := woken_iff b currentTime refines' due linkable
    obtain rfl := Option.some.inj (stepped.symm.trans same)
    exact iff.mp woken
  · intro reached
    refine ⟨.inl (by rwa [refines.list_eq]), time, signal, fun _ currentTime due => ?_⟩
    rintro ⟨b, refines', linkable⟩
    obtain ⟨s'', stepped, iff⟩ := woken_iff b currentTime refines' due linkable
    exact ⟨s'', stepped, iff.mpr (reached b currentTime refines' (by rwa [time]) linkable)⟩

/-- Two threads of one task. -/
def pair (_ : Fin 2) : Thread := Thread.create 1 0 0 none

/-- While no thread runs, the scans get to a thread that sleeps alone. -/
theorem reached_of_alone {cfg : SchedulerCfd} {s : Kernel τ} {t : τ} (idle : s.running = none)
    (alone : s.list .sleep = [t]) : Reached cfg s t := by
  rintro a currentTime refines - - ⟨front, u, back, split, behind, -⟩
  rw [refines.running] at idle
  rw [refines.list_eq] at alone
  have quiet : a.preempt cfg = a := by
    unfold Queues.preempt
    rw [idle]
  rw [quiet, alone] at split
  cases front with
  | nil =>
    obtain ⟨rfl, rfl⟩ := List.cons.inj split
    cases behind
  | cons v front => cases front <;> cases (List.cons.inj split).2

end Runs

end Orcos.Guarantees.StopResume
