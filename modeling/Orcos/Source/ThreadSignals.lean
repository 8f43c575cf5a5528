import Orcos.Source.ThreadFrames

/-!
What a signal does to the threads that wait for it, and what no operation but `sigwait` does:
begin a wait for a generic signal.
-/
namespace Orcos.Source
open Orcos.Lib.Walk

namespace Queues

variable {τ : Type} [DecidableEq τ] {cfg : SchedulerCfd} {a b c : Queues τ} {t u : τ}

section Waiters

/-- Whoever wakes such a thread makes it ready. -/
def Plain (cfg : SchedulerCfd) (thread : Thread) : Prop :=
  thread.isBlocked = false ∧ thread.isStopped = false ∧ thread.sleepTime = 0 ∧
    cfg.sleepsUntil thread = none

instance (cfg : SchedulerCfd) (thread : Thread) : Decidable (Plain cfg thread) :=
  inferInstanceAs (Decidable (_ ∧ _ ∧ _ ∧ _))

/-- The loop over the waiting threads, for one of them: what its own visit establishes and
the others leave holds at the end. -/
theorem signal_visit {signaltype : SignalType} {sig : Nat} {sigvalue : Int} (r : Queues τ → Prop)
    (nodup : (a.queue signaltype.list).Nodup) (waits : t ∈ a.queue signaltype.list)
    (own : ∀ b, Untouched t a b → ∃ b', visitWaiting cfg sig sigvalue b t = .next b' ∧ r b')
    (others : ∀ b b', r b → Untouched t b b' → r b') :
    r (a.signal cfg signaltype sig sigvalue) := by
  refine (walkList_invariant
    (fun b rest => rest.Nodup ∧ (t ∈ rest → Untouched t a b) ∧ (t ∉ rest → r b)) ?_
    (a.queue signaltype.list) a
    ⟨nodup, fun _ => Untouched.refl t a, fun absent => absurd waits absent⟩).2.2 List.not_mem_nil
  rintro b u rest ⟨nodup, before, after⟩
  obtain ⟨fresh, nodup⟩ := List.nodup_cons.mp nodup
  left
  by_cases same : u = t
  · subst same
    obtain ⟨b', visited, established⟩ := own b (before List.mem_cons_self)
    exact ⟨b', visited, nodup, fun later => absurd later fresh, fun _ => established⟩
  · have visited : ∃ b', visitWaiting cfg sig sigvalue b u = .next b' ∧ Untouched t b b' := by
      have told : Untouched t b (b.signalled u sigvalue) := Untouched.setThread b same _
      rw [visitWaiting]
      split
      · split
        · exact ⟨_, rfl, told⟩
        · exact ⟨_, rfl, told.trans (Untouched.wake _ same)⟩
      · exact ⟨b, rfl, Untouched.refl t b⟩
    obtain ⟨b', visited, untouched⟩ := visited
    refine ⟨b', visited, nodup, fun later => ?_, fun absent => ?_⟩
    · exact (before (List.mem_cons_of_mem u later)).trans untouched
    · refine others b b' (after fun member => ?_) untouched
      rcases List.mem_cons.mp member with rfl | later
      · exact same rfl
      · exact absent later

/-- A thread that waits for another signal. -/
theorem Untouched.signal_other (signaltype : SignalType) (nodup : (a.queue signaltype.list).Nodup)
    (waits : t ∈ a.queue signaltype.list) {sig : Nat} (other : (a.threads t).signal ≠ sig)
    (sigvalue : Int) : Untouched t a (a.signal cfg signaltype sig sigvalue) := by
  apply signal_visit (fun b => Untouched t a b) nodup waits
  · intro b before
    refine ⟨b, ?_, before⟩
    rw [visitWaiting, before.threads, if_neg other]
  · intro b b' before untouched
    exact before.trans untouched

variable (cfg) in
/-- A thread that waits for the signal gets ready. -/
theorem signal_woken (signaltype : SignalType) (nodup : (a.queue signaltype.list).Nodup)
    (waits : t ∈ a.queue signaltype.list) (idle : a.running ≠ some t) {sig : Nat}
    (same : (a.threads t).signal = sig) (plain : Plain cfg (a.threads t)) (sigvalue : Int) :
    t ∈ (a.signal cfg signaltype sig sigvalue).queue .ready ∧
      t ∉ (a.signal cfg signaltype sig sigvalue).queue signaltype.list ∧
        (a.signal cfg signaltype sig sigvalue).running ≠ some t := by
  have notReady : signaltype.list ≠ .ready := by cases signaltype <;> decide
  apply signal_visit (fun b => t ∈ b.queue .ready ∧ t ∉ b.queue signaltype.list ∧
    b.running ≠ some t) nodup waits
  · intro b before
    obtain ⟨unblocked, going, awake, stays⟩ := plain
    have here : (b.signalled t sigvalue).threads t =
        { (a.threads t).setSignal false with signalvalue := sigvalue } := by
      rw [signalled, setThread_threads, if_pos rfl, before.threads]
    have woken : wake cfg (b.signalled t sigvalue) t = enter cfg (b.signalled t sigvalue) t := by
      rw [wake, here, if_neg (by simpa [Thread.isBlocked, Thread.setSignal] using unblocked),
        if_neg (by simp [Thread.setSignal, awake])]
    have ready : cfg.sleepsUntil ((b.signalled t sigvalue).threads t) = none := by
      rw [here, ← stays]
      cases cfg <;> rfl
    refine ⟨enter cfg (b.signalled t sigvalue) t, ?_, ?_⟩
    · rw [visitWaiting, before.threads, if_pos same, if_neg (by rw [going]; decide), woken]
    · rw [enter_awake cfg _ t ready]
      refine ⟨by simp, by simp [notReady], ?_⟩
      rw [addReady_running]
      exact before.running idle
  · rintro b b' ⟨ready, gone, stopped⟩ untouched
    exact ⟨(untouched.queue _).mpr ready, fun member => gone ((untouched.queue _).mp member),
      untouched.running stopped⟩

/-- The processor is with whom it was. -/
def SameProcessor (a b : Queues τ) : Prop :=
  b.running = a.running ∧ b.dispatching = a.dispatching

theorem leave_eq (idle : a.running ≠ some t) : a.leave t = a := by
  rw [leave, if_neg idle]

theorem enter_processor (idle : a.running ≠ some t) : SameProcessor a (a.enter cfg t) := by
  cases sleeps : cfg.sleepsUntil (a.threads t) with
  | none =>
    rw [enter_awake cfg a t sleeps]
    exact ⟨by simp, by simp⟩
  | some timePoint =>
    rw [enter_asleep cfg a t sleeps, Queues.sleep, addSleeping, leave_eq]
    · exact ⟨rfl, rfl⟩
    · exact idle

variable (cfg) in
theorem wake_processor (idle : a.running ≠ some t) : SameProcessor a (a.wake cfg t) := by
  unfold Queues.wake
  split
  · exact ⟨rfl, rfl⟩
  · split
    · exact ⟨rfl, rfl⟩
    · exact enter_processor idle

variable (cfg) in
/-- A signal for which the running thread does not wait. -/
theorem signal_processor {signaltype : SignalType} (sig : Nat) (sigvalue : Int)
    (idle : ∀ t ∈ a.queue signaltype.list, a.running ≠ some t) :
    SameProcessor a (a.signal cfg signaltype sig sigvalue) := by
  refine (walkList_invariant (fun b rest => (∀ t ∈ rest, a.running ≠ some t) ∧ SameProcessor a b)
    ?_ (a.queue signaltype.list) a ⟨idle, rfl, rfl⟩).2
  rintro b u rest ⟨idle, running, dispatching⟩
  have later : ∀ t ∈ rest, a.running ≠ some t := fun t member =>
    idle t (List.mem_cons_of_mem u member)
  have other : (b.signalled u sigvalue).running ≠ some u := by
    rw [signalled, setThread_running, running]
    exact idle u List.mem_cons_self
  have woken := wake_processor cfg other
  left
  rw [visitWaiting]
  split
  · split
    · exact ⟨_, rfl, later, running, dispatching⟩
    · exact ⟨_, rfl, later, woken.1.trans running, woken.2.trans dispatching⟩
  · exact ⟨b, rfl, later, running, dispatching⟩

end Waiters

/-- No thread changes its task or begins to wait for a generic signal. -/
structure Tame (a b : Queues τ) : Prop where
  owner : ∀ t, (b.threads t).owner = (a.threads t).owner
  wait : ∀ t, t ∈ b.queue .wait → t ∈ a.queue .wait

namespace Tame

omit [DecidableEq τ] in
theorem refl (a : Queues τ) : Tame a a := ⟨fun _ => rfl, fun _ => id⟩

omit [DecidableEq τ] in
theorem trans (first : Tame a b) (second : Tame b c) : Tame a c :=
  ⟨fun t => (second.owner t).trans (first.owner t),
    fun t member => first.wait t (second.wait t member)⟩

section Moves

variable (a) (t)

theorem setThread {thread : Thread} (same : thread.owner = (a.threads t).owner) :
    Tame a (a.setThread t thread) := by
  refine ⟨fun u => ?_, fun _ => id⟩
  rw [setThread_threads]
  split
  case isTrue own => rw [same, own]
  case isFalse => rfl

theorem remove : Tame a (a.remove t) :=
  ⟨fun _ => rfl, fun u member => ((mem_remove a t u .wait).mp member).1⟩

theorem move {q : QueueName} (other : q ≠ .wait) (p : τ → Bool) : Tame a (a.move t q p) := by
  refine ⟨fun _ => rfl, fun u member => ?_⟩
  rcases (mem_move a t u q .wait p).mp member with ⟨_, same⟩ | ⟨before, _⟩
  · exact absurd same.symm other
  · exact before

theorem leave : Tame a (a.leave t) := ⟨by simp, by simp⟩

theorem addSleeping : Tame a (a.addSleeping t) :=
  (move a t (by decide) _).trans (leave _ t)

theorem addReady : Tame a (a.addReady cfg t) := by
  cases cfg <;> exact move a t (by decide) _

theorem sleep (timePoint : Nat) : Tame a (a.sleep t timePoint) :=
  (setThread a t (by rfl)).trans (addSleeping _ t)

theorem entered_owner (thread : Thread) : (cfg.entered thread).owner = thread.owner := by
  cases cfg with
  | rateMonotonic =>
    unfold SchedulerCfd.entered
    dsimp only
    split <;> rfl
  | _ => rfl

theorem enter : Tame a (a.enter cfg t) := by
  have entered : Tame a (a.setThread t (cfg.entered (a.threads t))) :=
    setThread a t (entered_owner _)
  cases sleeps : cfg.sleepsUntil (a.threads t) with
  | none =>
    rw [enter_awake cfg a t sleeps]
    exact entered.trans (addReady _ t)
  | some timePoint =>
    rw [enter_asleep cfg a t sleeps]
    exact entered.trans (sleep _ t timePoint)

theorem wake : Tame a (a.wake cfg t) := by
  unfold Queues.wake
  split
  · exact move a t (by decide) _
  · split
    · exact move a t (by decide) _
    · exact enter a t

theorem dispatcherUnblock : Tame a (a.dispatcherUnblock cfg t) := by
  unfold Queues.dispatcherUnblock
  split
  · exact move a t (by decide) _
  · exact (remove a t).trans (enter _ t)

theorem dispatcherBlock : Tame a (a.dispatcherBlock t) :=
  (move a t (by decide) _).trans (leave _ t)

theorem computePriority : Tame a (a.computePriority cfg t) := by
  cases cfg with
  | roundRobin _ => exact refl a
  | rateMonotonic => exact setThread a t rfl
  | earliestDeadlineFirst =>
    apply setThread a t
    unfold Thread.computePriorityEDF
    split
    · rfl
    · split <;> rfl

theorem unblock : Tame a (a.unblock cfg t) := by
  have cleared : Tame a (a.setThread t ((a.threads t).setBlocked false)) := setThread a t rfl
  unfold Queues.unblock
  split
  · dsimp only
    split
    · exact cleared
    · exact (cleared.trans (setThread _ t (by rfl))).trans (dispatcherUnblock _ t)
  · exact refl a

theorem stop : Tame a (a.stop t) := by
  have stopped : Tame a (a.setThread t ((a.threads t).setStopped true)) := setThread a t rfl
  unfold Queues.stop
  dsimp only
  split
  · exact stopped
  · exact stopped.trans (dispatcherBlock _ t)

theorem resume : Tame a (a.resume cfg t) := by
  have cleared : Tame a (a.setThread t ((a.threads t).setStopped false)) := setThread a t rfl
  unfold Queues.resume
  dsimp only
  split
  · exact cleared
  · exact (cleared.trans (setThread _ t (by rfl))).trans (dispatcherUnblock _ t)

theorem pushPriority (newPriority m : Nat) : Tame a (a.pushPriority cfg t newPriority m) := by
  unfold Queues.pushPriority
  split
  dsimp only
  split
  · exact ((setThread a t (by rfl)).trans (remove _ t)).trans (enter _ t)
  · exact setThread a t rfl

end Moves

section Loops

variable (cfg a)

theorem signal (signaltype : SignalType) (sig : Nat) (sigvalue : Int) :
    Tame a (a.signal cfg signaltype sig sigvalue) := by
  refine walkList_invariant (fun b _ => Tame a b) ?_ (a.queue signaltype.list) a (refl a)
  intro b u rest before
  have told : Tame b (b.signalled u sigvalue) := setThread b u rfl
  left
  rw [visitWaiting]
  split
  · split
    · exact ⟨_, rfl, before.trans told⟩
    · exact ⟨_, rfl, (before.trans told).trans (wake _ u)⟩
  · exact ⟨b, rfl, before⟩

theorem getNextTimerEvent (currentTime : Nat) : Tame a (a.getNextTimerEvent cfg currentTime) := by
  refine walkList_invariant (fun b _ => Tame a b.1) ?_ (a.queue .sleep) (a, a.headPriority) (refl a)
  intro b u rest before
  rw [visitSleeping]
  split
  · exact .inl ⟨_, rfl, before.trans ((setThread b.1 u (by rfl)).trans (enter _ u))⟩
  · split
    · exact .inr ⟨b, rfl, before⟩
    · exact .inl ⟨b, rfl, before⟩

theorem preempt : Tame a (a.preempt cfg) := by
  unfold Queues.preempt
  split
  case h_1 u running =>
    have stopped : Tame a { a with running := none } := ⟨fun _ => rfl, fun _ => id⟩
    exact stopped.trans (enter _ u)
  case h_2 => exact refl a

theorem runNext : Tame a a.runNext := by
  unfold Queues.runNext
  split
  case h_1 u head =>
    have begun : Tame (a.remove u) { a.remove u with running := some u, dispatching := false } :=
      ⟨fun _ => rfl, fun _ => id⟩
    exact ((remove a u).trans begun).trans (setThread _ u rfl)
  case h_2 => exact ⟨fun _ => rfl, fun _ => id⟩

theorem dispatch (currentTime : Nat) : Tame a (a.dispatch cfg currentTime) :=
  ((preempt cfg a).trans (getNextTimerEvent cfg _ currentTime)).trans (runNext _)

/-- Any event but the start of such a wait and the end of a thread. -/
theorem perform {event : Kernel.Event τ} (waitless : ∀ t sig, event ≠ .sigwait .generic t sig)
    (endless : ∀ t, event ≠ .terminateThread t) : Tame a (a.perform cfg event) := by
  cases event with
  | run t => exact (setThread a t (by rfl)).trans (enter _ t)
  | computePriority t => exact computePriority a t
  | sleep t timePoint => exact sleep a t timePoint
  | block t => exact (setThread a t (by rfl)).trans (dispatcherBlock _ t)
  | unblock t => exact unblock a t
  | stop t => exact stop a t
  | resume t => exact resume a t
  | sigwait signaltype t sig =>
    cases signaltype with
    | generic => exact absurd rfl (waitless t sig)
    | cond => exact ((setThread a t (by rfl)).trans (move _ t (by decide) _)).trans (leave _ t)
  | signal signaltype sig sigvalue => exact signal cfg a signaltype sig sigvalue
  | pushPriority t newPriority m => exact pushPriority a t newPriority m
  | popPriority t m => exact setThread a t rfl
  | softTerminate t => exact setThread a t rfl
  | terminateThread t => exact absurd rfl (endless t)
  | dispatch currentTime => exact dispatch cfg a currentTime

end Loops

end Tame

end Queues

end Orcos.Source
