import Orcos.Source.ThreadFrames

/-!
What holds of the members of a thread whatever is done to it, apart from its dispatch and its
end; and where the scan of the sleep list leaves a thread whose time has not come.
-/
namespace Orcos.Source.Queues
open Orcos.Lib.Walk

variable {τ : Type}

/-- A property of a thread that does not depend on where it waits, nor on an inherited priority,
and that the scheduler keeps when it computes the priority. -/
structure Lasting (cfg : SchedulerCfd) (p : Thread → Prop) : Prop where
  status : ∀ thread status, status.isNew = thread.status.isNew → p thread →
    p { thread with status := status }
  sleepTime : ∀ thread time, p thread → p { thread with sleepTime := time }
  signal : ∀ thread signal value, p thread →
    p { thread with signal := signal, signalvalue := value }
  priority : ∀ thread priority, priority.initialPriority = thread.priority.initialPriority →
    p thread → p { thread with priority := priority }
  computedRM : cfg = .rateMonotonic → ∀ thread, p thread → p thread.computePriorityRM
  computedEDF : cfg = .earliestDeadlineFirst → ∀ thread, p thread → p thread.computePriorityEDF

theorem computePriorityEDF_isNew (thread : Thread) :
    thread.computePriorityEDF.isNew = thread.isNew := by
  unfold Thread.computePriorityEDF
  split
  · rfl
  · split
    · rfl
    · rfl

/-- Whether a thread is new. -/
theorem lasting_isNew (cfg : SchedulerCfd) (v : Bool) :
    Lasting cfg fun thread => thread.isNew = v where
  status _ _ same old := same.trans old
  sleepTime _ _ old := old
  signal _ _ _ old := old
  priority _ _ _ old := old
  computedRM _ _ old := old
  computedEDF _ thread old := (computePriorityEDF_isNew thread).trans old

/-- What holds of a thread before holds of it afterwards. -/
def Keeps (p : Thread → Prop) (t : τ) (a b : Queues τ) : Prop := p (a.threads t) → p (b.threads t)

namespace Keeps

variable {p : Thread → Prop} {a b c : Queues τ} {t u : τ} {cfg : SchedulerCfd}

theorem refl (p : Thread → Prop) (t : τ) (a : Queues τ) : Keeps p t a a := id

theorem trans (first : Keeps p t a b) (second : Keeps p t b c) : Keeps p t a c := second ∘ first

theorem of_threads (same : b.threads = a.threads) : Keeps p t a b := fun before => by
  rw [same]
  exact before

theorem of_untouched (untouched : Untouched t a b) : Keeps p t a b := fun before => by
  rw [untouched.threads]
  exact before

variable [DecidableEq τ]

section Operations

variable (lasting : Lasting cfg p) (a)

theorem setThread {thread : Thread} (kept : p (a.threads u) → p thread) :
    Keeps p t a (a.setThread u thread) := by
  intro before
  rw [setThread_threads]
  split
  case isTrue here => exact kept (here ▸ before)
  case isFalse => exact before

include lasting

theorem flags (status : Status) (same : status.isNew = (a.threads u).status.isNew) :
    Keeps p t a (a.setThread u { a.threads u with status := status }) :=
  setThread a (lasting.status _ status same)

theorem sleep (timePoint : Nat) : Keeps p t a (a.sleep u timePoint) := by
  have putOff : Keeps p t a (a.putOff u timePoint) := setThread a fun before =>
    lasting.status _ _ (by rfl) (lasting.sleepTime _ timePoint before)
  exact putOff.trans (of_threads (addSleeping_threads ..))

theorem enter : Keeps p t a (a.enter cfg u) := by
  have entered : Keeps p t a (a.setThread u (cfg.entered (a.threads u))) := by
    apply setThread
    intro before
    unfold SchedulerCfd.entered
    split
    case h_1 =>
      split
      · exact lasting.computedRM rfl _ before
      · exact before
    case h_2 => exact before
  cases sleeps : cfg.sleepsUntil (a.threads u) with
  | none =>
    rw [enter_awake cfg a u sleeps]
    exact entered.trans (of_threads (addReady_threads ..))
  | some timePoint =>
    rw [enter_asleep cfg a u sleeps]
    exact entered.trans (sleep _ lasting timePoint)

theorem wake : Keeps p t a (a.wake cfg u) := by
  unfold Queues.wake
  split
  · exact refl p t a
  · split
    · exact refl p t a
    · exact enter a lasting

theorem dispatcherUnblock : Keeps p t a (a.dispatcherUnblock cfg u) := by
  unfold Queues.dispatcherUnblock
  split
  · exact refl p t a
  · exact trans (of_threads (by rfl)) (enter (a.remove u) lasting)

omit lasting in
theorem dispatcherBlock : Keeps p t a (a.dispatcherBlock u) := of_threads (leave_threads ..)

theorem block : Keeps p t a (a.block u) :=
  trans (flags a lasting _ (by rfl)) (dispatcherBlock _)

theorem computePriority : Keeps p t a (a.computePriority cfg u) := by
  unfold Queues.computePriority
  split
  · exact refl p t a
  · exact setThread a (lasting.computedRM rfl _)
  · exact setThread a (lasting.computedEDF rfl _)

theorem unblock : Keeps p t a (a.unblock cfg u) := by
  unfold Queues.unblock
  split
  · dsimp only
    have cleared : Keeps p t a (a.setThread u ((a.threads u).setBlocked false)) :=
      flags a lasting _ (by rfl)
    split
    · exact cleared
    · exact cleared.trans (trans (flags _ lasting _ (by rfl)) (dispatcherUnblock _ lasting))
  · exact refl p t a

theorem stop : Keeps p t a (a.stop u) := by
  have stopped : Keeps p t a (a.setThread u ((a.threads u).setStopped true)) :=
    flags a lasting _ (by rfl)
  unfold Queues.stop
  dsimp only
  split
  · exact stopped
  · exact stopped.trans (dispatcherBlock _)

theorem resume : Keeps p t a (a.resume cfg u) := by
  have cleared : Keeps p t a (a.setThread u ((a.threads u).setStopped false)) :=
    flags a lasting _ (by rfl)
  unfold Queues.resume
  dsimp only
  split
  · exact cleared
  · exact cleared.trans (trans (flags _ lasting _ (by rfl)) (dispatcherUnblock _ lasting))

theorem sigwait (signaltype : SignalType) (sig : Nat) :
    Keeps p t a (a.sigwait signaltype u sig) := by
  have waits : Keeps p t a (a.setThread u
      (({ a.threads u with signal := sig }).setReady false |>.setSignal true)) :=
    setThread a fun before => lasting.status _ _ (by rfl) (lasting.status _ _ (by rfl)
      (lasting.signal _ sig (a.threads u).signalvalue before))
  exact waits.trans (of_threads (leave_threads ..))

theorem pushPriority (newPriority m : Nat) :
    Keeps p t a (a.pushPriority cfg u newPriority m) := by
  have pushed : Keeps p t a (a.setThread u { a.threads u with
      priority := ((a.threads u).priority.pushPriority newPriority m).1 }) := by
    apply setThread
    apply lasting.priority
    unfold PriorityThread.pushPriority
    split
    · rfl
    · split
      · rfl
      · rfl
  unfold Queues.pushPriority
  dsimp only
  split
  · exact pushed.trans (trans (of_threads (by rfl)) (enter (Queues.remove _ u) lasting))
  · exact pushed

theorem popPriority (m : Nat) : Keeps p t a (a.popPriority u m) := by
  apply setThread
  apply lasting.priority
  unfold PriorityThread.popPriority
  split
  · rfl
  · dsimp only
    split
    · rfl
    · split
      · rfl
      · rfl

end Operations

section Loops

variable (lasting : Lasting cfg p) (a)

include lasting

theorem signalled (sigvalue : Int) : Keeps p t a (a.signalled u sigvalue) :=
  setThread a fun before => lasting.signal _ (a.threads u).signal sigvalue
    (lasting.status _ { (a.threads u).status with signal := false } (by rfl) before)

theorem signal (signaltype : SignalType) (sig : Nat) (sigvalue : Int) :
    Keeps p t a (a.signal cfg signaltype sig sigvalue) := by
  refine walkList_invariant (fun b _ => Keeps p t a b) ?_ _ a (refl p t a)
  intro b u rest before
  left
  rw [visitWaiting]
  split
  · split
    · exact ⟨_, rfl, before.trans (signalled b lasting sigvalue)⟩
    · exact ⟨_, rfl, (before.trans (signalled b lasting sigvalue)).trans (wake _ lasting)⟩
  · exact ⟨b, rfl, before⟩

theorem getNextTimerEvent (currentTime : Nat) :
    Keeps p t a (a.getNextTimerEvent cfg currentTime) := by
  refine walkList_invariant (fun b _ => Keeps p t a b.1) ?_ _ (a, a.headPriority) (refl p t a)
  intro b u rest before
  rw [visitSleeping]
  split
  · have woken : Keeps p t b.1 (b.1.awake u) := setThread b.1 fun before =>
      lasting.sleepTime _ 0 (lasting.status _ _ (by rfl) before)
    exact .inl ⟨_, rfl, before.trans (woken.trans (enter _ lasting))⟩
  · split
    · exact .inr ⟨b, rfl, before⟩
    · exact .inl ⟨b, rfl, before⟩

theorem preempt : Keeps p t a (a.preempt cfg) := by
  unfold Queues.preempt
  split
  case h_1 u running => exact trans (of_threads (by rfl)) (enter { a with running := none } lasting)
  case h_2 => exact refl p t a

/-- The thread that is chosen is counted and not new any more. -/
theorem dispatch (currentTime : Nat)
    (chosen : ∀ thread n, p thread → p { thread.setNew false with instanceNumber := n }) :
    Keeps p t a (a.dispatch cfg currentTime) := by
  refine trans (preempt a lasting) (trans (getNextTimerEvent _ lasting currentTime) ?_)
  rw [Queues.dispatch, Queues.runNext]
  split
  · exact trans (of_threads (by rfl)) (setThread _ fun before => chosen _ _ before)
  · exact of_threads rfl

/-- The end of another thread. -/
theorem terminateThread (other : u ≠ t) : Keeps p t a (a.terminateThread cfg u) := by
  have terminated : Keeps p t a (a.realTimeTerminate cfg u) := by
    unfold Queues.realTimeTerminate
    split
    · have renewed : Keeps p t a (a.setThread u (a.threads u).renew) :=
        of_untouched (Untouched.setThread a other _)
      exact renewed.trans ((computePriority _ lasting).trans (sleep _ lasting _))
    · have ended : Keeps p t a (a.ended u) :=
        of_untouched ((Untouched.setThread a other _).trans (Untouched.remove _ other))
      exact ended.trans (signal _ lasting _ _ _)
  unfold Queues.terminateThread
  dsimp only
  split
  · exact terminated
  · exact terminated.trans (of_threads (leave_threads ..))

/-- An event that neither dispatches nor ends the thread. -/
theorem perform {event : Kernel.Event τ} (goesOn : event ≠ .terminateThread t)
    (other : event.isDispatch = false) : Keeps p t a (a.perform cfg event) := by
  cases event with
  | run u => exact trans (flags a lasting _ (by rfl)) (enter _ lasting)
  | computePriority u => exact computePriority a lasting
  | sleep u timePoint => exact sleep a lasting timePoint
  | block u => exact block a lasting
  | unblock u => exact unblock a lasting
  | stop u => exact stop a lasting
  | resume u => exact resume a lasting
  | sigwait signaltype u sig => exact sigwait a lasting signaltype sig
  | signal signaltype sig sigvalue => exact signal a lasting signaltype sig sigvalue
  | pushPriority u newPriority m => exact pushPriority a lasting newPriority m
  | popPriority u m => exact popPriority a lasting m
  | softTerminate u => exact flags a lasting _ (by rfl)
  | terminateThread u => exact terminateThread a lasting fun same => goesOn (same ▸ rfl)
  | dispatch currentTime => cases other

end Loops

end Keeps

section Dispatch

variable [DecidableEq τ] {a : Queues τ} {t : τ} {cfg : SchedulerCfd} {currentTime : Nat}

/-- A thread that does not sleep or whose time has not come is left alone by the scan. -/
theorem Untouched.scan (late : t ∈ a.queue .sleep → currentTime < (a.threads t).sleepTime) :
    Untouched t a (a.getNextTimerEvent cfg currentTime) := by
  have members : ∀ u ∈ a.queue .sleep, u = t → currentTime < (a.threads t).sleepTime :=
    fun u member same => late (same ▸ member)
  refine (walkList_invariant (fun b rest =>
    (∀ u ∈ rest, u = t → currentTime < (a.threads t).sleepTime) ∧ Untouched t a b.1) ?_ _
    (a, a.headPriority) ⟨members, Untouched.refl t a⟩).2
  rintro b u rest ⟨late, before⟩
  have later : ∀ v ∈ rest, v = t → currentTime < (a.threads t).sleepTime :=
    fun v member => late v (.tail _ member)
  rw [visitSleeping]
  split
  case isTrue due =>
    have other : u ≠ t := by
      intro same
      have asleep := late u (.head _) same
      rw [same, before.threads] at due
      exact absurd due (Nat.not_le.mpr asleep)
    exact .inl ⟨_, rfl, later, before.trans
      ((Untouched.setThread b.1 other _).trans (Untouched.enter _ other))⟩
  case isFalse =>
    split
    · exact .inr ⟨b, rfl, by simp, before⟩
    · exact .inl ⟨b, rfl, later, before⟩

/-- The thread that is chosen is another one. -/
theorem Untouched.passedOver (other : (a.queue .ready).head? ≠ some t) :
    Untouched t a a.runNext := by
  unfold Queues.runNext
  split
  case h_1 u head =>
    have other : u ≠ t := fun same => other (same ▸ head)
    have begun : Untouched t (a.remove u)
        { a.remove u with running := some u, dispatching := false } :=
      ⟨rfl, fun _ => Iff.rfl, fun _ same => other (Option.some.inj same)⟩
    exact ((Untouched.remove a other).trans begun).trans (Untouched.setThread _ other _)
  case h_2 => exact ⟨rfl, fun _ => Iff.rfl, fun _ none => by cases none⟩

/-- The thread that is chosen runs and is not new any more. -/
theorem runNext_chosen (head : (a.queue .ready).head? = some t) :
    a.runNext.running = some t ∧ (a.runNext.threads t).isNew = false := by
  unfold Queues.runNext
  rw [head]
  dsimp only
  rw [setThread_running, setThread_threads, if_pos rfl]
  exact ⟨rfl, rfl⟩

/-- The scan does not put a thread on another list, nor does it choose one to run. -/
structure Apart (t : τ) (a : Queues τ) : Prop where
  running : a.running ≠ some t
  absent : ∀ q, q ≠ .ready → q ≠ .sleep → q ≠ .blocked → t ∉ a.queue q

omit [DecidableEq τ] in
theorem Apart.untouched {b : Queues τ} (apart : Apart t a) (untouched : Untouched t a b) :
    Apart t b :=
  ⟨untouched.running apart.running, fun q notReady notAsleep notBlocked member =>
    apart.absent q notReady notAsleep notBlocked ((untouched.queue q).mp member)⟩

theorem Apart.setThread {u : τ} (apart : Apart t a) (thread : Thread) :
    Apart t (a.setThread u thread) := ⟨apart.running, apart.absent⟩

/-- A thread itself enters. -/
theorem Apart.enter (apart : Apart t a) {u : τ} : Apart t (a.enter cfg u) := by
  by_cases other : u = t
  · subst other
    refine ⟨?_, fun q notReady notAsleep notBlocked member => ?_⟩
    · cases sleeps : cfg.sleepsUntil (a.threads u) with
      | none =>
        rw [enter_awake cfg a u sleeps, addReady_running]
        exact apart.running
      | some timePoint =>
        rw [enter_asleep cfg a u sleeps, Queues.sleep, addSleeping_running]
        split
        · simp
        · exact apart.running
    · rw [enter_queue_of_ne cfg a u notReady notAsleep] at member
      simp at member
  · exact apart.untouched (Untouched.enter a other)

theorem Apart.scan (apart : Apart t a) : Apart t (a.getNextTimerEvent cfg currentTime) := by
  refine walkList_invariant (fun b _ => Apart t b.1) ?_ _ (a, a.headPriority) apart
  intro b u rest before
  rw [visitSleeping]
  split
  · exact .inl ⟨_, rfl, (before.setThread _).enter⟩
  · split
    · exact .inr ⟨b, rfl, before⟩
    · exact .inl ⟨b, rfl, before⟩

end Dispatch

end Orcos.Source.Queues

/-!
A thread whose release time has not come. As long as its sleep time is no earlier it neither gets
into the queue of the scheduler nor runs, unless it enters there itself.
-/
namespace Orcos.Source.Queues
open Orcos.Lib.Walk

variable {τ : Type}

/-- The thread neither runs nor is ready, and is not to wake before its release. -/
structure Held (release : Nat) (t : τ) (a : Queues τ) : Prop where
  running : a.running ≠ some t
  notReady : t ∉ a.queue .ready
  asleep : release ≤ (a.threads t).sleepTime

variable [DecidableEq τ]

/-- An event that does not release the thread early: when it enters the queue of the scheduler
or goes to sleep, it is until its release at least. -/
def Allows (cfg : SchedulerCfd) (release : Nat) (t : τ) (a : Queues τ) : Kernel.Event τ → Prop
  | .run u => u = t → release ≤ (cfg.sleepsUntil (a.threads t)).getD 0
  | .sleep u timePoint => u = t → release ≤ timePoint
  | .pushPriority u newPriority m => u = t →
    ((a.threads t).priority.pushPriority newPriority m).2 = true →
      release ≤ (cfg.sleepsUntil (a.threads t)).getD 0
  | .terminateThread u => u ≠ t
  | .dispatch currentTime => currentTime < release
  | _ => True

instance (cfg : SchedulerCfd) (release : Nat) (t : τ) (a : Queues τ) :
    (event : Kernel.Event τ) → Decidable (Allows cfg release t a event)
  | .run _ => inferInstanceAs (Decidable (_ = _ → _ ≤ _))
  | .sleep _ _ => inferInstanceAs (Decidable (_ = _ → _ ≤ _))
  | .pushPriority _ _ _ => inferInstanceAs (Decidable (_ = _ → _ = _ → _ ≤ _))
  | .terminateThread _ => inferInstanceAs (Decidable (_ ≠ _))
  | .dispatch _ => inferInstanceAs (Decidable (_ < _))
  | .computePriority _ | .block _ | .unblock _ | .stop _ | .resume _ | .sigwait .. | .signal ..
  | .popPriority .. | .softTerminate _ => inferInstanceAs (Decidable True)

namespace Held

variable {release : Nat} {a b : Queues τ} {t u : τ} {cfg : SchedulerCfd}

omit [DecidableEq τ] in
theorem untouched (held : Held release t a) (untouched : Untouched t a b) : Held release t b :=
  ⟨untouched.running held.running, fun member => held.notReady ((untouched.queue _).mp member), by
    rw [untouched.threads]
    exact held.asleep⟩

theorem setThread (held : Held release t a) {thread : Thread}
    (asleep : u = t → release ≤ thread.sleepTime) : Held release t (a.setThread u thread) := by
  refine ⟨held.running, held.notReady, ?_⟩
  rw [setThread_threads]
  split
  case isTrue here => exact asleep here.symm
  case isFalse => exact held.asleep

/-- Other members change. -/
theorem setSame (held : Held release t a) {thread : Thread}
    (same : thread.sleepTime = (a.threads u).sleepTime) :
    Held release t (a.setThread u thread) := by
  apply held.setThread
  intro here
  rw [same, here]
  exact held.asleep

theorem addTail (held : Held release t a) {q : QueueName} (other : q ≠ .ready) :
    Held release t (a.addTail u q) := by
  refine ⟨held.running, fun member => ?_, held.asleep⟩
  rcases (mem_addTail ..).mp member with ⟨_, ready⟩ | ⟨before, _⟩
  · exact other ready.symm
  · exact held.notReady before

theorem remove (held : Held release t a) : Held release t (a.remove u) :=
  ⟨held.running, fun member => held.notReady ((mem_remove ..).mp member).1, held.asleep⟩

theorem leave (held : Held release t a) : Held release t (a.leave u) := by
  refine ⟨?_, ?_, ?_⟩
  · rw [leave_running]
    split
    · simp
    · exact held.running
  · rw [leave_queue]
    exact held.notReady
  · rw [leave_threads]
    exact held.asleep

theorem sleep (held : Held release t a) {timePoint : Nat} (late : u = t → release ≤ timePoint) :
    Held release t (a.sleep u timePoint) := by
  have putOff : Held release t (a.putOff u timePoint) := held.setThread late
  refine ⟨?_, fun member => ?_, ?_⟩
  · rw [Queues.sleep, addSleeping_running]
    split
    · simp
    · exact putOff.running
  · rcases (mem_addSleeping ..).mp member with ⟨_, asleep⟩ | ⟨before, _⟩
    · cases asleep
    · exact putOff.notReady before
  · rw [Queues.sleep, addSleeping_threads]
    exact putOff.asleep

section Released

variable (positive : 0 < release)

include positive

/-- The scheduler puts the thread to sleep when it enters. -/
theorem enter (held : Held release t a)
    (late : u = t → release ≤ (cfg.sleepsUntil (a.threads t)).getD 0) :
    Held release t (a.enter cfg u) := by
  by_cases other : u = t
  · subst other
    have late := late rfl
    cases sleeps : cfg.sleepsUntil (a.threads u) with
    | none =>
      rw [sleeps] at late
      exact absurd late (Nat.not_le.mpr positive)
    | some timePoint =>
      rw [sleeps] at late
      rw [enter_asleep cfg a u sleeps]
      apply sleep
      · apply held.setSame
        unfold SchedulerCfd.entered
        split
        · split
          · rfl
          · rfl
        · rfl
      · exact fun _ => late
  · exact held.untouched (Untouched.enter a other)

theorem wake (held : Held release t a) : Held release t (a.wake cfg u) := by
  unfold Queues.wake
  split
  · exact held.addTail (by decide)
  · split
    · exact held.addTail (by decide)
    case isFalse awake =>
      apply held.enter positive
      intro here
      subst here
      exact absurd (positive.trans_le held.asleep) awake

theorem dispatcherUnblock (held : Held release t a) :
    Held release t (a.dispatcherUnblock cfg u) := by
  unfold Queues.dispatcherUnblock
  split
  · exact held.addTail (by decide)
  case isFalse awake =>
    apply held.remove.enter positive
    intro here
    subst here
    exact absurd (positive.trans_le held.asleep) awake

omit positive in
theorem dispatcherBlock (held : Held release t a) : Held release t (a.dispatcherBlock u) :=
  (held.addTail (by decide)).leave

omit positive in
theorem block (held : Held release t a) : Held release t (a.block u) :=
  dispatcherBlock (held.setSame (by rfl))

theorem unblock (held : Held release t a) : Held release t (a.unblock cfg u) := by
  unfold Queues.unblock
  split
  · dsimp only
    have cleared : Held release t (a.setThread u ((a.threads u).setBlocked false)) :=
      held.setSame rfl
    split
    · exact cleared
    · exact dispatcherUnblock positive (cleared.setSame (by rfl))
  · exact held

omit positive in
theorem stop (held : Held release t a) : Held release t (a.stop u) := by
  have stopped : Held release t (a.setThread u ((a.threads u).setStopped true)) :=
    held.setSame rfl
  unfold Queues.stop
  dsimp only
  split
  · exact stopped
  · exact stopped.dispatcherBlock

theorem resume (held : Held release t a) : Held release t (a.resume cfg u) := by
  have cleared : Held release t (a.setThread u ((a.threads u).setStopped false)) :=
    held.setSame rfl
  unfold Queues.resume
  dsimp only
  split
  · exact cleared
  · exact dispatcherUnblock positive (cleared.setSame (by rfl))

omit positive in
theorem sigwait (held : Held release t a) (signaltype : SignalType) (sig : Nat) :
    Held release t (a.sigwait signaltype u sig) := by
  have waits : Held release t (a.setThread u
      (({ a.threads u with signal := sig }).setReady false |>.setSignal true)) :=
    held.setSame rfl
  exact (waits.addTail (by cases signaltype <;> decide)).leave

theorem signal (held : Held release t a) (signaltype : SignalType) (sig : Nat) (sigvalue : Int) :
    Held release t (a.signal cfg signaltype sig sigvalue) := by
  refine walkList_invariant (fun b _ => Held release t b) ?_ _ a held
  intro b u rest before
  left
  have told : Held release t (b.signalled u sigvalue) := before.setSame rfl
  rw [visitWaiting]
  split
  · split
    · exact ⟨_, rfl, told⟩
    · exact ⟨_, rfl, told.wake positive⟩
  · exact ⟨b, rfl, before⟩

omit positive in
theorem computePriority (held : Held release t a) : Held release t (a.computePriority cfg u) := by
  unfold Queues.computePriority
  split
  · exact held
  · exact held.setSame rfl
  · apply held.setSame
    unfold Thread.computePriorityEDF
    split
    · rfl
    · split
      · rfl
      · rfl

theorem pushPriority (held : Held release t a) (newPriority m : Nat)
    (late : u = t → ((a.threads t).priority.pushPriority newPriority m).2 = true →
      release ≤ (cfg.sleepsUntil (a.threads t)).getD 0) :
    Held release t (a.pushPriority cfg u newPriority m) := by
  have pushed : Held release t (a.setThread u { a.threads u with
      priority := ((a.threads u).priority.pushPriority newPriority m).1 }) := held.setSame rfl
  unfold Queues.pushPriority
  dsimp only
  split
  case isTrue entered =>
    apply pushed.remove.enter positive
    intro here
    subst here
    have late := late rfl entered
    rw [remove_threads, setThread_threads, if_pos rfl]
    cases cfg with
    | roundRobin _ => exact late
    | rateMonotonic => exact late
    | earliestDeadlineFirst => exact late
  case isFalse => exact pushed

theorem terminateThread (held : Held release t a) (other : u ≠ t) :
    Held release t (a.terminateThread cfg u) := by
  have terminated : Held release t (a.realTimeTerminate cfg u) := by
    unfold Queues.realTimeTerminate
    split
    · have renewed : Held release t (a.setThread u (a.threads u).renew) :=
        held.setThread fun here => absurd here other
      exact renewed.computePriority.sleep fun here => absurd here other
    · have ended : Held release t (a.ended u) :=
        (held.setThread fun here => absurd here other).remove
      exact ended.signal positive _ _ _
  unfold Queues.terminateThread
  dsimp only
  split
  · exact terminated
  · exact terminated.remove.leave

omit positive in
/-- A dispatch before the release passes the thread over. -/
theorem dispatch (held : Held release t a) {currentTime : Nat} (early : currentTime < release) :
    Held release t (a.dispatch cfg currentTime) := by
  have preempted := held.untouched (Untouched.preempt cfg held.running)
  have quiet : Untouched t (a.preempt cfg) ((a.preempt cfg).getNextTimerEvent cfg currentTime) :=
    Untouched.scan fun _ => early.trans_le preempted.asleep
  have scanned := preempted.untouched quiet
  apply scanned.untouched (Untouched.passedOver fun head => ?_)
  exact scanned.notReady (List.mem_of_mem_head? head)

/-- Every event that is allowed. -/
theorem perform (held : Held release t a) {event : Kernel.Event τ}
    (allowed : Allows cfg release t a event) : Held release t (a.perform cfg event) := by
  cases event with
  | run u =>
    have ready : Held release t (a.setThread u ((a.threads u).setReady true)) := held.setSame rfl
    apply ready.enter positive
    intro here
    subst here
    rw [setThread_threads, if_pos rfl]
    exact allowed rfl
  | computePriority u => exact held.computePriority
  | sleep u timePoint => exact held.sleep allowed
  | block u => exact held.block
  | unblock u => exact held.unblock positive
  | stop u => exact held.stop
  | resume u => exact held.resume positive
  | sigwait signaltype u sig => exact held.sigwait signaltype sig
  | signal signaltype sig sigvalue => exact held.signal positive signaltype sig sigvalue
  | pushPriority u newPriority m => exact held.pushPriority positive newPriority m allowed
  | popPriority u m => exact held.setSame rfl
  | softTerminate u => exact held.setSame rfl
  | terminateThread u => exact held.terminateThread positive allowed
  | dispatch currentTime => exact held.dispatch allowed

end Released

end Held

end Orcos.Source.Queues
