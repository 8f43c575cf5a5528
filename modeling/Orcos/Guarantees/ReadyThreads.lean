import Orcos.Source.DispatcherSteps

/-!
Who may be dispatched: `enter` of the schedulers is called by
src/source/scheduler/SingleCPUDispatcher.cc, src/source/process/Thread.cc and
`PriorityThread::pushPriority`.

A thread in the queue of the scheduler has the ready flag and is neither blocked
nor stopped nor asleep, as long as `pushPriority` raises runnable threads only
and no signal enters a thread, whose ready flag it leaves cleared.
-/
namespace Orcos.Guarantees.ReadyThreads
open Orcos.Lib Orcos.Lib.Runs Orcos.Lib.Walk Orcos.Source

variable {τ : Type}

/-- Neither blocked nor stopped. -/
def Free (thread : Thread) : Prop := thread.isBlocked = false ∧ thread.isStopped = false

instance (thread : Thread) : Decidable (Free thread) := inferInstanceAs (Decidable (_ ∧ _))

/-- The status says that the thread is ready and not blocked, stopped or asleep. -/
def Runnable (thread : Thread) : Prop :=
  thread.isReady = true ∧ Free thread ∧ thread.isSleeping = false

instance (thread : Thread) : Decidable (Runnable thread) := inferInstanceAs (Decidable (_ ∧ _))

theorem runnable_iff {thread : Thread} :
    Runnable thread ↔ thread.isReady = true ∧ Free thread := by
  constructor
  · exact fun runnable => ⟨runnable.1, runnable.2.1⟩
  · rintro ⟨ready, free⟩
    have ready' : thread.status.ready = true := ready
    exact ⟨ready, free, by simp [Thread.isSleeping, ready']⟩

/-- The flags that count are the same. -/
def SameFlags (thread other : Thread) : Prop :=
  thread.isReady = other.isReady ∧ thread.isBlocked = other.isBlocked ∧
    thread.isStopped = other.isStopped

theorem SameFlags.free {thread other : Thread} (same : SameFlags thread other)
    (free : Free other) : Free thread := ⟨same.2.1.trans free.1, same.2.2.trans free.2⟩

theorem SameFlags.runnable {thread other : Thread} (same : SameFlags thread other)
    (runnable : Runnable other) : Runnable thread := by
  rw [runnable_iff] at runnable ⊢
  exact ⟨same.1.trans runnable.1, same.free runnable.2⟩

/-- Ready threads and the running one are runnable and sleeping ones are free,
except for some. -/
structure Eligible (a : Queues τ) (except : List τ) : Prop where
  ready : ∀ u ∈ a.queue .ready, u ∉ except → Runnable (a.threads u)
  running : ∀ u, a.running = some u → u ∉ except → Runnable (a.threads u)
  sleep : ∀ u ∈ a.queue .sleep, u ∉ except → Free (a.threads u)

/-- A thread that a signal enters has the ready flag. -/
def Announced (cfg : SchedulerCfd) (thread : Thread) : Prop :=
  Free thread → thread.sleepTime = 0 → cfg.sleepsUntil thread = none → thread.isReady = true

instance (cfg : SchedulerCfd) (thread : Thread) : Decidable (Announced cfg thread) :=
  inferInstanceAs (Decidable (_ → _ → _ → _))

/-- Each thread that the signal reaches. -/
def SignalsReady (cfg : SchedulerCfd) (a : Queues τ) (sig : Nat) (waiting : List τ) : Prop :=
  ∀ u ∈ waiting, (a.threads u).signal = sig → Announced cfg (a.threads u)

instance (cfg : SchedulerCfd) (a : Queues τ) (sig : Nat) (waiting : List τ) :
    Decidable (SignalsReady cfg a sig waiting) :=
  inferInstanceAs (Decidable (∀ u ∈ _, _))

/-- A priority is raised while the thread is runnable, a thread is run or put to
sleep while it is free, and a signal does not enter a thread that is not ready. -/
def KeepsEligible [DecidableEq τ] (cfg : SchedulerCfd) (a : Queues τ) : Kernel.Event τ → Prop
  | .run t | .sleep t _ => Free (a.threads t)
  | .pushPriority t newPriority m =>
    m ≠ 0 → (a.threads t).effectivePriority < newPriority → Runnable (a.threads t)
  | .signal signaltype sig _ => SignalsReady cfg a sig (a.queue signaltype.list)
  | .terminateThread t => Queues.renews (a.threads t) = false →
      SignalsReady cfg (a.ended t) (Kernel.childTerminated (a.threads t).owner)
        ((a.ended t).queue .wait)
  | _ => True

instance [DecidableEq τ] (cfg : SchedulerCfd) (a : Queues τ) :
    (event : Kernel.Event τ) → Decidable (KeepsEligible cfg a event)
  | .run _ | .sleep _ _ => inferInstanceAs (Decidable (Free _))
  | .pushPriority .. => inferInstanceAs (Decidable (_ → _ → Runnable _))
  | .signal .. => inferInstanceAs (Decidable (SignalsReady ..))
  | .terminateThread _ => inferInstanceAs (Decidable (_ → SignalsReady ..))
  | .computePriority _ | .block _ | .unblock _ | .stop _ | .resume _ | .sigwait .. | .dispatch _
  | .popPriority .. | .softTerminate _ => inferInstanceAs (Decidable True)

section Moves

variable [DecidableEq τ] {a : Queues τ} {t : τ} {q : QueueName} {except : List τ}
  {cfg : SchedulerCfd}

omit [DecidableEq τ] in
theorem Eligible.but (eligible : Eligible a except) (t : τ) : Eligible a (t :: except) :=
  ⟨fun u member other => eligible.ready u member fun inside => other (.tail _ inside),
    fun u running other => eligible.running u running fun inside => other (.tail _ inside),
    fun u member other => eligible.sleep u member fun inside => other (.tail _ inside)⟩

theorem Eligible.setThread (eligible : Eligible a (t :: except)) (thread : Thread) :
    Eligible (a.setThread t thread) (t :: except) := by
  have same : ∀ u ∉ t :: except, (a.setThread t thread).threads u = a.threads u := by
    intro u other
    have differ : u ≠ t := fun here => other (here ▸ List.mem_cons_self)
    rw [Queues.setThread_threads, if_neg differ]
  constructor
  · intro u member other
    rw [same u other]
    exact eligible.ready u member other
  · intro u running other
    rw [same u other]
    exact eligible.running u running other
  · intro u member other
    rw [same u other]
    exact eligible.sleep u member other

theorem Eligible.update (eligible : Eligible a except) {thread : Thread}
    (same : SameFlags thread (a.threads t)) : Eligible (a.setThread t thread) except := by
  have flags : ∀ u, SameFlags ((a.setThread t thread).threads u) (a.threads u) := by
    intro u
    rw [Queues.setThread_threads]
    split
    case isTrue here => exact here ▸ same
    case isFalse => exact ⟨rfl, rfl, rfl⟩
  exact ⟨fun u member other => (flags u).runnable (eligible.ready u member other),
    fun u running other => (flags u).runnable (eligible.running u running other),
    fun u member other => (flags u).free (eligible.sleep u member other)⟩

/-- A thread is moved to a place where it may be. -/
theorem Eligible.move (eligible : Eligible a (t :: except)) (p : τ → Bool)
    (ready : q = .ready → Runnable (a.threads t)) (sleep : q = .sleep → Free (a.threads t))
    (running : a.running = some t → t ∉ except → Runnable (a.threads t)) :
    Eligible (a.move t q p) except := by
  have others : ∀ u, u ≠ t → u ∉ except → u ∉ t :: except := fun u other outside inside =>
    (List.mem_cons.mp inside).elim other outside
  constructor
  · intro u member outside
    rcases (Queues.mem_move a t u q .ready p).mp member with ⟨rfl, here⟩ | ⟨there, other⟩
    · exact ready here.symm
    · exact eligible.ready u there (others u other outside)
  · intro u runs outside
    by_cases same : u = t
    · subst same
      exact running runs outside
    · exact eligible.running u runs (others u same outside)
  · intro u member outside
    rcases (Queues.mem_move a t u q .sleep p).mp member with ⟨rfl, here⟩ | ⟨there, other⟩
    · exact sleep here.symm
    · exact eligible.sleep u there (others u other outside)

omit [DecidableEq τ] in
theorem Eligible.idle (eligible : Eligible a except) :
    Eligible { a with running := none } except :=
  ⟨eligible.ready, fun _ runs => (by cases runs), eligible.sleep⟩

theorem Eligible.leave (idle : Eligible { a with running := none } except)
    (eligible : Eligible a (t :: except)) : Eligible (a.leave t) except := by
  unfold Queues.leave
  split
  case isTrue => exact ⟨idle.ready, fun _ runs => (by cases runs), idle.sleep⟩
  case isFalse stays =>
    refine ⟨idle.ready, fun u runs outside => eligible.running u runs fun inside => ?_, idle.sleep⟩
    rcases List.mem_cons.mp inside with rfl | inside
    · exact stays runs
    · exact outside inside

/-- The same when the thread does not run on. -/
theorem Eligible.move_leave (eligible : Eligible a (t :: except)) (p : τ → Bool)
    (ready : q ≠ .ready) (sleep : q = .sleep → Free (a.threads t)) :
    Eligible ((a.move t q p).leave t) except := by
  have idle : Eligible ({ a with running := none }.move t q p) except :=
    eligible.idle.move p (fun here => absurd here ready) sleep fun runs => (by cases runs)
  exact Eligible.leave idle ((eligible.but t).move p (fun here => absurd here ready) sleep
    fun _ outside => absurd List.mem_cons_self outside)

theorem Eligible.sleepUntil (eligible : Eligible a (t :: except)) (free : Free (a.threads t))
    (timePoint : Nat) : Eligible (a.sleep t timePoint) except := by
  refine (eligible.setThread _).move_leave _ (by decide) fun _ => ?_
  rw [Queues.setThread_threads, if_pos rfl]
  exact free

/-- The data of a thread that enters keep their flags. -/
theorem entered_flags (thread : Thread) : SameFlags (cfg.entered thread) thread := by
  cases cfg with
  | rateMonotonic =>
    unfold SchedulerCfd.entered
    simp only
    split <;> exact ⟨rfl, rfl, rfl⟩
  | _ => exact ⟨rfl, rfl, rfl⟩

/-- A free thread may enter when it is ready or falls asleep. -/
theorem Eligible.enter (eligible : Eligible a (t :: except)) (free : Free (a.threads t))
    (ready : cfg.sleepsUntil (a.threads t) = none → (a.threads t).isReady = true) :
    Eligible (a.enter cfg t) except := by
  have flags : SameFlags ((a.setThread t (cfg.entered (a.threads t))).threads t) (a.threads t) := by
    rw [Queues.setThread_threads, if_pos rfl]
    exact entered_flags _
  have stored := eligible.setThread (cfg.entered (a.threads t))
  cases sleeps : cfg.sleepsUntil (a.threads t) with
  | none =>
    have runnable := flags.runnable (runnable_iff.mpr ⟨ready sleeps, free⟩)
    rw [Queues.enter_awake cfg a t sleeps]
    cases cfg <;> exact stored.move _ (fun _ => runnable) (fun _ => flags.free free)
      fun _ _ => runnable
  | some timePoint =>
    rw [Queues.enter_asleep cfg a t sleeps]
    exact stored.sleepUntil (flags.free free) timePoint

end Moves

section Loops

variable [DecidableEq τ] {a : Queues τ} {t : τ} {except : List τ} {cfg : SchedulerCfd}

/-- A thread that wakes up gets ready. -/
theorem Eligible.getNextTimerEvent (eligible : Eligible a []) (nodup : (a.queue .sleep).Nodup)
    (currentTime : Nat) : Eligible (a.getNextTimerEvent cfg currentTime) [] := by
  refine (walkList_invariant (fun b rest => Eligible b.1 [] ∧ rest.Nodup ∧
    ∀ u ∈ rest, Free (b.1.threads u)) ?_ _ (a, a.headPriority)
    ⟨eligible, nodup, fun u member => eligible.sleep u member (by simp)⟩).1
  rintro b t rest ⟨before, nodup, free⟩
  obtain ⟨fresh, nodup⟩ := List.nodup_cons.mp nodup
  have later : ∀ u ∈ rest, Free (b.1.threads u) := fun u member => free u (.tail _ member)
  rw [Queues.visitSleeping]
  split
  · have awake : (b.1.awake t).threads t = ((b.1.threads t).setReady true).setSleepTime 0 := by
      simp [Queues.awake]
    refine .inl ⟨_, rfl, ((before.but t).setThread _).enter ?_ fun _ => ?_, nodup, ?_⟩
    · rw [← Queues.awake, awake]
      exact free t (.head _)
    · rw [← Queues.awake, awake]
      rfl
    · intro u member
      have other : u ≠ t := fun same => fresh (same ▸ member)
      rw [Queues.enter_threads_of_ne cfg _ _ other, Queues.awake, Queues.setThread_threads,
        if_neg other]
      exact later u member
  · split
    · exact .inr ⟨b, rfl, before, List.nodup_nil, by simp⟩
    · exact .inl ⟨b, rfl, before, nodup, later⟩

theorem Eligible.preempt (eligible : Eligible a []) : Eligible (a.preempt cfg) [] := by
  rw [Queues.preempt]
  split
  case h_1 t running =>
    obtain ⟨ready, free, _⟩ := eligible.running t running (by simp)
    exact (eligible.idle.but t).enter free fun _ => ready
  case h_2 => exact eligible

theorem Eligible.runNext (eligible : Eligible a []) : Eligible a.runNext [] := by
  rw [Queues.runNext]
  split
  case h_1 t head =>
    have runnable := eligible.ready t (List.mem_of_mem_head? head) (by simp)
    have moved : Eligible { a.remove t with running := some t, dispatching := false } [] := by
      refine ⟨fun u member => eligible.ready u (Queues.mem_remove a t u .ready |>.mp member).1,
        fun u runs _ => ?_, fun u member =>
          eligible.sleep u (Queues.mem_remove a t u .sleep |>.mp member).1⟩
      cases runs
      exact runnable
    exact moved.update ⟨rfl, rfl, rfl⟩
  case h_2 => exact ⟨eligible.ready, fun _ runs => (by cases runs), eligible.sleep⟩

theorem Eligible.wake (eligible : Eligible a except)
    (going : (a.threads t).isStopped = false) (announced : Announced cfg (a.threads t)) :
    Eligible (a.wake cfg t) except := by
  unfold Queues.wake
  split
  case isTrue => exact (eligible.but t).move _ (by simp) (by simp) (eligible.running t)
  case isFalse blocked =>
    have free : Free (a.threads t) := ⟨by simpa using blocked, going⟩
    split
    case isTrue => exact (eligible.but t).move _ (by simp) (fun _ => free) (eligible.running t)
    case isFalse awake =>
      exact (eligible.but t).enter free (announced free (by omega))

variable (cfg) in
theorem Eligible.signal (eligible : Eligible a except) (signaltype : SignalType)
    (nodup : (a.queue signaltype.list).Nodup)
    (outside : ∀ u ∈ a.queue signaltype.list, u ∉ except) (sig : Nat) (sigvalue : Int)
    (announced : SignalsReady cfg a sig (a.queue signaltype.list)) :
    Eligible (a.signal cfg signaltype sig sigvalue) except := by
  refine (walkList_invariant (fun b rest => Eligible b except ∧ rest.Nodup ∧
    (∀ u ∈ rest, u ∉ except) ∧ SignalsReady cfg b sig rest) ?_ _ a
    ⟨eligible, nodup, outside, announced⟩).1
  rintro b t rest ⟨before, nodup, outside, announced⟩
  obtain ⟨fresh, nodup⟩ := List.nodup_cons.mp nodup
  have others : ∀ u ∈ rest, u ≠ t := fun u member same => fresh (same ▸ member)
  have outside' : ∀ u ∈ rest, u ∉ except := fun u member => outside u (.tail _ member)
  have told : Eligible (b.signalled t sigvalue) except := before.update ⟨rfl, rfl, rfl⟩
  have kept : ∀ u ∈ rest, (b.signalled t sigvalue).threads u = b.threads u := fun u member => by
    rw [Queues.signalled, Queues.setThread_threads, if_neg (others u member)]
  have here : (b.signalled t sigvalue).threads t =
      { (b.threads t).setSignal false with signalvalue := sigvalue } := by
    rw [Queues.signalled, Queues.setThread_threads, if_pos rfl]
  have later : ∀ c : Queues τ, (∀ u ∈ rest, c.threads u = b.threads u) →
      SignalsReady cfg c sig rest := fun c same u member => by
    rw [same u member]
    exact announced u (.tail _ member)
  refine .inl ?_
  rw [Queues.visitWaiting]
  split
  case isFalse => exact ⟨b, rfl, before, nodup, outside', later b fun _ _ => rfl⟩
  case isTrue called =>
    split
    case isTrue => exact ⟨_, rfl, told, nodup, outside', later _ kept⟩
    case isFalse going =>
      have ready : Announced cfg ((b.signalled t sigvalue).threads t) := by
        rw [here]
        have known := announced t (.head _) called
        cases cfg <;> exact known
      refine ⟨_, rfl, told.wake ?_ ready, nodup, outside', later _ ?_⟩
      · have still : (b.threads t).isStopped = false := by simpa using going
        rw [here]
        exact still
      · intro u member
        rw [Queues.wake_threads_of_ne cfg _ (others u member), kept u member]

end Loops

section Operations

variable [DecidableEq τ] {a : Queues τ} {t : τ} {cfg : SchedulerCfd}

theorem Eligible.block (eligible : Eligible a []) : Eligible (a.block t) [] :=
  ((eligible.but t).setThread _).move_leave _ (by decide) (by simp)

theorem Eligible.dispatcherUnblock (eligible : Eligible a []) (free : Free (a.threads t))
    (ready : (a.threads t).isReady = true) : Eligible (a.dispatcherUnblock cfg t) [] := by
  rw [Queues.dispatcherUnblock]
  split
  · exact (eligible.but t).move _ (by simp) (fun _ => free) (eligible.running t)
  · rw [Queues.enter_remove]
    exact (eligible.but t).enter free fun _ => ready

/-- A blocked thread is neither ready nor runs nor sleeps, so its other flags do not matter. -/
theorem Eligible.reflag (eligible : Eligible a []) (blocked : (a.threads t).isBlocked = true)
    (thread : Thread) : Eligible (a.setThread t thread) [] := by
  have clash : ¬Free (a.threads t) := fun free => by
    rw [Free, blocked] at free
    cases free.1
  have stored := (eligible.but t).setThread thread
  constructor
  · intro u member _
    by_cases same : u = t
    · exact absurd (eligible.ready t (same ▸ member) (by simp)).2.1 clash
    · exact stored.ready u member (by simpa using same)
  · intro u runs _
    by_cases same : u = t
    · exact absurd (eligible.running t (same ▸ runs) (by simp)).2.1 clash
    · exact stored.running u runs (by simpa using same)
  · intro u member _
    by_cases same : u = t
    · exact absurd (eligible.sleep t (same ▸ member) (by simp)) clash
    · exact stored.sleep u member (by simpa using same)

/-- A thread whose flags let it run may be anywhere. -/
theorem Eligible.promote {b : Queues τ} (eligible : Eligible b [t]) {thread : Thread}
    (runnable : Runnable thread) : Eligible (b.setThread t thread) [] := by
  have stored := eligible.setThread thread
  have here : (b.setThread t thread).threads t = thread := by
    rw [Queues.setThread_threads, if_pos rfl]
  constructor
  · intro u member _
    by_cases same : u = t
    · rw [same, here]
      exact runnable
    · exact stored.ready u member (by simpa using same)
  · intro u runs _
    by_cases same : u = t
    · rw [same, here]
      exact runnable
    · exact stored.running u runs (by simpa using same)
  · intro u member _
    by_cases same : u = t
    · rw [same, here]
      exact runnable.2.1
    · exact stored.sleep u member (by simpa using same)

/-- A thread that is set ready, and is free, goes back to where it is to be. -/
theorem Eligible.release (eligible : Eligible a [t]) {thread : Thread} (free : Free thread) :
    Eligible ((a.setThread t (thread.setReady true)).dispatcherUnblock cfg t) [] := by
  have runnable : Runnable (thread.setReady true) := runnable_iff.mpr ⟨rfl, free⟩
  have here : (a.setThread t (thread.setReady true)).threads t = thread.setReady true := by
    rw [Queues.setThread_threads, if_pos rfl]
  refine (eligible.promote runnable).dispatcherUnblock ?_ ?_
  · rw [here]
    exact runnable.2.1
  · rw [here]
    exact runnable.1

theorem Eligible.unblock (eligible : Eligible a []) : Eligible (a.unblock cfg t) [] := by
  rw [Queues.unblock]
  split
  case isFalse => exact eligible
  case isTrue blocked =>
    dsimp only
    split
    case isTrue => exact eligible.reflag blocked _
    case isFalse going =>
      refine ((eligible.but t).setThread _).release ?_
      rw [Queues.setThread_threads, if_pos rfl] at going ⊢
      exact ⟨rfl, by simpa using going⟩

theorem Eligible.stop (eligible : Eligible a []) : Eligible (a.stop t) [] := by
  rw [Queues.stop]
  split
  case isTrue blocked =>
    rw [Queues.setThread_threads, if_pos rfl] at blocked
    exact eligible.reflag blocked _
  case isFalse =>
    exact ((eligible.but t).setThread _).move_leave _ (by decide) (by simp)

theorem Eligible.resume (eligible : Eligible a []) : Eligible (a.resume cfg t) [] := by
  rw [Queues.resume]
  split
  case isTrue blocked =>
    rw [Queues.setThread_threads, if_pos rfl] at blocked
    exact eligible.reflag blocked _
  case isFalse free =>
    refine ((eligible.but t).setThread _).release ?_
    rw [Queues.setThread_threads, if_pos rfl] at free ⊢
    exact ⟨by simpa using free, rfl⟩

theorem Eligible.pushPriority (eligible : Eligible a []) {newPriority m : Nat}
    (keeps : KeepsEligible cfg a (.pushPriority t newPriority m)) :
    Eligible (a.pushPriority cfg t newPriority m) [] := by
  rw [Queues.pushPriority, PriorityThread.pushPriority]
  split
  rename_i priority entered pushed
  split
  case isTrue raised =>
    have runnable : Runnable (a.threads t) := by
      split at pushed
      · cases pushed
        cases raised
      · rename_i nonnull
        split at pushed
        · cases pushed
          cases raised
        · rename_i low
          exact keeps nonnull (Nat.lt_of_not_le low)
    have here : (a.setThread t { a.threads t with priority := priority }).threads t =
        { a.threads t with priority := priority } := by
      rw [Queues.setThread_threads, if_pos rfl]
    rw [Queues.enter_remove]
    refine ((eligible.but t).setThread _).enter ?_ fun _ => ?_
    · rw [here]
      exact runnable.2.1
    · rw [here]
      exact runnable.1
  case isFalse => exact eligible.update ⟨rfl, rfl, rfl⟩

/-- A thread that is taken from its list and does not run may have any flags. -/
theorem Eligible.takeAway {except : List τ} (eligible : Eligible a (t :: except)) :
    Eligible (a.dispatcherTerminateThread t) except := by
  have others : ∀ u, u ≠ t → u ∉ except → u ∉ t :: except := fun u other outside inside =>
    (List.mem_cons.mp inside).elim other outside
  have idle : Eligible { a.remove t with running := none } except := by
    refine ⟨fun u member outside => ?_, fun _ runs => (by cases runs), fun u member outside => ?_⟩
    · obtain ⟨there, other⟩ := (Queues.mem_remove a t u .ready).mp member
      exact eligible.ready u there (others u other outside)
    · obtain ⟨there, other⟩ := (Queues.mem_remove a t u .sleep).mp member
      exact eligible.sleep u there (others u other outside)
  have rest : Eligible (a.remove t) (t :: except) :=
    ⟨fun u member => eligible.ready u ((Queues.mem_remove a t u .ready).mp member).1,
      eligible.running,
      fun u member => eligible.sleep u ((Queues.mem_remove a t u .sleep).mp member).1⟩
  exact Eligible.leave idle rest

theorem Eligible.renewed (eligible : Eligible a []) : Eligible (a.renewed cfg t) [t] := by
  have prepared := (eligible.but t).setThread (a.threads t).renew
  cases cfg with
  | roundRobin _ => exact prepared
  | rateMonotonic => exact prepared.setThread _
  | earliestDeadlineFirst => exact prepared.setThread _

theorem computePriorityEDF_flags (thread : Thread) :
    SameFlags thread.computePriorityEDF thread := by
  unfold Thread.computePriorityEDF
  split
  · exact ⟨rfl, rfl, rfl⟩
  · split <;> exact ⟨rfl, rfl, rfl⟩

theorem renewed_free : Free ((a.renewed cfg t).threads t) := by
  have here : (a.setThread t (a.threads t).renew).threads t = (a.threads t).renew := by
    rw [Queues.setThread_threads, if_pos rfl]
  have free : Free (a.threads t).renew := ⟨rfl, rfl⟩
  rw [Queues.renewed]
  cases cfg with
  | roundRobin _ =>
    rw [Queues.computePriority, here]
    exact free
  | rateMonotonic =>
    rw [Queues.computePriority, here, Queues.setThread_threads, if_pos rfl]
    exact free
  | earliestDeadlineFirst =>
    rw [Queues.computePriority, here, Queues.setThread_threads, if_pos rfl]
    exact (computePriorityEDF_flags _).free free

/-- The dispatcher's part of the end of a thread that is in no list. -/
theorem Eligible.finish (eligible : Eligible a [t]) (stopped : a.Idle)
    (gone : ∀ q, t ∉ a.queue q) :
    Eligible (if a.dispatching then a else a.dispatcherTerminateThread t) [] := by
  split
  case isTrue due =>
    have others : ∀ u q, u ∈ a.queue q → u ∉ [t] := fun u q member inside =>
      gone q (List.mem_singleton.mp inside ▸ member)
    exact ⟨fun u member _ => eligible.ready u member (others u _ member),
      fun u runs _ => (by cases (stopped due).symm.trans runs),
      fun u member _ => eligible.sleep u member (others u _ member)⟩
  case isFalse => exact eligible.takeAway

/-- The end of a thread. -/
theorem Eligible.terminateThread (eligible : Eligible a []) (nodup : ∀ q, (a.queue q).Nodup)
    (started : a.dispatching = false) (keeps : KeepsEligible cfg a (.terminateThread t)) :
    Eligible (a.terminateThread cfg t) [] := by
  rw [Queues.terminateThread, Queues.realTimeTerminate]
  cases periodic : Queues.renews (a.threads t) with
  | true =>
    have renewed : Eligible (a.renewed cfg t) [t] := eligible.renewed
    have asleep := renewed.sleepUntil renewed_free ((a.renewed cfg t).threads t).arrivalTime
    simp only [if_true]
    split
    · exact asleep
    · exact (asleep.but t).takeAway
  | false =>
    have ended : Eligible (a.ended t) [t] := by
      have stored := (eligible.but t).setThread
        { a.threads t with status := { Status.clear with term := true } }
      exact ⟨fun u member => stored.ready u ((Queues.mem_remove _ t u .ready).mp member).1,
        stored.running, fun u member =>
          stored.sleep u ((Queues.mem_remove _ t u .sleep).mp member).1⟩
    have absent : ∀ q, t ∉ (a.ended t).queue q := fun q => by simp [Queues.ended]
    have outside : ∀ u ∈ (a.ended t).queue .wait, u ∉ [t] := fun u member inside =>
      absent .wait (List.mem_singleton.mp inside ▸ member)
    have idle : (a.ended t).Idle := fun due => by
      cases started.symm.trans due
    have signalled := ended.signal cfg .generic ((nodup .wait).filter _) outside
      (Kernel.childTerminated (a.threads t).owner) cOk (keeps periodic)
    obtain ⟨stopped, gone⟩ := Queues.signal_absent cfg idle absent .generic
      (Kernel.childTerminated (a.threads t).owner) cOk
    exact signalled.finish stopped gone

theorem Eligible.perform (eligible : Eligible a []) (nodup : ∀ q, (a.queue q).Nodup)
    {event : Kernel.Event τ} (started : event.isDispatch = false → a.dispatching = false)
    (asleep : event.isDispatch = true → ((a.preempt cfg).queue .sleep).Nodup)
    (keeps : KeepsEligible cfg a event) : Eligible (a.perform cfg event) [] := by
  cases event with
  | dispatch currentTime =>
    exact ((eligible.preempt).getNextTimerEvent (asleep rfl) currentTime).runNext
  | run t =>
    have here : (a.setThread t ((a.threads t).setReady true)).threads t =
        (a.threads t).setReady true := by
      rw [Queues.setThread_threads, if_pos rfl]
    refine ((eligible.but t).setThread _).enter ?_ fun _ => ?_
    · rw [here]
      exact keeps
    · rw [here]
      rfl
  | computePriority t =>
    cases cfg with
    | roundRobin _ => exact eligible
    | rateMonotonic => exact eligible.update ⟨rfl, rfl, rfl⟩
    | earliestDeadlineFirst => exact eligible.update (computePriorityEDF_flags _)
  | sleep t timePoint => exact (eligible.but t).sleepUntil keeps timePoint
  | block t => exact eligible.block
  | unblock t => exact eligible.unblock
  | stop t => exact eligible.stop
  | resume t => exact eligible.resume
  | sigwait signaltype t sig =>
    exact ((eligible.but t).setThread _).move_leave _ (by cases signaltype <;> decide)
      (by cases signaltype <;> simp [SignalType.list])
  | signal signaltype sig sigvalue =>
    exact eligible.signal cfg signaltype (nodup _) (by simp) sig sigvalue keeps
  | pushPriority t newPriority m => exact eligible.pushPriority keeps
  | popPriority t m => exact eligible.update ⟨rfl, rfl, rfl⟩
  | softTerminate t => exact eligible.update ⟨rfl, rfl, rfl⟩
  | terminateThread t => exact eligible.terminateThread nodup (started rfl) keeps

end Operations

section Runs

variable [DecidableEq τ] [Fintype τ]

/-- In every run of the kernel only threads whose status lets them run are in the
queue of the scheduler. -/
theorem ready_runnable (cfg : SchedulerCfd) (threads : τ → Thread)
    (events : List (Kernel.Event τ))
    (admissible : Admissible (Queues.step cfg)
      (fun a event => a.Linkable cfg event ∧ KeepsEligible cfg a event) (Queues.start threads)
      events) :
    ∃ s, Kernel.exec cfg (Kernel.start threads) events = some s ∧
      ∀ t ∈ s.list .ready, Runnable (s.threads t) := by
  have kept : ∀ s a (event : Kernel.Event τ), Refines s a → Eligible a [] →
      a.Linkable cfg event → KeepsEligible cfg a event → Eligible (a.step cfg event) [] := by
    intro s a event refines eligible linkable keeps
    rw [Queues.step]
    split
    case isTrue => exact eligible
    case isFalse begun =>
      refine eligible.perform refines.represents.nodup (fun other => ?_) (fun dispatches => ?_)
        keeps
      · simpa [other] using begun
      · cases event with
        | dispatch currentTime =>
          obtain ⟨_, _, preempted⟩ := refines.preempt le_rfl linkable.1
          exact preempted.represents.nodup .sleep
        | _ => cases dispatches
  have start : Eligible (Queues.start threads) [] :=
    ⟨fun _ member => (by cases member), fun _ runs => (by cases runs),
      fun _ member => (by cases member)⟩
  obtain ⟨s, ran, refines, eligible⟩ := (Refines.start threads).exec (fun a => Eligible a [])
    kept start events admissible
  refine ⟨s, ran, fun t member => ?_⟩
  rw [refines.list_eq] at member
  rw [refines.threads]
  exact eligible.ready t member (by simp)

/-- Two threads of one task. -/
def pair (_ : Fin 2) : Thread := Thread.create 1 0 0 none

/-- A thread is blocked, stopped and raised while it is ready. -/
theorem ready_runnable_raised :
    ∃ s, Kernel.exec .rateMonotonic (Kernel.start pair)
        [.run 0, .run 1, .dispatch 0, .block 0, .stop 0, .unblock 0, .pushPriority 1 7 1,
          .dispatch 1] = some s ∧ ∀ t ∈ s.list .ready, Runnable (s.threads t) :=
  ready_runnable .rateMonotonic pair _ (by decide +kernel)

/-- A holder that is blocked gets into the queue of the scheduler with the priority
it inherits. -/
theorem blocked_holder_ready :
    ∃ s, Kernel.exec .rateMonotonic (Kernel.start pair)
        [.run 0, .run 1, .dispatch 0, .block 0, .dispatch 1, .pushPriority 0 7 1] = some s ∧
      ∃ t ∈ s.list .ready, (s.threads t).isBlocked = true := by
  have entered : (Kernel.exec .rateMonotonic (Kernel.start pair)
      [.run 0, .run 1, .dispatch 0, .block 0, .dispatch 1, .pushPriority 0 7 1]).map
        (fun s => decide (0 ∈ s.list .ready ∧ (s.threads 0).isBlocked = true)) = some true := by
    decide +kernel
  obtain ⟨s, ran, place⟩ := Option.map_eq_some_iff.mp entered
  obtain ⟨member, blocked⟩ := of_decide_eq_true place
  exact ⟨s, ran, 0, member, blocked⟩

end Runs

end Orcos.Guarantees.ReadyThreads
