import Orcos.Source.DispatcherSteps

/-!
Where the threads are: src/source/scheduler/SingleCPUDispatcher.cc and
src/source/process/Thread.cc.

From the call of `run` to its termination a thread runs or is in one of the five
lists, and no operation loses it, as long as no item is linked behind itself. A
thread that has terminated is in none of them, as long as nothing else is done
to it.
-/
namespace Orcos.Guarantees.ThreadLists
open Orcos.Lib Orcos.Lib.Runs Orcos.Lib.Sequences Orcos.Lib.Walk Orcos.Source

variable {τ : Type}

/-- The thread runs or is in a queue. -/
def Present (a : Queues τ) (u : τ) : Prop := a.running = some u ∨ ∃ q, u ∈ a.queue q

section Moves

variable [DecidableEq τ] {a : Queues τ} {t u : τ} {q : QueueName} {cfg : SchedulerCfd}

@[simp] theorem present_setThread (thread : Thread) :
    Present (a.setThread t thread) u ↔ Present a u := Iff.rfl

theorem present_move (p : τ → Bool) : Present (a.move t q p) u ↔ u = t ∨ Present a u := by
  simp only [Present, Queues.move_running, Queues.mem_move]
  constructor
  · rintro (running | ⟨k, ⟨here, _⟩ | ⟨there, _⟩⟩)
    · exact .inr (.inl running)
    · exact .inl here
    · exact .inr (.inr ⟨k, there⟩)
  · rintro (here | running | ⟨k, there⟩)
    · exact .inr ⟨q, .inl ⟨here, rfl⟩⟩
    · exact .inl running
    · by_cases same : u = t
      · exact .inr ⟨q, .inl ⟨same, rfl⟩⟩
      · exact .inr ⟨k, .inr ⟨there, same⟩⟩

/-- A thread that leaves the processor for a queue is still there. -/
theorem present_leave (queued : t ∈ a.queue q) : Present (a.leave t) u ↔ Present a u := by
  simp only [Present, Queues.leave_running, Queues.leave_queue]
  split
  case isTrue running =>
    rw [running]
    constructor
    · rintro (none | there)
      · cases none
      · exact .inr there
    · rintro (same | there)
      · cases same
        exact .inr ⟨q, queued⟩
      · exact .inr there
  case isFalse => exact Iff.rfl

theorem present_addTail : Present (a.addTail t q) u ↔ u = t ∨ Present a u := present_move _

theorem present_addTail_leave : Present ((a.addTail t q).leave t) u ↔ u = t ∨ Present a u := by
  rw [present_leave (q := q) (by simp), present_addTail]

theorem present_addReady : Present (a.addReady cfg t) u ↔ u = t ∨ Present a u := by
  cases cfg <;> exact present_move _

theorem present_addSleeping : Present (a.addSleeping t) u ↔ u = t ∨ Present a u := by
  rw [Queues.addSleeping, present_leave (q := .sleep) (by simp), present_move]

theorem present_sleep (timePoint : Nat) :
    Present (a.sleep t timePoint) u ↔ u = t ∨ Present a u := present_addSleeping

theorem present_enter : Present (a.enter cfg t) u ↔ u = t ∨ Present a u := by
  cases sleeps : cfg.sleepsUntil (a.threads t) with
  | none =>
    rw [Queues.enter_awake cfg a t sleeps]
    exact present_addReady
  | some timePoint =>
    rw [Queues.enter_asleep cfg a t sleeps]
    exact present_sleep timePoint

theorem present_wake : Present (a.wake cfg t) u ↔ u = t ∨ Present a u := by
  unfold Queues.wake
  split
  · exact present_addTail
  · split
    · exact present_addTail
    · exact present_enter

theorem present_dispatcherUnblock :
    Present (a.dispatcherUnblock cfg t) u ↔ u = t ∨ Present a u := by
  rw [Queues.dispatcherUnblock, Queues.enter_remove]
  split
  · exact present_addTail
  · exact present_enter

end Moves

section Loops

variable [DecidableEq τ] {a : Queues τ} {t u : τ} {cfg : SchedulerCfd}

/-- A signal moves threads that are there. -/
theorem present_signal (signaltype : SignalType) (sig : Nat) (sigvalue : Int) :
    Present (a.signal cfg signaltype sig sigvalue) u ↔ Present a u := by
  refine (walkList_invariant (fun b rest => (∀ t ∈ rest, Present b t) ∧
    ∀ u, Present b u ↔ Present a u) ?_ _ a ⟨fun t member => .inr ⟨_, member⟩, fun _ => Iff.rfl⟩).2 u
  rintro b t rest ⟨there, same⟩
  have known : Present b t := there t (.head _)
  refine .inl ?_
  rw [Queues.visitWaiting]
  split
  · split
    · exact ⟨_, rfl, fun v member => there v (.tail _ member), same⟩
    · have woken : ∀ v, Present (Queues.wake cfg (b.signalled t sigvalue) t) v ↔ Present b v := by
        intro v
        rw [present_wake, Queues.signalled, present_setThread]
        exact or_iff_right_of_imp fun here => here ▸ known
      exact ⟨_, rfl, fun v member => (woken v).mpr (there v (.tail _ member)),
        fun v => (woken v).trans (same v)⟩
  · exact ⟨b, rfl, fun v member => there v (.tail _ member), same⟩

/-- So does the scan of the sleep list. -/
theorem present_getNextTimerEvent (currentTime : Nat) :
    Present (a.getNextTimerEvent cfg currentTime) u ↔ Present a u := by
  refine (walkList_invariant (fun b rest => (∀ t ∈ rest, Present b.1 t) ∧
    ∀ u, Present b.1 u ↔ Present a u) ?_ _ (a, a.headPriority)
    ⟨fun t member => .inr ⟨_, member⟩, fun _ => Iff.rfl⟩).2 u
  rintro b t rest ⟨there, same⟩
  have known : Present b.1 t := there t (.head _)
  rw [Queues.visitSleeping]
  split
  · have woken : ∀ v, Present (Queues.enter cfg (b.1.awake t) t) v ↔ Present b.1 v := by
      intro v
      rw [present_enter, Queues.awake, present_setThread]
      exact or_iff_right_of_imp fun here => here ▸ known
    exact .inl ⟨_, rfl, fun v member => (woken v).mpr (there v (.tail _ member)),
      fun v => (woken v).trans (same v)⟩
  · split
    · exact .inr ⟨b, rfl, by simp, same⟩
    · exact .inl ⟨b, rfl, fun v member => there v (.tail _ member), same⟩

theorem enter_idle (idle : a.running = none) : (a.enter cfg t).running = none := by
  cases sleeps : cfg.sleepsUntil (a.threads t) with
  | none => simp [Queues.enter_awake cfg a t sleeps, idle]
  | some timePoint =>
    simp [Queues.enter_asleep cfg a t sleeps, Queues.sleep, Queues.putOff, idle]

theorem getNextTimerEvent_idle (idle : a.running = none) (currentTime : Nat) :
    (a.getNextTimerEvent cfg currentTime).running = none := by
  refine walkList_invariant (fun b _ => b.1.running = none) ?_ _ (a, a.headPriority) idle
  intro b t rest before
  rw [Queues.visitSleeping]
  split
  · exact .inl ⟨_, rfl, enter_idle before⟩
  · split
    · exact .inr ⟨b, rfl, before⟩
    · exact .inl ⟨b, rfl, before⟩

theorem preempt_idle : (a.preempt cfg).running = none := by
  rw [Queues.preempt]
  split
  · exact enter_idle rfl
  · assumption

theorem present_preempt : Present (a.preempt cfg) u ↔ Present a u := by
  rw [Queues.preempt]
  split
  case h_1 t running =>
    rw [present_enter, Present, Present, running]
    simp [eq_comm]
  case h_2 => exact Iff.rfl

/-- The thread that is to run next was in the queue of the scheduler. -/
theorem present_runNext (idle : a.running = none) : Present a.runNext u ↔ Present a u := by
  rw [Queues.runNext]
  split
  case h_1 t head =>
    have ready : t ∈ a.queue .ready := List.mem_of_mem_head? head
    simp only [Present, Queues.setThread_running, Queues.setThread_queue, Queues.mem_remove, idle]
    constructor
    · rintro (same | ⟨q, there, _⟩)
      · cases same
        exact .inr ⟨.ready, ready⟩
      · exact .inr ⟨q, there⟩
    · rintro (none | ⟨q, there⟩)
      · cases none
      · by_cases same : u = t
        · exact .inl (congrArg some same.symm)
        · exact .inr ⟨q, there, same⟩
  case h_2 =>
    simp [Present, idle]

theorem present_dispatch (currentTime : Nat) :
    Present (a.dispatch cfg currentTime) u ↔ Present a u := by
  rw [Queues.dispatch, present_runNext (getNextTimerEvent_idle preempt_idle currentTime),
    present_getNextTimerEvent, present_preempt]

end Loops

section Terminations

variable [DecidableEq τ] {a : Queues τ} {t u : τ} {cfg : SchedulerCfd}

/-- The thread goes to sleep and the rest of `terminateThread` is not reached. -/
def GoesOn (a : Queues τ) (t : τ) : Prop :=
  a.running = some t ∧ Queues.renews (a.threads t) = true

instance (a : Queues τ) (t : τ) : Decidable (GoesOn a t) := inferInstanceAs (Decidable (_ ∧ _))

theorem present_dispatcherTerminateThread :
    Present (a.dispatcherTerminateThread t) u ↔ u ≠ t ∧ Present a u := by
  simp only [Present, Queues.dispatcherTerminateThread, Queues.leave_running, Queues.leave_queue,
    Queues.remove_running, Queues.mem_remove]
  by_cases running : a.running = some t
  · by_cases same : u = t
    · simp [running, same]
    · simp [running, same, Ne.symm same]
  · by_cases same : u = t
    · simp [running, same]
    · simp [running, same]

/-- The end of a thread that is not to go on with another instance. -/
theorem present_ended (started : a.dispatching = false) :
    Present (if (a.terminate cfg t).dispatching then a.terminate cfg t
      else (a.terminate cfg t).dispatcherTerminateThread t) u ↔ u ≠ t ∧ Present a u := by
  have left : ∀ v, v ≠ t → (Present (a.terminate cfg t) v ↔ Present a v) := fun v other => by
    rw [Queues.terminate, present_signal]
    simp [Present, Queues.ended, other]
  have absent : ∀ q, t ∉ (a.ended t).queue q := fun q => by simp [Queues.ended]
  have idle : (a.ended t).Idle := fun due => by
    have := started.symm.trans due
    cases this
  obtain ⟨stopped, gone⟩ := Queues.signal_absent cfg idle absent .generic
    (Kernel.childTerminated (a.threads t).owner) cOk
  by_cases same : u = t
  · subst same
    simp only [ne_eq, not_true_eq_false, false_and, iff_false]
    split
    case isTrue due =>
      rintro (running | ⟨q, member⟩)
      · cases (stopped due).symm.trans running
      · exact gone q member
    case isFalse =>
      rw [present_dispatcherTerminateThread]
      exact fun there => there.1 rfl
  · split
    · simp [left u same, same]
    · rw [present_dispatcherTerminateThread, left u same]

theorem renewed_running : (a.renewed cfg t).running = a.running := by
  cases cfg <;> rfl

theorem renewed_dispatching : (a.renewed cfg t).dispatching = a.dispatching := by
  cases cfg <;> rfl

theorem present_renewed : Present (a.renewed cfg t) u ↔ Present a u := by
  cases cfg <;> exact Iff.rfl

theorem present_terminateThread (started : a.dispatching = false) :
    Present (a.terminateThread cfg t) u ↔
      if GoesOn a t then u = t ∨ Present a u else u ≠ t ∧ Present a u := by
  rw [Queues.terminateThread, Queues.realTimeTerminate]
  cases periodic : Queues.renews (a.threads t) with
  | false =>
    rw [if_neg (fun goesOn : GoesOn a t => by simp [GoesOn, periodic] at goesOn)]
    exact present_ended started
  | true =>
    simp only [if_true]
    by_cases running : a.running = some t
    · have due : ((a.renewed cfg t).sleep t
          ((a.renewed cfg t).threads t).arrivalTime).dispatching = true := by
        simp [Queues.sleep, Queues.addSleeping, Queues.leave, Queues.putOff, renewed_running,
          running]
      rw [if_pos due, if_pos ⟨running, periodic⟩, present_sleep, present_renewed]
    · have going : ((a.renewed cfg t).sleep t
          ((a.renewed cfg t).threads t).arrivalTime).dispatching = false := by
        simp [Queues.sleep, Queues.addSleeping, Queues.leave, Queues.putOff, renewed_running,
          renewed_dispatching, running, started]
      rw [if_neg (by simp [going]), if_neg fun goesOn : GoesOn a t => running goesOn.1,
        present_dispatcherTerminateThread, present_sleep, present_renewed]
      simp only [and_congr_right_iff]
      exact fun other => or_iff_right other

end Terminations

section Ledger

variable {a : Queues τ} {t u : τ} {cfg : SchedulerCfd}

/-- What has become of a thread. -/
inductive Life
  | created
  | live
  | terminated
  deriving DecidableEq

/-- The lives of the threads after an event. -/
def record [DecidableEq τ] (running : Option τ) (dispatching : Bool) (threads : τ → Thread)
    (life : τ → Life)
    (event : Kernel.Event τ) : τ → Life :=
  if dispatching && !event.isDispatch then life
  else
    match event with
    | .run t => Function.update life t .live
    | .terminateThread t =>
      if running = some t ∧ Queues.renews (threads t) = true then life
      else Function.update life t .terminated
    | _ => life

/-- Each live thread runs or is in a queue, and no terminated one does. -/
structure Accounts (a : Queues τ) (life : τ → Life) : Prop where
  live : ∀ t, life t = .live → Present a t
  terminated : ∀ t, life t = .terminated → ¬Present a t

/-- A thread that was somewhere is somewhere, and only the thread `t` may be new. -/
def Moves (a b : Queues τ) (t : τ) : Prop :=
  ∀ u, (Present a u → Present b u) ∧ (Present b u → u = t ∨ Present a u)

theorem moves_of_iff {b : Queues τ} (same : ∀ u, Present b u ↔ u = t ∨ Present a u) :
    Moves a b t := fun u => ⟨fun before => (same u).mpr (.inr before), (same u).mp⟩

theorem moves_refl {b : Queues τ} (same : ∀ u, Present b u ↔ Present a u) : Moves a b t :=
  fun u => ⟨(same u).mpr, fun after => .inr ((same u).mp after)⟩

theorem Accounts.same {life : τ → Life} (accounts : Accounts a life) {b : Queues τ}
    (same : ∀ u, Present b u ↔ Present a u) : Accounts b life :=
  ⟨fun u alive => (same u).mpr (accounts.live u alive),
    fun u dead there => accounts.terminated u dead ((same u).mp there)⟩

theorem Accounts.moves {life : τ → Life} (accounts : Accounts a life) {b : Queues τ}
    (moves : Moves a b t) (alive : life t ≠ .terminated) : Accounts b life := by
  refine ⟨fun u lives => (moves u).1 (accounts.live u lives), fun u dead there => ?_⟩
  rcases (moves u).2 there with same | before
  · exact alive (same ▸ dead)
  · exact accounts.terminated u dead before

variable [DecidableEq τ]

theorem moves_unblock : Moves a (a.unblock cfg t) t := by
  rw [Queues.unblock]
  split
  · dsimp only
    split
    · exact moves_refl fun _ => Iff.rfl
    · exact moves_of_iff fun _ => present_dispatcherUnblock
  · exact moves_refl fun _ => Iff.rfl

theorem moves_stop : Moves a (a.stop t) t := by
  rw [Queues.stop]
  split
  · exact moves_refl fun _ => Iff.rfl
  · exact moves_of_iff fun _ => present_addTail_leave

theorem moves_resume : Moves a (a.resume cfg t) t := by
  rw [Queues.resume]
  split
  · exact moves_refl fun _ => Iff.rfl
  · exact moves_of_iff fun _ => present_dispatcherUnblock

theorem moves_pushPriority (newPriority m : Nat) :
    Moves a (a.pushPriority cfg t newPriority m) t := by
  rw [Queues.pushPriority]
  split
  split
  · rw [Queues.enter_remove]
    exact moves_of_iff fun _ => present_enter
  · exact moves_refl fun _ => Iff.rfl

theorem moves_computePriority : Moves a (a.computePriority cfg t) t := by
  cases cfg <;> exact moves_refl fun _ => Iff.rfl

/-- An operation on a thread moves that thread and no other. -/
theorem moves_perform {event : Kernel.Event τ} (addressed : event.thread = some t)
    (other : event ≠ .terminateThread t) : Moves a (a.perform cfg event) t := by
  cases event <;> cases addressed
  case run => exact moves_of_iff fun _ => present_enter
  case computePriority => exact moves_computePriority
  case sleep timePoint => exact moves_of_iff fun _ => present_sleep timePoint
  case block => exact moves_of_iff fun _ => present_addTail_leave
  case unblock => exact moves_unblock
  case stop => exact moves_stop
  case resume => exact moves_resume
  case sigwait signaltype sig => exact moves_of_iff fun _ => present_addTail_leave
  case pushPriority newPriority m => exact moves_pushPriority newPriority m
  case popPriority m => exact moves_refl fun _ => Iff.rfl
  case softTerminate => exact moves_refl fun _ => Iff.rfl
  case terminateThread => exact absurd rfl other

/-- No operation is applied to a thread that has terminated. -/
def Spares (life : τ → Life) (event : Kernel.Event τ) : Prop :=
  ∀ t ∈ event.thread, life t ≠ .terminated

theorem Accounts.run {life : τ → Life} (accounts : Accounts a life) :
    Accounts (a.run cfg t) (Function.update life t .live) := by
  have moved : ∀ u, Present (a.run cfg t) u ↔ u = t ∨ Present a u := fun _ => present_enter
  constructor
  · intro u lives
    rw [moved]
    by_cases same : u = t
    · exact .inl same
    · rw [Function.update_of_ne same] at lives
      exact .inr (accounts.live u lives)
  · intro u dead there
    by_cases same : u = t
    · rw [same, Function.update_self] at dead
      cases dead
    · rw [Function.update_of_ne same] at dead
      exact accounts.terminated u dead (((moved u).mp there).resolve_left same)

theorem Accounts.terminateThread {life : τ → Life} (accounts : Accounts a life)
    (begun : a.dispatching = false) (alive : life t ≠ .terminated) :
    Accounts (a.terminateThread cfg t)
      (if a.running = some t ∧ Queues.renews (a.threads t) = true then life
        else Function.update life t .terminated) := by
  by_cases goesOn : GoesOn a t
  · have left : ∀ u, Present (a.terminateThread cfg t) u ↔ u = t ∨ Present a u := fun u => by
      rw [present_terminateThread begun, if_pos goesOn]
    rw [if_pos (show a.running = some t ∧ _ from goesOn)]
    exact accounts.moves (moves_of_iff left) alive
  · have left : ∀ u, Present (a.terminateThread cfg t) u ↔ u ≠ t ∧ Present a u := fun u => by
      rw [present_terminateThread begun, if_neg goesOn]
    rw [if_neg (show ¬(a.running = some t ∧ _) from goesOn)]
    constructor
    · intro u lives
      have other : u ≠ t := by
        rintro rfl
        rw [Function.update_self] at lives
        cases lives
      rw [Function.update_of_ne other] at lives
      exact (left u).mpr ⟨other, accounts.live u lives⟩
    · intro u dead there
      obtain ⟨other, before⟩ := (left u).mp there
      rw [Function.update_of_ne other] at dead
      exact accounts.terminated u dead before

instance (life : τ → Life) (event : Kernel.Event τ) : Decidable (Spares life event) :=
  inferInstanceAs (Decidable (∀ t ∈ event.thread, _))

theorem Accounts.step {life : τ → Life} (accounts : Accounts a life) {event : Kernel.Event τ}
    (spares : Spares life event) :
    Accounts (a.step cfg event) (record a.running a.dispatching a.threads life event) := by
  unfold Queues.step record
  split
  case isTrue => exact accounts
  case isFalse begun =>
    cases event with
    | dispatch currentTime => exact accounts.same fun _ => present_dispatch currentTime
    | signal signaltype sig sigvalue =>
      exact accounts.same fun _ => present_signal signaltype sig sigvalue
    | run t => exact accounts.run
    | terminateThread t =>
      exact accounts.terminateThread (by simpa [Kernel.Event.isDispatch] using begun)
        (spares t rfl)
    | _ => exact accounts.moves (moves_perform rfl (by simp)) (spares _ rfl)

section Runs

variable [Fintype τ]

/-- A step of the kernel with the lives of the threads. -/
def kernelStep (cfg : SchedulerCfd) (s : Kernel τ × (τ → Life)) (event : Kernel.Event τ) :
    Option (Kernel τ × (τ → Life)) :=
  (Kernel.step cfg (Fintype.card τ) s.1 event).map fun next =>
    (next, record s.1.running s.1.dispatching s.1.threads s.2 event)

omit [Fintype τ] in
/-- A step of the queues with the lives of the threads. -/
def queuesStep (cfg : SchedulerCfd) (a : Queues τ × (τ → Life)) (event : Kernel.Event τ) :
    Queues τ × (τ → Life) :=
  (a.1.step cfg event, record a.1.running a.1.dispatching a.1.threads a.2 event)

/-- Each live thread but the running one is in exactly one list, and those that
have terminated are in none and do not run. -/
def Accounted (s : Kernel τ) (life : τ → Life) : Prop :=
  (∀ q, (s.list q).Nodup) ∧
    (∀ t, life t = .live → s.running ≠ some t → ∃! q, t ∈ s.list q) ∧
      ∀ t, life t = .terminated → s.running ≠ some t ∧ ∀ q, t ∉ s.list q

omit [DecidableEq τ] in
theorem accounted_of_accounts {s : Kernel τ} {life : τ → Life} (refines : Refines s a)
    (accounts : Accounts a life) : Accounted s life := by
  simp only [Accounted, refines.list_eq, refines.running]
  refine ⟨refines.represents.nodup, fun t lives waits => ?_, fun t dead => ⟨fun running => ?_, ?_⟩⟩
  · rcases accounts.live t lives with running | ⟨q, member⟩
    · exact absurd running waits
    · exact ⟨q, member, fun k there => refines.only_queue member there⟩
  · exact accounts.terminated t dead (.inl running)
  · exact fun q member => accounts.terminated t dead (.inr ⟨q, member⟩)

/-- No thread is lost, and none comes back, in any run of the kernel. -/
theorem threads_accounted (cfg : SchedulerCfd) (threads : τ → Thread)
    (events : List (Kernel.Event τ))
    (admissible : Admissible (queuesStep cfg)
      (fun a event => a.1.Linkable cfg event ∧ Spares a.2 event)
      (Queues.start threads, fun _ => .created) events) :
    ∃ s life, events.foldlM (kernelStep cfg) (Kernel.start threads, fun _ => .created) =
      some (s, life) ∧ Accounted s life := by
  have simulates : ∀ (s : Kernel τ × (τ → Life)) (a : Queues τ × (τ → Life))
      (event : Kernel.Event τ), (Refines s.1 a.1 ∧ s.2 = a.2 ∧ Accounts a.1 a.2) →
      a.1.Linkable cfg event ∧ Spares a.2 event →
      ∃ s', kernelStep cfg s event = some s' ∧ Refines s'.1 (queuesStep cfg a event).1 ∧
        s'.2 = (queuesStep cfg a event).2 ∧
        Accounts (queuesStep cfg a event).1 (queuesStep cfg a event).2 := by
    rintro s a event ⟨refines, lives, accounts⟩ ⟨linkable, spares⟩
    obtain ⟨s', stepped, after⟩ := refines.step le_rfl linkable
    refine ⟨_, by rw [kernelStep, stepped]; rfl, after, ?_, accounts.step spares⟩
    rw [queuesStep, refines.running, refines.dispatching, refines.threads, lives]
  have start : Accounts (Queues.start threads) fun _ => Life.created :=
    ⟨fun _ lives => (by cases lives), fun _ dead => (by cases dead)⟩
  obtain ⟨⟨s, life⟩, ran, refines, same, accounts⟩ := foldlM_simulation _ simulates events
    (Kernel.start threads, fun _ => .created) (Queues.start threads, fun _ => .created)
    ⟨Refines.start threads, rfl, start⟩ admissible
  refine ⟨s, life, ran, ?_⟩
  subst same
  exact accounted_of_accounts refines accounts

/-- Two threads of one task. -/
def pair (_ : Fin 2) : Thread := Thread.create 1 0 0 none

/-- One thread sleeps while the other one ends. -/
theorem threads_accounted_end : ∃ s life,
    [.run 0, .run 1, .dispatch 0, .sleep 0 10, .dispatch 1, .terminateThread 1, .dispatch 12].foldlM
      (kernelStep .rateMonotonic) (Kernel.start pair, fun _ => .created) = some (s, life) ∧
      Accounted s life :=
  threads_accounted .rateMonotonic pair _ (by decide +kernel)

/-- A running thread whose task is resumed is linked behind itself and lost. -/
theorem resumed_thread_lost : ∃ s life,
    [.run 0, .dispatch 0, .resume 0, .dispatch 1].foldlM (kernelStep .rateMonotonic)
      (Kernel.start pair, fun _ => .created) = some (s, life) ∧ ¬Accounted s life := by
  have lost : ([.run 0, .dispatch 0, .resume 0, .dispatch 1].foldlM (kernelStep .rateMonotonic)
      (Kernel.start pair, fun _ => Life.created)).map (fun r => decide (r.2 0 = .live ∧
        r.1.running = none ∧ ∀ q ∈ [QueueName.ready, .sleep, .blocked, .wait, .condwait],
          0 ∉ r.1.list q)) =
      some true := by decide +kernel
  obtain ⟨⟨s, life⟩, ran, place⟩ := Option.map_eq_some_iff.mp lost
  obtain ⟨lives, idle, absent⟩ := of_decide_eq_true place
  refine ⟨s, life, ran, fun accounted => ?_⟩
  have waits : s.running ≠ some 0 := fun running => by cases idle.symm.trans running
  obtain ⟨q, member, _⟩ := accounted.2.1 0 lives waits
  exact absent q (by cases q <;> simp) member

end Runs

end Ledger

end Orcos.Guarantees.ThreadLists
