import Orcos.Lib.Runs
import Orcos.Source.DispatcherRefinement

/-!
Every event of the kernel does to its lists what it does to the queues, in any
order of events, as long as no search for a place stops at the thread to be
placed.
-/
namespace Orcos.Source
open Orcos.Lib Orcos.Lib.Runs Orcos.Lib.Walk Orcos.Source.LinkedList

namespace Queues

variable {τ : Type} [DecidableEq τ] (cfg : SchedulerCfd)

/-- No operation links the item of a thread behind itself, and a dispatch wakes
no thread that falls asleep again. -/
def Linkable (a : Queues τ) : Kernel.Event τ → Prop
  | .run t => (a.setThread t ((a.threads t).setReady true)).CanEnter cfg t
  | .sleep t timePoint => (a.putOff t timePoint).FreeToSleep t
  | .terminateThread t => renews (a.threads t) →
      ((a.renewed cfg t).putOff t ((a.renewed cfg t).threads t).arrivalTime).FreeToSleep t
  | .dispatch currentTime =>
    (∀ t, a.running = some t → CanEnter cfg { a with running := none } t) ∧
      (a.preempt cfg).Wakes cfg currentTime
  | _ => True

instance (a : Queues τ) : (event : Kernel.Event τ) → Decidable (a.Linkable cfg event)
  | .run _ => inferInstanceAs (Decidable (CanEnter ..))
  | .sleep _ _ => inferInstanceAs (Decidable (FreeToSleep ..))
  | .terminateThread _ => inferInstanceAs (Decidable (_ → FreeToSleep ..))
  | .dispatch _ => inferInstanceAs (Decidable ((∀ _, _ → CanEnter ..) ∧ Wakes ..))
  | .computePriority _ | .block _ | .unblock _ | .stop _ | .resume _ | .sigwait .. | .signal ..
  | .pushPriority .. | .popPriority .. | .softTerminate _ => inferInstanceAs (Decidable True)

end Queues

/-- The lists of the kernel as queues. -/
def Kernel.view {τ : Type} [Fintype τ] (s : Kernel τ) : Queues τ :=
  ⟨s.list, s.threads, s.running, s.dispatching⟩

namespace Refines

variable {τ : Type} [DecidableEq τ] {s : Kernel τ} {a : Queues τ} {t : τ} {cfg : SchedulerCfd}

section Flags

theorem computePriority (refines : Refines s a) (cfg : SchedulerCfd) (t : τ) :
    Refines (s.computePriority cfg t) (a.computePriority cfg t) := by
  cases cfg with
  | roundRobin _ => exact refines
  | rateMonotonic =>
    rw [Kernel.computePriority, Queues.computePriority, refines.threads]
    exact refines.setThread t _
  | earliestDeadlineFirst =>
    rw [Kernel.computePriority, Queues.computePriority, refines.threads]
    exact refines.setThread t _

/-- Removing the first thread of a queue. -/
theorem remove_head (refines : Refines s a) {q : QueueName} (head : (a.queue q).head? = some t) :
    (a.remove t).queue = Function.update a.queue q (a.queue q).tail := by
  obtain ⟨rest, first⟩ := List.head?_eq_some_iff.mp head
  rw [← detach_eq refines.represents]
  funext k
  rw [LinkedList.detach, Function.update_apply]
  by_cases same : k = q
  · rw [if_pos same, same, first, List.erase_cons_head, List.tail_cons]
  · rw [if_neg same]
    refine List.erase_of_not_mem fun member => same ?_
    exact refines.only_queue (by simp [first]) member

theorem runNext (refines : Refines s a) : Refines s.runNext a.runNext := by
  obtain ⟨item, rest⟩ := removeHead_represents refines.represents QueueName.ready
  have data := removeHead_data s.heap QueueName.ready
  rw [Kernel.runNext, Queues.runNext]
  rcases removed : removeHead s.heap .ready with ⟨heap, next⟩
  rw [removed] at item rest data
  rw [← item]
  cases next with
  | none =>
    have empty : a.queue .ready = [] := List.head?_eq_none_iff.mp item.symm
    rw [empty, List.tail_nil, ← empty, Function.update_eq_self] at rest
    exact ⟨rest, fun t => (data t).trans (refines.data t), refines.threads, rfl, rfl⟩
  | some t =>
    rw [← refines.remove_head item.symm] at rest
    have next : Refines { s with heap := heap, running := some t, dispatching := false }
        { a.remove t with running := some t, dispatching := false } :=
      ⟨rest, fun t => (data t).trans (refines.data t), refines.threads, rfl, rfl⟩
    have stored := next.setThread t { (a.threads t).setNew false with
      instanceNumber := (a.threads t).instanceNumber + 1 }
    dsimp only
    rw [refines.thread t]
    exact stored

theorem dispatcherBlock (refines : Refines s a) (t : τ) :
    Refines (s.dispatcherBlock t) (a.dispatcherBlock t) := (refines.addTail t .blocked).leave t

theorem block (refines : Refines s a) (t : τ) : Refines (s.block t) (a.block t) := by
  rw [Kernel.block, Queues.block, refines.threads]
  exact (refines.setThread t _).dispatcherBlock t

theorem stop (refines : Refines s a) (t : τ) : Refines (s.stop t) (a.stop t) := by
  have stopped := refines.setThread t ((a.threads t).setStopped true)
  rw [Kernel.stop, Queues.stop, refines.thread t, stopped.thread t]
  cases ((a.setThread t ((a.threads t).setStopped true)).threads t).isBlocked with
  | true => exact stopped
  | false => exact stopped.dispatcherBlock t

theorem sigwait (refines : Refines s a) (signaltype : SignalType) (t : τ) (sig : Nat) :
    Refines (s.sigwait signaltype t sig) (a.sigwait signaltype t sig) := by
  rw [Kernel.sigwait, Queues.sigwait, refines.threads]
  exact ((refines.setThread t _).addTail t _).leave t

theorem popPriority (refines : Refines s a) (t : τ) (m : Nat) :
    Refines (s.popPriority t m) (a.popPriority t m) := by
  rw [Kernel.popPriority, Queues.popPriority, refines.threads]
  exact refines.setThread t _

theorem softTerminate (refines : Refines s a) (t : τ) :
    Refines (s.softTerminate t) (a.softTerminate t) := by
  rw [Kernel.softTerminate, Queues.softTerminate, refines.threads]
  exact refines.setThread t _

theorem dispatcherTerminateThread (refines : Refines s a) (t : τ) :
    Refines (s.dispatcherTerminateThread t) (a.dispatcherTerminateThread t) :=
  (refines.remove t).leave t

end Flags

section Searches

variable [Fintype τ] {fuel : Nat} (enough : Fintype.card τ ≤ fuel)

include enough

theorem run (refines : Refines s a)
    (free : (a.setThread t ((a.threads t).setReady true)).CanEnter cfg t) :
    ∃ s', Kernel.run cfg fuel s t = some s' ∧ Refines s' (a.run cfg t) := by
  rw [Kernel.run, Queues.run, refines.threads]
  exact (refines.setThread t _).enter enough free

theorem dispatcherUnblock (refines : Refines s a) (t : τ) :
    ∃ s', Kernel.dispatcherUnblock cfg fuel s t = some s' ∧
      Refines s' (a.dispatcherUnblock cfg t) := by
  rw [Kernel.dispatcherUnblock, Queues.dispatcherUnblock]
  dsimp only
  rw [refines.thread t]
  by_cases asleep : 0 < (a.threads t).sleepTime
  · rw [if_pos asleep, if_pos asleep]
    have added := (refines.remove t).addTail t .sleep
    rw [Queues.addTail, Queues.move_remove] at added
    exact ⟨_, rfl, added⟩
  · rw [if_neg asleep, if_neg asleep, Queues.enter_remove]
    exact refines.removeAndEnter enough cfg t

theorem unblock (refines : Refines s a) (t : τ) :
    ∃ s', Kernel.unblock cfg fuel s t = some s' ∧ Refines s' (a.unblock cfg t) := by
  have cleared := refines.setThread t ((a.threads t).setBlocked false)
  rw [Kernel.unblock, Queues.unblock, refines.thread t]
  dsimp only
  rw [cleared.thread t]
  cases (a.threads t).isBlocked with
  | false => exact ⟨s, rfl, refines⟩
  | true =>
    cases ((a.setThread t ((a.threads t).setBlocked false)).threads t).isStopped with
    | true => exact ⟨_, rfl, cleared⟩
    | false => exact (cleared.setThread t _).dispatcherUnblock enough t

theorem resume (refines : Refines s a) (t : τ) :
    ∃ s', Kernel.resume cfg fuel s t = some s' ∧ Refines s' (a.resume cfg t) := by
  have cleared := refines.setThread t ((a.threads t).setStopped false)
  rw [Kernel.resume, Queues.resume, refines.thread t, cleared.thread t]
  cases ((a.setThread t ((a.threads t).setStopped false)).threads t).isBlocked with
  | true => exact ⟨_, rfl, cleared⟩
  | false => exact (cleared.setThread t _).dispatcherUnblock enough t

theorem pushPriority (refines : Refines s a) (t : τ) (newPriority m : Nat) :
    ∃ s', Kernel.pushPriority cfg fuel s t newPriority m = some s' ∧
      Refines s' (a.pushPriority cfg t newPriority m) := by
  rw [Kernel.pushPriority, Queues.pushPriority, refines.thread t]
  rcases (a.threads t).priority.pushPriority newPriority m with ⟨priority, entered⟩
  have stored := refines.setThread t { a.threads t with priority := priority }
  cases entered with
  | false => exact ⟨_, rfl, stored⟩
  | true =>
    obtain ⟨s', entered, refines'⟩ := stored.removeAndEnter enough cfg t
    rw [← Queues.enter_remove] at refines'
    exact ⟨s', entered, refines'⟩

theorem preempt (refines : Refines s a)
    (free : ∀ t, a.running = some t → Queues.CanEnter cfg { a with running := none } t) :
    ∃ s', Kernel.preempt cfg fuel s = some s' ∧ Refines s' (a.preempt cfg) := by
  rw [Kernel.preempt, Queues.preempt, refines.running]
  cases running : a.running with
  | none => exact ⟨s, rfl, refines⟩
  | some t =>
    have idle : Refines { s with running := none } { a with running := none } :=
      ⟨refines.represents, refines.data, refines.threads, rfl, refines.dispatching⟩
    exact idle.enter enough (free t running)

theorem dispatch (refines : Refines s a) {currentTime : Nat}
    (free : ∀ t, a.running = some t → Queues.CanEnter cfg { a with running := none } t)
    (wakes : (a.preempt cfg).Wakes cfg currentTime) :
    ∃ s', Kernel.dispatch cfg fuel s currentTime = some s' ∧
      Refines s' (a.dispatch cfg currentTime) := by
  obtain ⟨s₁, preempted, refines₁⟩ := refines.preempt enough free
  obtain ⟨event, returned, refines₂⟩ := refines₁.getNextTimerEvent enough wakes
  rw [Kernel.dispatch, preempted, Option.bind_some, returned]
  exact ⟨_, rfl, refines₂.runNext⟩

section Signals

/-- Before each visit of the loop over a list of threads that wait. -/
def Waiters (q : QueueName) (s : Kernel τ) (a : Queues τ) (rest : List τ) : Prop :=
  Refines s a ∧ ∃ kept, a.queue q = kept ++ rest

variable (cfg) in
/-- A thread on one of the lists is in no other queue, so that it can be entered. -/
theorem wake (refines : Refines s a) {signaltype : SignalType}
    (waits : t ∈ a.queue signaltype.list) :
    ∃ s', (if (a.threads t).isBlocked then
          some (.next { s with heap := (LinkedList.addTail s.heap .blocked t).1 })
        else if 0 < (a.threads t).sleepTime then
          some (.next { s with heap := (LinkedList.addTail s.heap .sleep t).1 })
        else (Kernel.enter cfg fuel s t).map Visit.next) = some (.next s') ∧
      Refines s' (a.wake cfg t) := by
  rw [Queues.wake]
  split
  · exact ⟨_, rfl, refines.addTail t .blocked⟩
  · split
    · exact ⟨_, rfl, refines.addTail t .sleep⟩
    · have free : a.CanEnter cfg t := Queues.canEnter_of_notMem cfg a t
        (fun ready => by cases signaltype <;> cases refines.only_queue waits ready)
        (fun _ asleep => by cases signaltype <;> cases refines.only_queue waits asleep)
      obtain ⟨s', entered, refines'⟩ := refines.enter enough free
      rw [entered]
      exact ⟨s', rfl, refines'⟩

theorem visitWaiting {signaltype : SignalType} {sig : Nat} {sigvalue : Int} {rest : List τ}
    (waiters : Waiters signaltype.list s a (t :: rest)) :
    ∃ s' a', Kernel.visitWaiting cfg fuel sig sigvalue s t = some (.next s') ∧
      Queues.visitWaiting cfg sig sigvalue a t = .next a' ∧
      Waiters signaltype.list s' a' rest := by
  obtain ⟨refines, kept, split⟩ := waiters
  have waits : t ∈ a.queue signaltype.list := by simp [split]
  have skipped : a.queue signaltype.list = (kept ++ [t]) ++ rest := by simp [split]
  have told := refines.setThread t { (a.threads t).setSignal false with signalvalue := sigvalue }
  rw [Kernel.visitWaiting, Queues.visitWaiting, refines.thread t]
  split
  case isFalse => exact ⟨s, a, rfl, rfl, refines, _, skipped⟩
  case isTrue =>
    dsimp only
    rw [told.thread t]
    have flags : ((a.signalled t sigvalue).threads t).isStopped = (a.threads t).isStopped := by
      simp [Queues.signalled, Thread.isStopped, Thread.setSignal]
    cases stopped : (a.threads t).isStopped with
    | true =>
      rw [← Queues.signalled, flags, stopped]
      exact ⟨_, _, rfl, rfl, told, _, skipped⟩
    | false =>
      rw [← Queues.signalled, flags, stopped]
      obtain ⟨s', woken, refines'⟩ := told.wake cfg enough waits
      refine ⟨s', _, woken, rfl, refines', kept, ?_⟩
      rw [Queues.wake_queue_of_ne cfg _ _ (by cases signaltype <;> decide)
        (by cases signaltype <;> decide) (by cases signaltype <;> decide)]
      exact refines.filter_split split

variable (cfg) in
theorem signal (refines : Refines s a) (signaltype : SignalType) (sig : Nat) (sigvalue : Int) :
    ∃ s', Kernel.signal cfg fuel s signaltype sig sigvalue = some s' ∧
      Refines s' (a.signal cfg signaltype sig sigvalue) := by
  obtain ⟨s', walked, final⟩ := walk_refines
    (Kernel.visitWaiting cfg fuel sig sigvalue) (Queues.visitWaiting cfg sig sigvalue)
    (Waiters signaltype.list) Refines
    (fun _ _ _ _ ⟨before, _, split⟩ => before.succ_eq split)
    (fun _ _ _ _ waiters => .inl (visitWaiting enough waiters))
    (fun _ _ waiters => waiters.1) (a.queue signaltype.list) s a fuel ⟨refines, [], rfl⟩
    (refines.length_le enough signaltype.list)
  rw [← refines.represents.head signaltype.list] at walked
  exact ⟨s', walked, final⟩

end Signals

section Terminations

theorem terminate (refines : Refines s a) (t : τ) :
    ∃ s', Kernel.terminate cfg fuel s t = some s' ∧ Refines s' (a.terminate cfg t) := by
  have cleared := refines.setThread t
    { a.threads t with status := { Status.clear with term := true } }
  have signalled := (cleared.remove t).signal cfg enough .generic
    (Kernel.childTerminated (a.threads t).owner) cOk
  rw [Kernel.terminate, Queues.terminate, refines.thread t]
  dsimp only
  rw [cleared.thread t, Queues.setThread_threads, if_pos rfl]
  exact signalled

theorem realTimeTerminate (refines : Refines s a) (t : τ)
    (free : a.Linkable cfg (.terminateThread t)) :
    ∃ s', Kernel.realTimeTerminate cfg fuel s t = some s' ∧
      Refines s' (a.realTimeTerminate cfg t) := by
  rw [Kernel.realTimeTerminate, Queues.realTimeTerminate, refines.thread t]
  by_cases periodic : Queues.renews (a.threads t) = true
  · have renewed := (refines.setThread t (a.threads t).renew).computePriority cfg t
    rw [if_pos (by simpa [Queues.renews] using periodic), if_pos periodic]
    dsimp only
    rw [renewed.thread t]
    exact renewed.sleep enough (free periodic)
  · rw [if_neg (by simpa [Queues.renews] using periodic), if_neg periodic]
    exact refines.terminate enough t

theorem terminateThread (refines : Refines s a) (t : τ)
    (free : a.Linkable cfg (.terminateThread t)) :
    ∃ s', Kernel.terminateThread cfg fuel s t = some s' ∧
      Refines s' (a.terminateThread cfg t) := by
  obtain ⟨s', terminated, refines'⟩ := refines.realTimeTerminate enough t free
  rw [Kernel.terminateThread, terminated, Option.map_some, Queues.terminateThread,
    refines'.dispatching]
  refine ⟨_, rfl, ?_⟩
  cases (a.realTimeTerminate cfg t).dispatching with
  | true => exact refines'
  | false => exact refines'.dispatcherTerminateThread t

end Terminations

theorem perform (refines : Refines s a) {event : Kernel.Event τ}
    (linkable : a.Linkable cfg event) :
    ∃ s', Kernel.perform cfg fuel s event = some s' ∧ Refines s' (a.perform cfg event) := by
  cases event with
  | run t => exact refines.run enough linkable
  | computePriority t => exact ⟨_, rfl, refines.computePriority cfg t⟩
  | sleep t timePoint => exact refines.sleep enough linkable
  | block t => exact ⟨_, rfl, refines.block t⟩
  | unblock t => exact refines.unblock enough t
  | stop t => exact ⟨_, rfl, refines.stop t⟩
  | resume t => exact refines.resume enough t
  | sigwait signaltype t sig => exact ⟨_, rfl, refines.sigwait signaltype t sig⟩
  | signal signaltype sig sigvalue => exact refines.signal cfg enough signaltype sig sigvalue
  | pushPriority t newPriority m => exact refines.pushPriority enough t newPriority m
  | popPriority t m => exact ⟨_, rfl, refines.popPriority t m⟩
  | softTerminate t => exact ⟨_, rfl, refines.softTerminate t⟩
  | terminateThread t => exact refines.terminateThread enough t linkable
  | dispatch currentTime => exact refines.dispatch enough linkable.1 linkable.2

/-- One event. -/
theorem step (refines : Refines s a) {event : Kernel.Event τ} (linkable : a.Linkable cfg event) :
    ∃ s', Kernel.step cfg fuel s event = some s' ∧ Refines s' (a.step cfg event) := by
  rw [Kernel.step, Queues.step, refines.dispatching]
  split
  · exact ⟨s, rfl, refines⟩
  · exact refines.perform enough linkable

end Searches

section Runs

variable [Fintype τ]

omit [DecidableEq τ] in
theorem list_eq (refines : Refines s a) (q : QueueName) : s.list q = a.queue q := by
  rw [Kernel.list, getHead, refines.represents.head]
  exact follow_eq (refines.represents.chain q) (refines.length_le le_rfl q)

omit [DecidableEq τ] in
theorem view_eq (refines : Refines s a) : s.view = a := by
  have lists : s.list = a.queue := funext refines.list_eq
  rw [Kernel.view, lists, refines.threads, refines.running, refines.dispatching]

/-- Every run. -/
theorem ran (refines : Refines s a) (events : List (Kernel.Event τ))
    (linkable : Admissible (Queues.step cfg) (Queues.Linkable cfg) a events) :
    ∃ s', Kernel.exec cfg s events = some s' ∧
      Refines s' (Runs.exec (Queues.step cfg) a events) := by
  have simulates : ∀ (s : Kernel τ) (a : Queues τ) (event : Kernel.Event τ), Refines s a →
      a.Linkable cfg event → ∃ s', Kernel.step cfg (Fintype.card τ) s event = some s' ∧
        Refines s' (a.step cfg event) := fun _ _ _ before ok => before.step le_rfl ok
  exact foldlM_simulation Refines simulates events s a refines linkable

/-- A property of the queues that each step keeps holds after every run. -/
theorem exec {ok : Queues τ → Kernel.Event τ → Prop} (inv : Queues τ → Prop)
    (kept : ∀ s a event, Refines s a → inv a → a.Linkable cfg event → ok a event →
      inv (a.step cfg event)) (refines : Refines s a) (start : inv a)
    (events : List (Kernel.Event τ))
    (admissible : Admissible (Queues.step cfg) (fun a event => a.Linkable cfg event ∧ ok a event)
      a events) :
    ∃ s', Kernel.exec cfg s events = some s' ∧
      Refines s' (Runs.exec (Queues.step cfg) a events) ∧
      inv (Runs.exec (Queues.step cfg) a events) := by
  have simulates : ∀ (s : Kernel τ) (a : Queues τ) (event : Kernel.Event τ),
      Refines s a ∧ inv a → a.Linkable cfg event ∧ ok a event →
      ∃ s', Kernel.step cfg (Fintype.card τ) s event = some s' ∧
        Refines s' (a.step cfg event) ∧ inv (a.step cfg event) := by
    rintro s a event ⟨before, holds⟩ ⟨linkable, fine⟩
    obtain ⟨s', stepped, after⟩ := before.step le_rfl linkable
    exact ⟨s', stepped, after, kept s a event before holds linkable fine⟩
  exact foldlM_simulation (fun s a => Refines s a ∧ inv a) simulates events s a ⟨refines, start⟩
    admissible

end Runs

end Refines

end Orcos.Source
