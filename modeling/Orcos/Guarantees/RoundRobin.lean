import Orcos.Source.HeldThreads

/-!
Round robin is first come, first served: src/source/scheduler/RoundRobinThreadScheduler.cc
and the dispatcher.

Whatever happens to the other threads, a thread in the queue of the scheduler runs after at most
one turn of each thread in front of it, in their order, and no thread that comes later overtakes it.
-/
namespace Orcos.Guarantees.RoundRobin
open Orcos.Lib Orcos.Lib.Runs Orcos.Lib.Sequences Orcos.Lib.Walk Orcos.Source Orcos.Source.Queues

variable {τ : Type} [DecidableEq τ]

/-- The threads in front of one. -/
def ahead (t : τ) (threads : List τ) : List τ := threads.takeWhile (· ≠ t)

section Ahead

variable {t u : τ} {threads : List τ}

theorem ahead_filter (other : u ≠ t) :
    (ahead t (threads.filter (· ≠ u))).Sublist (ahead t threads) := by
  induction threads with
  | nil => exact List.Sublist.refl _
  | cons v rest ih =>
    by_cases here : v = t
    · subst here
      simp [ahead, other.symm]
    · by_cases gone : v = u
      · subst gone
        simp only [ahead, ne_eq, not_true_eq_false, decide_false, Bool.false_eq_true,
          not_false_eq_true, List.filter_cons_of_neg, here, decide_true, List.takeWhile_cons_of_pos]
        exact ih.cons _
      · simp only [ahead, ne_eq, gone, not_false_eq_true, decide_true,
          List.filter_cons_of_pos, here,
          List.takeWhile_cons_of_pos]
        exact ih.cons_cons _

theorem ahead_append (member : t ∈ threads) (later : List τ) :
    ahead t (threads ++ later) = ahead t threads := by
  induction threads with
  | nil => cases member
  | cons v rest ih =>
    by_cases here : v = t
    · simp [ahead, here]
    · have there : t ∈ rest := (List.mem_cons.mp member).resolve_left fun same => here same.symm
      simpa [ahead, here] using ih there

theorem ahead_cons_of_ne (other : u ≠ t) : ahead t (u :: threads) = u :: ahead t threads := by
  simp [ahead, other]

theorem ahead_take {i : Nat} (place : threads[i]? = some t) :
    (ahead t threads).Sublist (threads.take i) := by
  induction threads generalizing i with
  | nil => cases place
  | cons v rest ih =>
    by_cases here : v = t
    · simp [ahead, here]
    · cases i with
      | zero => exact absurd (Option.some.inj place) here
      | succ i =>
        rw [ahead_cons_of_ne here, List.take_succ_cons]
        exact (ih (by simpa using place)).cons_cons _

end Ahead

/-- The thread stays where it is, and no other one gets in front of it. -/
structure InTurn (t : τ) (a b : Queues τ) : Prop where
  untouched : Untouched t a b
  ahead : t ∈ a.queue .ready → (ahead t (b.queue .ready)).Sublist (ahead t (a.queue .ready))

namespace InTurn

variable {a b c : Queues τ} {t u : τ} {slice : Nat}

theorem of_same (untouched : Untouched t a b) (same : b.queue .ready = a.queue .ready) :
    InTurn t a b := ⟨untouched, fun _ => by rw [same]⟩

theorem refl (t : τ) (a : Queues τ) : InTurn t a a := of_same (Untouched.refl t a) rfl

theorem trans (first : InTurn t a b) (second : InTurn t b c) : InTurn t a c :=
  ⟨first.untouched.trans second.untouched, fun ready =>
    (second.ahead ((first.untouched.queue _).mpr ready)).trans (first.ahead ready)⟩

section Moves

variable (a) (other : u ≠ t)

include other

theorem setThread (thread : Thread) : InTurn t a (a.setThread u thread) :=
  of_same (Untouched.setThread a other thread) rfl

theorem remove : InTurn t a (a.remove u) :=
  ⟨Untouched.remove a other, fun _ => ahead_filter other⟩

theorem move {q : QueueName} (elsewhere : q ≠ .ready) (p : τ → Bool) :
    InTurn t a (a.move u q p) := by
  refine ⟨Untouched.move a other q p, fun _ => ?_⟩
  rw [move_queue_of_ne _ _ _ _ _ elsewhere.symm]
  exact ahead_filter other

theorem addTail (q : QueueName) : InTurn t a (a.addTail u q) := by
  by_cases ready : q = .ready
  · refine ⟨Untouched.move a other q _, fun member => ?_⟩
    have kept : t ∈ (a.queue .ready).filter (· ≠ u) := by simp [member, other.symm]
    have place : (a.addTail u q).queue .ready = (a.queue .ready).filter (· ≠ u) ++ [u] := by
      subst ready
      simp only [Queues.addTail, Queues.move, Function.update_self, Queues.remove]
      exact insertBehind_all fun _ _ => rfl
    rw [place, ahead_append kept]
    exact ahead_filter other
  · exact move a other ready _

omit other in
theorem leave : InTurn t a (a.leave u) :=
  of_same (Untouched.leave a) (by rw [leave_queue])

theorem sleep (timePoint : Nat) : InTurn t a (a.sleep u timePoint) :=
  (setThread a other _).trans ((move _ other (by decide) _).trans (leave _))

theorem enter : InTurn t a (a.enter (.roundRobin slice) u) :=
  (setThread a other _).trans (addTail _ other .ready)

theorem wake : InTurn t a (a.wake (.roundRobin slice) u) := by
  unfold Queues.wake
  split
  · exact addTail a other _
  · split
    · exact addTail a other _
    · exact enter a other

theorem dispatcherUnblock : InTurn t a (a.dispatcherUnblock (.roundRobin slice) u) := by
  unfold Queues.dispatcherUnblock
  split
  · exact addTail a other _
  · exact (remove a other).trans (enter _ other)

theorem dispatcherBlock : InTurn t a (a.dispatcherBlock u) :=
  (addTail a other _).trans (leave _)

theorem unblock : InTurn t a (a.unblock (.roundRobin slice) u) := by
  unfold Queues.unblock
  split
  · dsimp only
    split
    · exact setThread a other _
    · exact ((setThread a other _).trans (setThread _ other _)).trans (dispatcherUnblock _ other)
  · exact refl t a

theorem stop : InTurn t a (a.stop u) := by
  unfold Queues.stop
  dsimp only
  split
  · exact setThread a other _
  · exact (setThread a other _).trans (dispatcherBlock _ other)

theorem resume : InTurn t a (a.resume (.roundRobin slice) u) := by
  unfold Queues.resume
  dsimp only
  split
  · exact setThread a other _
  · exact ((setThread a other _).trans (setThread _ other _)).trans (dispatcherUnblock _ other)

theorem pushPriority (newPriority m : Nat) :
    InTurn t a (a.pushPriority (.roundRobin slice) u newPriority m) := by
  unfold Queues.pushPriority
  split
  dsimp only
  split
  · exact ((setThread a other _).trans (remove _ other)).trans (enter _ other)
  · exact setThread a other _

end Moves

section Loops

variable (slice a)

theorem signal {signaltype : SignalType} (absent : t ∉ a.queue signaltype.list) (sig : Nat)
    (sigvalue : Int) : InTurn t a (a.signal (.roundRobin slice) signaltype sig sigvalue) := by
  have others : ∀ u ∈ a.queue signaltype.list, u ≠ t := fun u member same =>
    absent (same ▸ member)
  refine (walkList_invariant (fun b rest => (∀ u ∈ rest, u ≠ t) ∧ InTurn t a b) ?_ _ a
    ⟨others, refl t a⟩).2
  rintro b u rest ⟨others, before⟩
  have other : u ≠ t := others u (.head _)
  have later : ∀ v ∈ rest, v ≠ t := fun v member => others v (.tail _ member)
  left
  rw [visitWaiting]
  split
  · have told : InTurn t b (b.signalled u sigvalue) := setThread b other _
    split
    · exact ⟨_, rfl, later, before.trans told⟩
    · exact ⟨_, rfl, later, (before.trans told).trans (wake _ other)⟩
  · exact ⟨b, rfl, later, before⟩

theorem getNextTimerEvent (absent : t ∉ a.queue .sleep) (currentTime : Nat) :
    InTurn t a (a.getNextTimerEvent (.roundRobin slice) currentTime) := by
  have others : ∀ u ∈ a.queue .sleep, u ≠ t := fun u member same => absent (same ▸ member)
  refine (walkList_invariant (fun b rest => (∀ u ∈ rest, u ≠ t) ∧ InTurn t a b.1) ?_ _
    (a, a.headPriority) ⟨others, refl t a⟩).2
  rintro b u rest ⟨others, before⟩
  have other : u ≠ t := others u (.head _)
  have later : ∀ v ∈ rest, v ≠ t := fun v member => others v (.tail _ member)
  rw [visitSleeping]
  split
  · exact .inl ⟨_, rfl, later, before.trans ((setThread b.1 other _).trans (enter _ other))⟩
  · split
    · exact .inr ⟨b, rfl, by simp, before⟩
    · exact .inl ⟨b, rfl, later, before⟩

theorem preempt (idle : a.running ≠ some t) : InTurn t a (a.preempt (.roundRobin slice)) := by
  unfold Queues.preempt
  split
  case h_1 u running =>
    have other : u ≠ t := fun same => idle (same ▸ running)
    have stopped : InTurn t a { a with running := none } :=
      of_same ⟨rfl, fun _ => Iff.rfl, fun _ none => by cases none⟩ rfl
    exact stopped.trans (enter _ other)
  case h_2 => exact refl t a

theorem terminateThread (other : u ≠ t) (absent : t ∉ a.queue .wait) :
    InTurn t a (a.terminateThread (.roundRobin slice) u) := by
  have terminated : InTurn t a (a.realTimeTerminate (.roundRobin slice) u) := by
    unfold Queues.realTimeTerminate
    split
    · exact (setThread a other _).trans (sleep _ other _)
    · have ended : InTurn t a (a.ended u) := (setThread a other _).trans (remove _ other)
      exact ended.trans (signal _ slice (fun member => absent ((ended.untouched.queue _).mp member))
        _ _)
  unfold Queues.terminateThread
  dsimp only
  split
  · exact terminated
  · exact (terminated.trans (remove _ other)).trans (leave _)

/-- An event for others that is no dispatch, when the thread waits for nothing. -/
theorem perform {event : Kernel.Event τ} (only : ∀ q, q ≠ .ready → t ∉ a.queue q)
    (addressed : event.thread ≠ some t) (running : event.isDispatch = false) :
    InTurn t a (a.perform (.roundRobin slice) event) := by
  have other : ∀ u, event.thread = some u → u ≠ t := fun u here same =>
    addressed (same ▸ here)
  cases event with
  | signal signaltype sig sigvalue =>
    exact signal a slice (only _ (by cases signaltype <;> decide)) sig sigvalue
  | terminateThread u => exact terminateThread a slice (other u rfl) (only .wait (by decide))
  | dispatch currentTime => cases running
  | run u => exact (setThread a (other u rfl) _).trans (enter _ (other u rfl))
  | computePriority u => exact refl t a
  | sleep u timePoint => exact sleep a (other u rfl) timePoint
  | block u => exact (setThread a (other u rfl) _).trans (dispatcherBlock _ (other u rfl))
  | unblock u => exact unblock a (other u rfl)
  | stop u => exact stop a (other u rfl)
  | resume u => exact resume a (other u rfl)
  | sigwait signaltype u sig =>
    exact ((setThread a (other u rfl) _).trans (addTail _ (other u rfl) _)).trans (leave _)
  | pushPriority u newPriority m => exact pushPriority a (other u rfl) newPriority m
  | popPriority u m => exact setThread a (other u rfl) _
  | softTerminate u => exact setThread a (other u rfl) _

end Loops

end InTurn

/-- The threads that the dispatches of a run let run. -/
def picks [Fintype τ] (cfg : SchedulerCfd) : Kernel τ → List (Kernel.Event τ) → List τ
  | _, [] => []
  | s, event :: rest =>
    match Kernel.step cfg (Fintype.card τ) s event with
    | none => []
    | some s' =>
      if event.isDispatch then s'.running.toList ++ picks cfg s' rest else picks cfg s' rest

section Runs

variable {a : Queues τ} {s : Kernel τ} {t : τ} {slice : Nat}

/-- A dispatch lets the thread run or the first one in front of it. -/
theorem dispatch_turn (currentTime : Nat) (idle : a.running ≠ some t)
    (only : ∀ q, q ≠ .ready → t ∉ a.queue q)
    (ready : t ∈ a.queue .ready) :
    (a.dispatch (.roundRobin slice) currentTime).running = some t ∨
      ∃ u, (a.dispatch (.roundRobin slice) currentTime).running = some u ∧ u ≠ t ∧
        Untouched t a (a.dispatch (.roundRobin slice) currentTime) ∧
        (u :: ahead t ((a.dispatch (.roundRobin slice) currentTime).queue .ready)).Sublist
          (ahead t (a.queue .ready)) := by
  have preempted := InTurn.preempt a slice idle
  have scanned := preempted.trans (InTurn.getNextTimerEvent _ slice
    (fun member => only .sleep (by decide) ((preempted.untouched.queue _).mp member)) currentTime)
  have member := (scanned.untouched.queue .ready).mpr ready
  have order := scanned.ahead ready
  rw [Queues.dispatch]
  generalize Queues.getNextTimerEvent (.roundRobin slice) (a.preempt (.roundRobin slice))
    currentTime = b at scanned member order
  obtain ⟨u, rest, shape⟩ := List.exists_cons_of_ne_nil (List.ne_nil_of_mem member)
  have head : (b.queue .ready).head? = some u := by rw [shape, List.head?_cons]
  have runs := (runNext_chosen head).1
  by_cases here : u = t
  · exact .inl (here ▸ runs)
  · have another : (b.queue .ready).head? ≠ some t := fun same =>
      here (Option.some.inj (head.symm.trans same))
    have passed := Untouched.passedOver another
    refine .inr ⟨u, runs, here, scanned.untouched.trans passed, ?_⟩
    have left : b.runNext.queue .ready = rest.filter (· ≠ u) := by
      rw [Queues.runNext, head]
      simp only [setThread_queue, Queues.remove, shape]
      simp
    rw [shape, ahead_cons_of_ne here] at order
    rw [left]
    exact ((ahead_filter here).cons_cons u).trans order

omit [DecidableEq τ] in
theorem exists_dispatch {event : Kernel.Event τ} (dispatches : event.isDispatch = true) :
    ∃ now, event = .dispatch now := by
  cases event with
  | dispatch now => exact ⟨now, rfl⟩
  | _ => cases dispatches

omit [DecidableEq τ] in
/-- The thread waits for the processor and for nothing else. -/
theorem only_ready (refines : Refines s a) (ready : t ∈ a.queue .ready) :
    ∀ q, q ≠ .ready → t ∉ a.queue q := fun _ elsewhere member =>
  elsewhere (refines.only_queue ready member)

/-- From a state where the thread is in the queue and does not run. -/
theorem served [Fintype τ] (events : List (Kernel.Event τ)) (refines : Refines s a)
    (linkable : Admissible (Queues.step (.roundRobin slice)) (Queues.Linkable (.roundRobin slice)) a
      events)
    (idle : a.running ≠ some t) (ready : t ∈ a.queue .ready)
    (untouched : ∀ event ∈ events, event.thread ≠ some t)
    (often : (ahead t (a.queue .ready)).length < events.countP Kernel.Event.isDispatch) :
    ∃ done now rest s', events = done ++ .dispatch now :: rest ∧
      Kernel.exec (.roundRobin slice) s (done ++ [.dispatch now]) = some s' ∧
      s'.running = some t ∧
      (picks (.roundRobin slice) s done).Sublist (ahead t (a.queue .ready)) := by
  induction events generalizing s a with
  | nil => cases often
  | cons event events ih =>
    obtain ⟨fits, later⟩ := linkable
    obtain ⟨s', stepped, refines'⟩ := refines.step le_rfl fits
    have others : ∀ e ∈ events, e.thread ≠ some t := fun e member =>
      untouched e (List.mem_cons_of_mem _ member)
    have only := only_ready refines ready
    cases dispatches : event.isDispatch with
    | true =>
      obtain ⟨now, rfl⟩ := exists_dispatch dispatches
      have performed : a.step (.roundRobin slice) (.dispatch now) =
          a.dispatch (.roundRobin slice) now := by
        rw [Queues.step, dispatches, Bool.not_true, Bool.and_false, if_neg Bool.false_ne_true]
        rfl
      rw [performed] at refines' later
      rcases dispatch_turn now idle only ready with turn | ⟨u, turn, other, kept, order⟩
      · refine ⟨[], now, events, s', rfl, ?_, refines'.running.trans turn, List.nil_sublist _⟩
        rw [List.nil_append, Kernel.exec, List.foldlM_cons, stepped]
        rfl
      · have shorter := order.length_le
        rw [List.length_cons] at shorter
        rw [List.countP_cons_of_pos dispatches] at often
        obtain ⟨done, time, rest, last, whole, ran, runs, turns⟩ := ih refines' later
          (by rw [turn]; exact fun same => other (Option.some.inj same))
          ((kept.queue .ready).mpr ready) others (by omega)
        refine ⟨.dispatch now :: done, time, rest, last, by rw [whole]; rfl, ?_, runs, ?_⟩
        · rw [List.cons_append, Kernel.exec, List.foldlM_cons, stepped]
          exact ran
        · rw [picks, stepped]
          simp only [dispatches, if_true, refines'.running, turn, Option.toList_some,
            List.singleton_append]
          exact (turns.cons_cons u).trans order
    | false =>
      have turn : InTurn t a (a.step (.roundRobin slice) event) :=
        step_rule (p := InTurn t a) _ (InTurn.refl t a)
          (InTurn.perform a slice only (untouched event (List.mem_cons_self ..)) dispatches)
      rw [List.countP_cons_of_neg (by simp [dispatches])] at often
      obtain ⟨done, time, rest, last, whole, ran, runs, turns⟩ := ih refines' later
        (turn.untouched.running idle) ((turn.untouched.queue .ready).mpr ready) others
        (Nat.lt_of_le_of_lt (turn.ahead ready).length_le often)
      refine ⟨event :: done, time, rest, last, by rw [whole]; rfl, ?_, runs, ?_⟩
      · rw [List.cons_append, Kernel.exec, List.foldlM_cons, stepped]
        exact ran
      · rw [picks, stepped]
        simp only [dispatches, Bool.false_eq_true, if_false]
        exact turns.trans (turn.ahead ready)

/-- In every run, a thread at some place in the queue of the scheduler gets the processor with at
most as many dispatches before, and these go to threads in front of it, each at most once and in
the order of the queue. -/
theorem served_in_turn [Fintype τ] (slice : Nat) (threads : τ → Thread)
    (events later : List (Kernel.Event τ))
    (linkable : Admissible (Queues.step (.roundRobin slice)) (Queues.Linkable (.roundRobin slice))
      (Queues.start threads) (events ++ later)) :
    ∃ s, Kernel.exec (.roundRobin slice) (Kernel.start threads) events = some s ∧
      ∀ (t : τ) (i : Nat), (s.list .ready)[i]? = some t → s.running ≠ some t →
        (∀ event ∈ later, event.thread ≠ some t) → i < later.countP Kernel.Event.isDispatch →
        ∃ done now rest s', later = done ++ .dispatch now :: rest ∧
          Kernel.exec (.roundRobin slice) s (done ++ [.dispatch now]) = some s' ∧
          s'.running = some t ∧ (s.list .ready).Nodup ∧
          (picks (.roundRobin slice) s done).Sublist ((s.list .ready).take i) := by
  rw [admissible_append] at linkable
  obtain ⟨s, ran, refines⟩ := (Refines.start threads).ran events linkable.1
  refine ⟨s, ran, fun t i place idle untouched often => ?_⟩
  rw [refines.list_eq] at place ⊢
  have front := ahead_take place
  have few := front.length_le
  rw [List.length_take] at few
  obtain ⟨done, now, rest, s', whole, done_ran, runs, turns⟩ := served later refines linkable.2
    (by rwa [← refines.running]) (List.mem_of_getElem? place) untouched (by omega)
  exact ⟨done, now, rest, s', whole, done_ran, runs, refines.represents.nodup _, turns.trans front⟩

/-- Four threads of one task. -/
def four (_ : Fin 4) : Thread := Thread.create 1 0 0 none

/-- The third of three that wait; the first one sleeps after its turn, the fourth comes later. -/
theorem served_in_turn_third : ∃ s,
    Kernel.exec (.roundRobin 20) (Kernel.start four) [.run 0, .run 1, .run 2, .dispatch 0] =
      some s ∧
    ∃ done now rest s', [.dispatch 1, .run 3, .sleep 1 50, .dispatch 2, .dispatch 3] =
        done ++ .dispatch now :: rest ∧
      Kernel.exec (.roundRobin 20) s (done ++ [.dispatch now]) = some s' ∧ s'.running = some 2 := by
  obtain ⟨s, ran, serves⟩ := served_in_turn 20 four [.run 0, .run 1, .run 2, .dispatch 0]
    [.dispatch 1, .run 3, .sleep 1 50, .dispatch 2, .dispatch 3] (by decide +kernel)
  have place : (Kernel.exec (.roundRobin 20) (Kernel.start four)
      [.run 0, .run 1, .run 2, .dispatch 0]).map (fun s => decide ((s.list .ready)[1]? = some 2 ∧
        s.running ≠ some 2)) = some true := by decide +kernel
  rw [ran, Option.map_some, Option.some.injEq] at place
  obtain ⟨there, idle⟩ := of_decide_eq_true place
  obtain ⟨done, now, rest, s', whole, done_ran, runs, -⟩ := serves 2 1 there idle (by decide)
    (by decide)
  exact ⟨s, ran, done, now, rest, s', whole, done_ran, runs⟩

end Runs

end Orcos.Guarantees.RoundRobin
