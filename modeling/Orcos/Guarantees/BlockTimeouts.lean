import Orcos.Source.SingleCPUDispatcher
import Orcos.Source.ThreadFrames

/-!
# The time-outs of blocked threads

Source: src/source/kernel/KernelServiceThread.cc, `callbackFunc`;
src/source/scheduler/SingleCPUDispatcher.cc, `unblock`; src/source/db/LinkedListItem.hh, `remove`.

The pass goes on behind the item it has just unblocked, so in the list that this item is in by
then: what follows on the blocked list is not visited any more.
-/
namespace Orcos.Guarantees.BlockTimeouts
open Lib.Sequences Source

variable {τ : Type} [DecidableEq τ]

section Specification

variable [Fintype τ]

/-- The threads of a list that are due are unblocked, and leave the blocked list unless they
are stopped; all others keep their data and their places, and only the list is visited. -/
structure Serves (s : Timeouts τ) (now : Nat) (blocked : List τ) (s' : Timeouts τ)
    (visited : List τ) : Prop where
  due : ∀ t ∈ blocked, s.isDue now t = true → (s'.kernel.threads t).isBlocked = false ∧
    ((s.kernel.threads t).isStopped = false → t ∉ s'.kernel.list .blocked)
  others : ∀ t, ¬(t ∈ blocked ∧ s.isDue now t = true) →
    s'.kernel.threads t = s.kernel.threads t ∧ s'.blockTimeout t = s.blockTimeout t ∧
      ∀ q, t ∈ s'.kernel.list q ↔ t ∈ s.kernel.list q
  visited : ∀ t ∈ visited, t ∈ blocked

/-- One pass comes to an end and serves the blocked list. -/
def Served (cfg : SchedulerCfd) (s : Timeouts τ) (now : Nat) : Prop :=
  ∃ rounds s' visited, s.serve cfg rounds now = some (s', visited) ∧
    Serves s now (s.kernel.list .blocked) s' visited

/-- The pass moves the thread to another list. -/
def leaves (s : Timeouts τ) (now : Nat) (t : τ) : Bool :=
  s.isDue now t && !(s.kernel.threads t).isStopped

omit [DecidableEq τ] [Fintype τ] in
/-- No thread stands behind this one on the list it is moved to. -/
def LastOf (cfg : SchedulerCfd) (a : Queues τ) (t : τ) : Prop :=
  if 0 < (a.threads t).sleepTime then True
  else
    match cfg, cfg.sleepsUntil (a.threads t) with
    | .roundRobin _, _ => True
    | _, some timePoint => ∀ u ∈ (a.queue .sleep).getLast?, (a.threads u).sleepTime ≤ timePoint
    | _, none => ∀ u ∈ (a.queue .ready).getLast?,
        (cfg.entered (a.threads t)).effectivePriority ≤ (a.threads u).effectivePriority

/-- The first thread to be moved is the last one that is due, and gets to the end of a list. -/
def EndsWell (cfg : SchedulerCfd) (s : Timeouts τ) (now : Nat) : List τ → Prop
  | [] => True
  | t :: later =>
    if leaves s now t then (∀ u ∈ later, s.isDue now u = false) ∧ LastOf cfg s.kernel.view t
    else EndsWell cfg s now later

end Specification

section Places

variable {cfg : SchedulerCfd} {a : Queues τ} {t : τ}

omit [DecidableEq τ] in
theorem insertBehind_last (p : τ → Bool) (new : τ) (xs : List τ) :
    ∃ as bs, xs = as ++ bs ∧ insertBehind p new xs = as ++ new :: bs ∧
      (bs = [] ↔ ∀ u ∈ xs.getLast?, p u = true) := by
  obtain ⟨as, bs, split, placed, fails, holds⟩ := exists_insertBehind p new xs
  refine ⟨as, bs, split, placed, fun ends => ?_, fun last => ?_⟩
  · rw [split, ends, List.append_nil]
    exact holds
  · cases rest : bs.getLast? with
    | none => exact List.getLast?_eq_none_iff.mp rest
    | some u =>
      have member : u ∈ bs := List.mem_of_getLast? rest
      have ends : xs.getLast? = some u := by
        rw [split, List.getLast?_append, rest]
        rfl
      have met := last u ends
      rw [fails u member] at met
      cases met

theorem filter_absent {xs : List τ} (absent : t ∉ xs) : xs.filter (· ≠ t) = xs :=
  List.filter_eq_self.mpr fun u member => by
    have other : u ≠ t := fun same => absent (same ▸ member)
    simpa using other

/-- The thread with the flags it has when it is unblocked. -/
def released (thread : Thread) : Thread := (thread.setBlocked false).setReady true

omit [DecidableEq τ] in
theorem sleepsUntil_released (thread : Thread) :
    cfg.sleepsUntil (released thread) = cfg.sleepsUntil thread := by
  cases cfg <;> rfl

omit [DecidableEq τ] in
theorem entered_released (thread : Thread) :
    (cfg.entered (released thread)).effectivePriority =
      (cfg.entered thread).effectivePriority := by
  cases cfg with
  | roundRobin _ => rfl
  | earliestDeadlineFirst => rfl
  | rateMonotonic =>
    unfold SchedulerCfd.entered
    have same : (released thread).instanceNumber = thread.instanceNumber := rfl
    dsimp only
    rw [same]
    split
    · rfl
    · rfl

theorem unblock_eq (blocked : (a.threads t).isBlocked = true)
    (going : (a.threads t).isStopped = false) :
    a.unblock cfg t = (a.setThread t (released (a.threads t))).dispatcherUnblock cfg t := by
  have stays : ((a.threads t).setBlocked false).isStopped = false := going
  unfold Queues.unblock
  dsimp only
  rw [if_pos blocked, Queues.setThread_threads, if_pos rfl, stays]
  have flags : (a.setThread t ((a.threads t).setBlocked false)).setThread t
      (((a.threads t).setBlocked false).setReady true) =
        a.setThread t (released (a.threads t)) := by
    unfold Queues.setThread
    rw [Function.update_idem]
    rfl
  rw [flags]
  rfl

theorem move_absent {q : QueueName} (absent : t ∉ a.queue q) (p : τ → Bool) :
    (a.move t q p).queue q = insertBehind p t (a.queue q) := by
  rw [Queues.move]
  dsimp only
  rw [Function.update_self, Queues.remove]
  dsimp only
  rw [filter_absent absent]

/-- A thread is put behind the last one of a list that meets some condition. -/
def PlacedIn (a b : Queues τ) (t : τ) (q : QueueName) (last : Prop) : Prop :=
  ∃ p, b.queue q = insertBehind p t (a.queue q) ∧
    ((∀ u ∈ (a.queue q).getLast?, p u = true) ↔ last)

theorem placedIn_sleep {b : Queues τ} (queue : b.queue = a.queue)
    (threads : ∀ u, u ≠ t → b.threads u = a.threads u) (absent : t ∉ a.queue .sleep)
    (timePoint : Nat) :
    PlacedIn a (b.sleep t timePoint) t .sleep
      (∀ u ∈ (a.queue .sleep).getLast?, (a.threads u).sleepTime ≤ timePoint) := by
  have absent' : t ∉ (b.putOff t timePoint).queue .sleep := by
    rw [Queues.putOff, Queues.setThread_queue, queue]
    exact absent
  refine ⟨fun u => decide (((b.putOff t timePoint).threads u).sleepTime ≤
    ((b.putOff t timePoint).threads t).sleepTime), ?_, forall₂_congr fun u last => ?_⟩
  · rw [Queues.sleep, Queues.addSleeping, Queues.leave_queue, move_absent absent',
      Queues.putOff, Queues.setThread_queue, queue]
  · have other : u ≠ t := fun same => absent (same ▸ List.mem_of_getLast? last)
    rw [decide_eq_true_iff, Queues.putOff, Queues.setThread_threads, if_neg other,
      Queues.setThread_threads, if_pos rfl, threads u other]
    rfl

variable (cfg) in
theorem placedIn_ready {b : Queues τ} (queue : b.queue = a.queue)
    (threads : ∀ u, u ≠ t → b.threads u = a.threads u) (absent : t ∉ a.queue .ready) :
    PlacedIn a (b.addReady cfg t) t .ready
      (match cfg with
      | .roundRobin _ => True
      | _ => ∀ u ∈ (a.queue .ready).getLast?,
          (b.threads t).effectivePriority ≤ (a.threads u).effectivePriority) := by
  have absent' : t ∉ b.queue .ready := by
    rw [queue]
    exact absent
  have same : ∀ u ∈ (a.queue .ready).getLast?, b.threads u = a.threads u := fun u last =>
    threads u fun equal => absent (equal ▸ List.mem_of_getLast? last)
  cases cfg with
  | roundRobin _ =>
    refine ⟨fun _ => true, ?_, by simp⟩
    rw [Queues.addReady, Queues.addTail, move_absent absent', queue]
  | rateMonotonic =>
    refine ⟨fun u => decide ((b.threads t).effectivePriority ≤ (b.threads u).effectivePriority),
      ?_, forall₂_congr fun u last => ?_⟩
    · rw [Queues.addReady, move_absent absent', queue]
      exact fun _ equal => by cases equal
    · rw [decide_eq_true_iff, same u last]
  | earliestDeadlineFirst =>
    refine ⟨fun u => decide ((b.threads t).effectivePriority ≤ (b.threads u).effectivePriority),
      ?_, forall₂_congr fun u last => ?_⟩
    · rw [Queues.addReady, move_absent absent', queue]
      exact fun _ equal => by cases equal
    · rw [decide_eq_true_iff, same u last]

variable (cfg) in
theorem unblock_place (blocked : (a.threads t).isBlocked = true)
    (going : (a.threads t).isStopped = false) (notReady : t ∉ a.queue .ready)
    (notAsleep : t ∉ a.queue .sleep) :
    ∃ q, q ≠ .blocked ∧ PlacedIn a (a.unblock cfg t) t q (LastOf cfg a t) := by
  have here : (a.setThread t (released (a.threads t))).threads t = released (a.threads t) := by
    rw [Queues.setThread_threads, if_pos rfl]
  have others : ∀ u, u ≠ t →
      (a.setThread t (released (a.threads t))).threads u = a.threads u := fun u other => by
    rw [Queues.setThread_threads, if_neg other]
  have stays : cfg.sleepsUntil ((a.setThread t (released (a.threads t))).threads t) =
      cfg.sleepsUntil (a.threads t) := by rw [here, sleepsUntil_released]
  let entering := (a.setThread t (released (a.threads t))).setThread t
    (cfg.entered ((a.setThread t (released (a.threads t))).threads t))
  have entered : ∀ u, u ≠ t → entering.threads u = a.threads u := fun u other => by
    rw [Queues.setThread_threads, if_neg other, others u other]
  rw [unblock_eq blocked going]
  unfold Queues.dispatcherUnblock LastOf
  rw [here, Queues.enter_remove]
  have time : (released (a.threads t)).sleepTime = (a.threads t).sleepTime := rfl
  rw [time]
  by_cases asleep : 0 < (a.threads t).sleepTime
  · rw [if_pos asleep, if_pos asleep]
    exact ⟨.sleep, by decide, fun _ => true, move_absent notAsleep _, by simp⟩
  · rw [if_neg asleep, if_neg asleep]
    cases sleeps : cfg.sleepsUntil (a.threads t) with
    | some timePoint =>
      rw [Queues.enter_asleep cfg _ t (stays.trans sleeps)]
      have placed := placedIn_sleep (a := a) (b := entering) rfl entered notAsleep timePoint
      cases cfg with
      | roundRobin _ => cases sleeps
      | rateMonotonic => exact ⟨.sleep, by decide, placed⟩
      | earliestDeadlineFirst => exact ⟨.sleep, by decide, placed⟩
    | none =>
      rw [Queues.enter_awake cfg _ t (stays.trans sleeps)]
      have placed := placedIn_ready cfg (a := a) (b := entering) rfl entered notReady
      have priority : (entering.threads t).effectivePriority =
          (cfg.entered (a.threads t)).effectivePriority := by
        rw [Queues.setThread_threads, if_pos rfl, here, entered_released]
      rw [priority] at placed
      cases cfg with
      | roundRobin _ => exact ⟨.ready, by decide, placed⟩
      | rateMonotonic => exact ⟨.ready, by decide, placed⟩
      | earliestDeadlineFirst => exact ⟨.ready, by decide, placed⟩

theorem unblock_stopped (blocked : (a.threads t).isBlocked = true)
    (stopped : (a.threads t).isStopped = true) :
    a.unblock cfg t = a.setThread t ((a.threads t).setBlocked false) := by
  have stays : ((a.threads t).setBlocked false).isStopped = true := stopped
  unfold Queues.unblock
  dsimp only
  rw [if_pos blocked, Queues.setThread_threads, if_pos rfl, if_pos stays]

theorem entered_isBlocked (thread : Thread) :
    (cfg.entered thread).isBlocked = thread.isBlocked := by
  cases cfg with
  | rateMonotonic =>
    unfold SchedulerCfd.entered
    dsimp only
    split
    · rfl
    · rfl
  | roundRobin _ => rfl
  | earliestDeadlineFirst => rfl

theorem unblock_isBlocked (blocked : (a.threads t).isBlocked = true)
    (going : (a.threads t).isStopped = false) :
    ((a.unblock cfg t).threads t).isBlocked = false := by
  have here : (a.setThread t (released (a.threads t))).threads t = released (a.threads t) := by
    rw [Queues.setThread_threads, if_pos rfl]
  rw [unblock_eq blocked going]
  unfold Queues.dispatcherUnblock
  split
  · rw [Queues.addTail_threads, here]
    rfl
  · rw [Queues.enter_remove]
    cases sleeps : cfg.sleepsUntil ((a.setThread t (released (a.threads t))).threads t) with
    | some timePoint =>
      rw [Queues.enter_asleep cfg _ t sleeps, Queues.sleep, Queues.addSleeping_threads,
        Queues.putOff, Queues.setThread_threads, if_pos rfl, Queues.setThread_threads, if_pos rfl,
        here]
      exact entered_isBlocked (released (a.threads t))
    | none =>
      rw [Queues.enter_awake cfg _ t sleeps, Queues.addReady_threads, Queues.setThread_threads,
        if_pos rfl, here, entered_isBlocked]
      rfl

omit [DecidableEq τ] in
theorem lastOf_congr {b : Queues τ} (queue : b.queue = a.queue) (same : b.threads t = a.threads t)
    (times : ∀ u, (b.threads u).sleepTime = (a.threads u).sleepTime ∧
      (b.threads u).effectivePriority = (a.threads u).effectivePriority) :
    LastOf cfg b t ↔ LastOf cfg a t := by
  unfold LastOf
  rw [queue, same]
  simp only [times]

end Places

section Pass

variable [Fintype τ] {cfg : SchedulerCfd} {s s₁ s' : Timeouts τ} {a : Queues τ} {now : Nat}
  {t : τ} {kept rest visited : List τ}

omit [Fintype τ] in
theorem visit_early {fuel : Nat} (early : s.isDue now t = false) :
    Timeouts.visit cfg fuel now s t = some s := by
  rw [Timeouts.visit, early]
  rfl

omit [Fintype τ] in
theorem loop_some {fuel rounds : Nat} (went : Timeouts.visit cfg fuel now s t = some s₁) :
    Timeouts.loop cfg fuel now (rounds + 1) s (some t) =
      (Timeouts.loop cfg fuel now rounds s₁ (s₁.kernel.heap.succ t)).map fun (s, visited) =>
        (s, t :: visited) := by
  rw [Timeouts.loop, went]
  rfl

variable (cfg) in
theorem visit_due (refines : Refines s.kernel a) (due : s.isDue now t = true) :
    ∃ kernel, Timeouts.visit cfg (Fintype.card τ) now s t =
        some ⟨kernel, Function.update s.blockTimeout t 0⟩ ∧
      Refines kernel (a.unblock cfg t) := by
  obtain ⟨kernel, unblocked, refines'⟩ : ∃ kernel,
      Kernel.unblock cfg (Fintype.card τ) s.kernel t = some kernel ∧
        Refines kernel (a.unblock cfg t) := refines.unblock le_rfl t
  refine ⟨kernel, ?_, refines'⟩
  rw [Timeouts.visit, due, unblocked]
  rfl

/-- What the pass does to the first thread of the list and to the others. -/
inductive Visited (cfg : SchedulerCfd) (s : Timeouts τ) (a : Queues τ) (now : Nat) (t : τ) : Prop
  | early (early : s.isDue now t = false)
  | stopped (due : s.isDue now t = true) (stopped : (a.threads t).isStopped = true) (s₁)
      (went : Timeouts.visit cfg (Fintype.card τ) now s t = some s₁)
      (refines : Refines s₁.kernel (a.setThread t ((a.threads t).setBlocked false)))
      (timeouts : s₁.blockTimeout = Function.update s.blockTimeout t 0)
  | moved (due : s.isDue now t = true) (going : (a.threads t).isStopped = false) (s₁)
      (went : Timeouts.visit cfg (Fintype.card τ) now s t = some s₁)
      (refines : Refines s₁.kernel (a.unblock cfg t))
      (timeouts : s₁.blockTimeout = Function.update s.blockTimeout t 0)
      (others : List τ)
      (next : s₁.kernel.heap.succ t = others.head?)
      (absent : ∀ u ∈ others, u ∉ a.queue .blocked)
      (last : others = [] ↔ LastOf cfg a t)
      (gone : t ∉ (a.unblock cfg t).queue .blocked)

omit [DecidableEq τ] [Fintype τ] in
theorem isBlocked_of_isDue (refines : Refines s.kernel a) (due : s.isDue now t = true) :
    (a.threads t).isBlocked = true := by
  rw [Timeouts.isDue, refines.thread] at due
  simp only [Bool.and_eq_true] at due
  exact due.1.1

variable (cfg) in
theorem visited_cases (now : Nat) (refines : Refines s.kernel a) (waits : t ∈ a.queue .blocked) :
    Visited cfg s a now t := by
  cases due : s.isDue now t with
  | false => exact .early due
  | true =>
    have blocked := isBlocked_of_isDue refines due
    obtain ⟨kernel, went, refines'⟩ := visit_due cfg refines due
    cases stopped : (a.threads t).isStopped with
    | true =>
      rw [unblock_stopped blocked stopped] at refines'
      exact .stopped due stopped _ went refines' rfl
    | false =>
      have notReady : t ∉ a.queue .ready := fun ready => by cases refines.only_queue ready waits
      have notAsleep : t ∉ a.queue .sleep := fun asleep => by cases refines.only_queue asleep waits
      obtain ⟨q, elsewhere, p, placed, last⟩ :=
        unblock_place cfg blocked stopped notReady notAsleep
      obtain ⟨as, bs, split, inserted, ends⟩ := insertBehind_last p t (a.queue q)
      rw [inserted] at placed
      have here : t ∈ (a.unblock cfg t).queue q := by simp [placed]
      refine .moved due stopped _ went refines' rfl bs (refines'.succ_eq placed)
        (fun u behind => ?_)
        (ends.trans last) fun there => elsewhere (refines'.only_queue there here)
      have member : u ∈ a.queue q := by simp [split, behind]
      exact fun there => elsewhere (refines.only_queue there member)

omit [DecidableEq τ] in
theorem endsWell_congr (same : ∀ u ∈ rest, s₁.isDue now u = s.isDue now u ∧
    leaves s₁ now u = leaves s now u ∧
      (LastOf cfg s₁.kernel.view u ↔ LastOf cfg s.kernel.view u)) :
    EndsWell cfg s₁ now rest ↔ EndsWell cfg s now rest := by
  induction rest with
  | nil => exact Iff.rfl
  | cons t rest ih =>
    have later := ih fun u member => same u (List.mem_cons_of_mem t member)
    obtain ⟨_, leaves, last⟩ := same t List.mem_cons_self
    rw [EndsWell, EndsWell, leaves, last, later]
    have due : (∀ u ∈ rest, s₁.isDue now u = false) ↔ ∀ u ∈ rest, s.isDue now u = false :=
      forall₂_congr fun u member => by rw [(same u (List.mem_cons_of_mem t member)).1]
    rw [due]

/-- A thread that is stopped is only marked. -/
structure Marked (s s₁ : Timeouts τ) (a : Queues τ) (t : τ) : Prop where
  before : Refines s.kernel a
  after : Refines s₁.kernel (a.setThread t ((a.threads t).setBlocked false))
  timeouts : s₁.blockTimeout = Function.update s.blockTimeout t 0

namespace Marked

variable {u : τ}

omit [Fintype τ] in
theorem threads (marked : Marked s s₁ a t) (other : u ≠ t) :
    s₁.kernel.threads u = s.kernel.threads u ∧ s₁.blockTimeout u = s.blockTimeout u := by
  rw [marked.after.thread, marked.before.thread, Queues.setThread_threads, if_neg other,
    marked.timeouts, Function.update_of_ne other]
  exact ⟨rfl, rfl⟩

theorem list (marked : Marked s s₁ a t) (q : QueueName) : s₁.kernel.list q = s.kernel.list q := by
  rw [marked.after.list_eq, marked.before.list_eq, Queues.setThread_queue]

omit [Fintype τ] in
theorem isDue (marked : Marked s s₁ a t) (other : u ≠ t) : s₁.isDue now u = s.isDue now u := by
  rw [Timeouts.isDue, Timeouts.isDue, (marked.threads other).1, (marked.threads other).2]

theorem endsWell_iff (marked : Marked s s₁ a t) (fresh : t ∉ rest) :
    EndsWell cfg s₁ now rest ↔ EndsWell cfg s now rest := by
  apply endsWell_congr
  intro u member
  have other : u ≠ t := fun same => fresh (same ▸ member)
  refine ⟨marked.isDue other, ?_, ?_⟩
  · rw [leaves, leaves, marked.isDue other, (marked.threads other).1]
  · rw [marked.after.view_eq, marked.before.view_eq]
    apply lastOf_congr (Queues.setThread_queue ..)
    · rw [Queues.setThread_threads, if_neg other]
    · intro v
      rw [Queues.setThread_threads]
      split
      case isTrue equal =>
        rw [equal]
        exact ⟨rfl, rfl⟩
      case isFalse => exact ⟨rfl, rfl⟩

end Marked

variable (cfg) in
/-- The pass serves what it ends well on. -/
theorem serves_of_endsWell (refines : Refines s.kernel a)
    (split : a.queue .blocked = kept ++ rest) (ends : EndsWell cfg s now rest) :
    ∃ rounds s' visited, Timeouts.loop cfg (Fintype.card τ) now rounds s rest.head? =
      some (s', visited) ∧ Serves s now rest s' visited := by
  induction rest generalizing s a kept with
  | nil =>
    refine ⟨0, s, [], rfl, ?_, fun t _ => ⟨rfl, rfl, fun _ => Iff.rfl⟩, ?_⟩
    · intro t member
      cases member
    · intro t member
      cases member
  | cons t rest ih =>
    have nodup := refines.represents.nodup .blocked
    rw [split] at nodup
    have fresh : t ∉ rest := (List.nodup_cons.mp (List.nodup_append.mp nodup).2.1).1
    have waits : t ∈ a.queue .blocked := by simp [split]
    have behind : a.queue .blocked = (kept ++ [t]) ++ rest := by simp [split]
    rw [EndsWell] at ends
    cases visited_cases cfg now refines waits with
    | early early =>
      rw [leaves, early] at ends
      obtain ⟨rounds, s', visited, ran, serves⟩ := ih refines behind ends
      refine ⟨rounds + 1, s', t :: visited, ?_, ?_, ?_, ?_⟩
      · rw [List.head?_cons, loop_some (visit_early early), refines.succ_eq split, ran]
        rfl
      · intro u member due
        rcases List.mem_cons.mp member with rfl | later
        · rw [early] at due
          cases due
        · exact serves.due u later due
      · intro u other
        exact serves.others u fun both => other ⟨List.mem_cons_of_mem t both.1, both.2⟩
      · intro u member
        rcases List.mem_cons.mp member with rfl | later
        · exact List.mem_cons_self
        · exact List.mem_cons_of_mem t (serves.visited u later)
    | stopped due stopped s₁ went refines' timeouts =>
      have marked : Marked s s₁ a t := ⟨refines, refines', timeouts⟩
      rw [leaves, due, refines.thread, stopped] at ends
      obtain ⟨rounds, s', visited, ran, serves⟩ := ih refines' behind
        ((marked.endsWell_iff fresh).mpr ends)
      have own := serves.others t fun both => fresh both.1
      refine ⟨rounds + 1, s', t :: visited, ?_, ?_, ?_, ?_⟩
      · rw [List.head?_cons, loop_some went, refines'.succ_eq split, ran]
        rfl
      · intro u member dueU
        by_cases same : u = t
        · rw [same, own.1, refines'.thread, Queues.setThread_threads, if_pos rfl, refines.thread,
            stopped]
          exact ⟨rfl, fun going => by cases going⟩
        · have later := (List.mem_cons.mp member).resolve_left same
          have served := serves.due u later ((marked.isDue same).trans dueU)
          rw [(marked.threads same).1] at served
          exact served
      · intro u other
        have differs : u ≠ t := fun same => other ⟨by simp [same], same ▸ due⟩
        have kept := serves.others u fun both => other ⟨List.mem_cons_of_mem t both.1,
          (marked.isDue differs).symm.trans both.2⟩
        rw [(marked.threads differs).1, (marked.threads differs).2] at kept
        exact ⟨kept.1, kept.2.1, fun q => (kept.2.2 q).trans (by rw [marked.list])⟩
      · intro u member
        rcases List.mem_cons.mp member with rfl | later
        · exact List.mem_cons_self
        · exact List.mem_cons_of_mem t (serves.visited u later)
    | moved due going s₁ went refines' timeouts others next absent last gone =>
      have blocked := isBlocked_of_isDue refines due
      rw [leaves, due, refines.thread, going, refines.view_eq] at ends
      obtain ⟨notDue, ends⟩ := ends
      rw [last.mpr ends] at next
      refine ⟨1, s₁, [t], ?_, ?_, ?_, ?_⟩
      · rw [List.head?_cons, loop_some went, next]
        rfl
      · intro u member dueU
        rcases List.mem_cons.mp member with rfl | later
        · rw [refines'.thread, refines'.list_eq]
          exact ⟨unblock_isBlocked blocked going, fun _ => gone⟩
        · rw [notDue u later] at dueU
          cases dueU
      · intro u other
        have differs : t ≠ u := fun same => other ⟨by simp [same], same ▸ due⟩
        have untouched : Queues.Untouched u a (a.unblock cfg t) := .unblock a differs
        rw [refines'.thread, refines.thread, timeouts, Function.update_of_ne differs.symm]
        refine ⟨untouched.threads, rfl, fun q => ?_⟩
        rw [refines'.list_eq, refines.list_eq]
        exact untouched.queue q
      · intro u member
        rw [List.mem_singleton.mp member]
        exact List.mem_cons_self

omit [Fintype τ] in
theorem loop_visits {fuel rounds : Nat}
    (ran : Timeouts.loop cfg fuel now rounds s (some t) = some (s', visited)) : t ∈ visited := by
  cases rounds with
  | zero => cases ran
  | succ rounds =>
    rw [Timeouts.loop] at ran
    obtain ⟨_, _, ran⟩ := Option.bind_eq_some_iff.mp ran
    obtain ⟨_, _, same⟩ := Option.map_eq_some_iff.mp ran
    cases same
    exact List.mem_cons_self

/-- A pass that visits no foreign thread and unblocks all that are due has ended well. -/
theorem endsWell_of_loop (refines : Refines s.kernel a) (split : a.queue .blocked = kept ++ rest)
    {rounds : Nat} (ran : Timeouts.loop cfg (Fintype.card τ) now rounds s rest.head? =
      some (s', visited))
    (due : ∀ t ∈ rest, s.isDue now t = true → (s'.kernel.threads t).isBlocked = false)
    (inside : ∀ t ∈ visited, t ∈ a.queue .blocked) : EndsWell cfg s now rest := by
  induction rest generalizing s a kept rounds visited with
  | nil => trivial
  | cons t rest ih =>
    have nodup := refines.represents.nodup .blocked
    rw [split] at nodup
    have fresh : t ∉ rest := (List.nodup_cons.mp (List.nodup_append.mp nodup).2.1).1
    have waits : t ∈ a.queue .blocked := by simp [split]
    have behind : a.queue .blocked = (kept ++ [t]) ++ rest := by simp [split]
    cases rounds with
    | zero => cases ran
    | succ rounds =>
      rw [List.head?_cons] at ran
      rw [EndsWell]
      cases visited_cases cfg now refines waits with
      | early early =>
        rw [loop_some (visit_early early), refines.succ_eq split] at ran
        obtain ⟨⟨_, later⟩, goesOn, same⟩ := Option.map_eq_some_iff.mp ran
        cases same
        rw [leaves, early]
        apply ih refines behind goesOn
        · exact fun u member => due u (List.mem_cons_of_mem t member)
        · exact fun u member => inside u (List.mem_cons_of_mem t member)
      | stopped isDue stopped s₁ went refines' timeouts =>
        have marked : Marked s s₁ a t := ⟨refines, refines', timeouts⟩
        rw [loop_some went, refines'.succ_eq split] at ran
        obtain ⟨⟨_, later⟩, goesOn, same⟩ := Option.map_eq_some_iff.mp ran
        cases same
        rw [leaves, isDue, refines.thread, stopped]
        apply (marked.endsWell_iff fresh).mp
        apply ih refines' behind goesOn
        · intro u member dueU
          have other : u ≠ t := fun same => fresh (same ▸ member)
          exact due u (List.mem_cons_of_mem t member) ((marked.isDue other).symm.trans dueU)
        · exact fun u member => inside u (List.mem_cons_of_mem t member)
      | moved isDue going s₁ went refines' timeouts others next absent last gone =>
        rw [loop_some went, next] at ran
        obtain ⟨⟨_, later⟩, goesOn, same⟩ := Option.map_eq_some_iff.mp ran
        cases same
        cases others with
        | cons u others =>
          have foreign := inside u (List.mem_cons_of_mem t (loop_visits goesOn))
          exact absurd foreign (absent u List.mem_cons_self)
        | nil =>
          have ended : Timeouts.loop cfg (Fintype.card τ) now rounds s₁ none = some (s₁, []) := by
            cases rounds <;> rfl
          rw [List.head?_nil, ended] at goesOn
          cases goesOn
          rw [leaves, isDue, refines.thread, going, refines.view_eq]
          refine ⟨fun u member => ?_, last.mp rfl⟩
          cases dueU : s.isDue now u with
          | false => rfl
          | true =>
            have other : t ≠ u := fun same => fresh (same ▸ member)
            have untouched : Queues.Untouched u a (a.unblock cfg t) := .unblock a other
            have unblocked := due u (List.mem_cons_of_mem t member) dueU
            rw [refines'.thread, untouched.threads, isBlocked_of_isDue refines dueU] at unblocked
            cases unblocked

theorem serve_eq (refines : Refines s.kernel a) (rounds : Nat) :
    s.serve cfg rounds now =
      Timeouts.loop cfg (Fintype.card τ) now rounds s (a.queue .blocked).head? := by
  rw [Timeouts.serve]
  exact congrArg _ (refines.represents.head .blocked)

theorem endsWell_of_served (refines : Refines s.kernel a) (served : Served cfg s now) :
    EndsWell cfg s now (s.kernel.list .blocked) := by
  obtain ⟨rounds, s', visited, ran, serves⟩ := served
  rw [serve_eq refines] at ran
  rw [refines.list_eq] at serves ⊢
  apply endsWell_of_loop refines (List.nil_append _).symm ran
  · exact fun t member due => (serves.due t member due).1
  · exact serves.visited

/-- A pass serves the blocked list exactly when the first thread that it moves is the last one
on the list whose time-out is over, and is moved to the end of a list. -/
theorem timeouts_served_iff (cfg : SchedulerCfd) (s : Timeouts τ) (refines : Refines s.kernel a)
    (now : Nat) : Served cfg s now ↔ EndsWell cfg s now (s.kernel.list .blocked) := by
  refine ⟨endsWell_of_served refines, fun ends => ?_⟩
  rw [refines.list_eq] at ends
  obtain ⟨rounds, s', visited, ran, serves⟩ :=
    serves_of_endsWell cfg refines (List.nil_append _).symm ends
  rw [← refines.list_eq] at serves
  exact ⟨rounds, s', visited, (serve_eq refines rounds).trans ran, serves⟩

end Pass

section Inputs

/-- Threads that block one after the other, with time-outs that end at time 1. -/
def blocking (τ : Type) [DecidableEq τ] (ts : List τ) : Timeouts τ :=
  ⟨ts.foldl Kernel.block (Kernel.start fun _ => Thread.create 1 0 0 none), fun _ => 1⟩

/-- The time-out of the second thread is over, that of the first one is not. -/
theorem timeouts_served_second :
    Served (.roundRobin 10)
      ⟨(blocking Bool [false, true]).kernel, fun t => if t then 1 else 9⟩ 5 := by
  apply (timeouts_served_iff (.roundRobin 10) _
    (((Refines.start fun _ => Thread.create 1 0 0 none).block false).block true) 5).mpr
  exact ⟨fun _ later => absurd later List.not_mem_nil, trivial⟩

/-- Of two threads whose time-outs are over the second one stays blocked. -/
theorem second_timeout_missed : ¬Served (.roundRobin 10) (blocking Bool [false, true]) 5 := by
  intro served
  have refines := ((Refines.start fun _ => Thread.create 1 0 0 none).block false).block true
  have ends : EndsWell (.roundRobin 10) (blocking Bool [false, true]) 5 [false, true] :=
    endsWell_of_served refines served
  have missed : (blocking Bool [false, true]).isDue 5 true = false :=
    ends.1 true List.mem_cons_self
  cases missed

end Inputs

end Orcos.Guarantees.BlockTimeouts
