import Mathlib.Data.Fintype.Card
import Mathlib.Data.Fintype.List
import Orcos.Source.ThreadQueues

/-!
The operations of the code do what the operations on queues do.

Each one needs that a thread to be entered is not in the queue of the scheduler
already, and one to be put to sleep not on the sleep list: the code would link
the item behind itself.
-/
namespace Orcos.Source
open Orcos.Lib.Sequences Orcos.Lib.Walk Orcos.Source.LinkedList

section Places

variable {ι κ δ : Type} [DecidableEq ι] [DecidableEq κ] {h : Heap δ ι κ} {seq : κ → List ι} {l : κ}
  {i : ι}

/-- What is linked behind the item a search found, or in front when it found none. -/
def linked (h : Heap δ ι κ) (l : κ) (i : ι) : Option ι → Heap δ ι κ
  | some sItem => (insertAfter h l i sItem).1
  | none => (addHead h l i).1

theorem linked_data (h : Heap δ ι κ) (l : κ) (i : ι) (found : Option ι) (j : ι) :
    (linked h l i found).data j = h.data j := by
  cases found with
  | none => exact addHead_data h l i j
  | some x => exact insertAfter_data h l i x j

omit [DecidableEq κ] in
theorem detach_eq_filter (rep : Represents h seq) (i : ι) (k : κ) :
    detach seq i k = (seq k).filter (· ≠ i) := by
  rw [detach, (rep.nodup k).erase_eq_filter]
  refine List.filter_congr fun j _ => ?_
  by_cases same : j = i <;> simp [same]

/-- An item that a search does not find itself gets its place behind what the search finds. -/
theorem linked_represents (rep : Represents h seq) {p : ι → Bool}
    (unlinked : (seq l).reverse.find? p ≠ some i) :
    Represents (linked h l i ((seq l).reverse.find? p))
      (Function.update (detach seq i) l (insertBehind p i (detach seq i l))) := by
  have keep : ∀ bs : List ι, (∀ b ∈ bs, p b = false) →
      ∀ b ∈ bs.filter (· ≠ i), p b = false :=
    fun bs fails b member => fails b (List.mem_of_mem_filter member)
  have rest := detach_eq_filter rep i l
  cases found : (seq l).reverse.find? p with
  | none =>
    have fails : ∀ u ∈ seq l, p u = false := fun u member => by
      simpa using List.find?_eq_none.mp found u (List.mem_reverse.mpr member)
    have added := addHead_represents rep l i
    rw [rest] at added ⊢
    rw [show insertBehind p i ((seq l).filter (· ≠ i)) = _ from insertBehind_of_none (keep _ fails)]
    exact added
  | some x =>
    have differ : x ≠ i := fun same => unlinked (found.trans (congrArg some same))
    obtain ⟨as, bs, split, holds, fails⟩ := split_of_find_reverse found
    have member : x ∈ seq l := by
      rw [split]
      simp
    have first : x ∉ as.filter (· ≠ i) := by
      have nodup := rep.nodup l
      rw [split] at nodup
      intro inAs
      exact (List.nodup_append.mp nodup).2.2 x (List.mem_of_mem_filter inAs) x (by simp) rfl
    rw [split, List.filter_append, List.filter_cons_of_pos (by simpa using differ)] at rest
    have added := insertAfter_represents rep ((rep.host l x).mpr member) differ
    rw [rest, insertAfter_split first] at added
    rw [rest, insertBehind_split holds (keep bs fails)]
    exact added

end Places

/-- The lists of the kernel represent the queues. -/
structure Refines {τ : Type} (s : Kernel τ) (a : Queues τ) : Prop where
  represents : Represents s.heap a.queue
  data : ∀ t, s.heap.data t = t
  threads : s.threads = a.threads
  running : s.running = a.running
  dispatching : s.dispatching = a.dispatching

namespace Refines

variable {τ : Type}

theorem start (threads : τ → Thread) : Refines (Kernel.start threads) (Queues.start threads) :=
  ⟨fresh_represents id, fun _ => rfl, rfl, rfl, rfl⟩

variable {s : Kernel τ} {a : Queues τ} {t : τ} {q : QueueName} {cfg : SchedulerCfd} {fuel : Nat}

theorem thread (refines : Refines s a) (t : τ) : s.threads t = a.threads t :=
  congrFun refines.threads t

section Moves

/-- The same with the heap after some change, all data and flags as before. -/
theorem change (refines : Refines s a) {heap : Heap τ τ QueueName} {b : Queues τ}
    (represents : Represents heap b.queue) (data : ∀ t, heap.data t = s.heap.data t)
    (threads : b.threads = a.threads) (running : b.running = a.running)
    (dispatching : b.dispatching = a.dispatching) : Refines { s with heap := heap } b :=
  ⟨represents, fun t => (data t).trans (refines.data t), refines.threads.trans threads.symm,
    refines.running.trans running.symm, refines.dispatching.trans dispatching.symm⟩

variable [DecidableEq τ]

theorem detach_eq (rep : Represents s.heap a.queue) (t : τ) :
    detach a.queue t = (a.remove t).queue := by
  funext k
  exact detach_eq_filter rep t k

theorem setThread (refines : Refines s a) (t : τ) (thread : Thread) :
    Refines (s.setThread t thread) (a.setThread t thread) :=
  ⟨refines.represents, refines.data, by
    rw [Kernel.setThread, Queues.setThread, refines.threads], refines.running,
    refines.dispatching⟩

theorem leave (refines : Refines s a) (t : τ) : Refines (s.leave t) (a.leave t) := by
  rw [Kernel.leave, Queues.leave, refines.running]
  split
  · exact ⟨refines.represents, refines.data, refines.threads, rfl, rfl⟩
  · exact refines

theorem remove (refines : Refines s a) (t : τ) :
    Refines { s with heap := removeFromHost s.heap t } (a.remove t) := by
  refine refines.change ?_ (removeFromHost_data s.heap t) rfl rfl rfl
  rw [← detach_eq refines.represents]
  exact (removeFromHost_represents refines.represents t).1

theorem addTail (refines : Refines s a) (t : τ) (q : QueueName) :
    Refines { s with heap := (LinkedList.addTail s.heap q t).1 } (a.addTail t q) := by
  refine refines.change ?_ (addTail_data s.heap q t) rfl rfl rfl
  have added := addTail_represents refines.represents q t
  rw [detach_eq refines.represents] at added
  rw [Queues.addTail, Queues.move, insertBehind_all fun _ _ => rfl]
  exact added

/-- The code must not find the thread itself, or its item would be linked behind itself. -/
theorem move (refines : Refines s a) {p : τ → Bool}
    (unlinked : (a.queue q).reverse.find? p ≠ some t) :
    Refines { s with heap := linked s.heap q t ((a.queue q).reverse.find? p) } (a.move t q p) := by
  refine refines.change ?_ (linked_data s.heap q t _) rfl rfl rfl
  have added := linked_represents refines.represents unlinked
  rw [detach_eq refines.represents] at added
  exact added

end Moves

section Enter

variable [Fintype τ] (enough : Fintype.card τ ≤ fuel)

include enough

theorem length_le (refines : Refines s a) (q : QueueName) : (a.queue q).length ≤ fuel :=
  (refines.represents.nodup q).length_le_card.trans enough

variable [DecidableEq τ]

theorem dispatcherSleep (refines : Refines s a) (unlinked : a.FreeToSleep t) :
    ∃ s', Kernel.dispatcherSleep fuel s t = some s' ∧ Refines s' (a.addSleeping t) := by
  have found := search_eq_find (p := fun u =>
    decide ((s.threads u).sleepTime ≤ (s.threads t).sleepTime))
    (refines.represents.chain .sleep) (refines.length_le enough .sleep)
  rw [← refines.represents.tail .sleep] at found
  have moved := refines.move unlinked
  rw [Kernel.dispatcherSleep, getTail, found, refines.threads]
  rw [Queues.addSleeping]
  cases last : (a.queue .sleep).reverse.find? fun u =>
      decide ((a.threads u).sleepTime ≤ (a.threads t).sleepTime) with
  | none =>
    rw [last, refines.threads] at moved
    exact ⟨_, rfl, moved.leave t⟩
  | some x =>
    rw [last, refines.threads] at moved
    exact ⟨_, rfl, moved.leave t⟩

theorem sleep (refines : Refines s a) {timePoint : Nat}
    (unlinked : (a.putOff t timePoint).FreeToSleep t) :
    ∃ s', Kernel.sleep fuel s t timePoint = some s' ∧ Refines s' (a.sleep t timePoint) := by
  have stored := refines.setThread t (((a.threads t).setSleepTime timePoint).setReady false)
  rw [Kernel.sleep, Queues.sleep, refines.threads]
  exact stored.dispatcherSleep enough unlinked

theorem enterByPriority (refines : Refines s a) (unlinked : a.FreeToEnter t) :
    ∃ s', Kernel.enterByPriority fuel s t = some s' ∧ Refines s' (a.move t .ready fun u =>
      (a.threads t).effectivePriority ≤ (a.threads u).effectivePriority) := by
  have found := PriorityThreadScheduler.scan_eq_find
    ⟨s.heap, fun u => (s.threads u).effectivePriority⟩ (s.threads t).effectivePriority
    (refines.represents.chain .ready) (refines.length_le enough .ready)
  rw [← refines.represents.tail .ready] at found
  have moved := refines.move unlinked
  simp only [PriorityThreadScheduler.Scheduler.priority, refines.data, refines.threads] at found
  simp only [Kernel.enterByPriority, PriorityThreadScheduler.enter, getTail,
    PriorityThreadScheduler.Scheduler.priority, refines.data, refines.threads, found]
  cases last : (a.queue .ready).reverse.find? fun u =>
      decide ((a.threads t).effectivePriority ≤ (a.threads u).effectivePriority) with
  | none =>
    rw [last, refines.threads] at moved
    exact ⟨_, rfl, moved⟩
  | some x =>
    rw [last, refines.threads] at moved
    exact ⟨_, rfl, moved⟩

theorem enter (refines : Refines s a) (free : a.CanEnter cfg t) :
    ∃ s', Kernel.enter cfg fuel s t = some s' ∧ Refines s' (a.enter cfg t) := by
  have same : a.setThread t (a.threads t) = a := a.setThread_self t
  cases cfg with
  | roundRobin _ =>
    refine ⟨_, rfl, ?_⟩
    simp only [Queues.enter, SchedulerCfd.entered, SchedulerCfd.sleepsUntil, same]
    exact refines.addTail t .ready
  | rateMonotonic =>
    simp only [Queues.CanEnter, Kernel.enter, Queues.enter, SchedulerCfd.entered,
      SchedulerCfd.sleepsUntil, refines.threads] at free ⊢
    by_cases first : (a.threads t).instanceNumber = 1
    · have computed := refines.setThread t (a.threads t).computePriorityRM
      have time : (a.threads t).computePriorityRM.sleepTime = (a.threads t).sleepTime := rfl
      simp only [first, if_true, true_and, Kernel.setThread, Function.update_self, time] at free ⊢
      by_cases asleep : 0 < (a.threads t).sleepTime
      · simp only [asleep, if_true] at free ⊢
        exact computed.sleep enough free
      · simp only [asleep, if_false] at free ⊢
        exact computed.enterByPriority enough free
    · simp only [first, if_false, false_and, same] at free ⊢
      exact refines.enterByPriority enough free
  | earliestDeadlineFirst =>
    simp only [Queues.CanEnter, Kernel.enter, Queues.enter, SchedulerCfd.entered,
      SchedulerCfd.sleepsUntil, same, refines.threads] at free ⊢
    by_cases fresh : (a.threads t).instanceNumber = 1 ∧ 0 < (a.threads t).arrivalTime
    · simp only [fresh, and_self, if_true] at free ⊢
      exact refines.sleep enough free
    · simp only [fresh, if_false] at free ⊢
      exact refines.enterByPriority enough free

theorem removeAndEnter (refines : Refines s a) (cfg : SchedulerCfd) (t : τ) :
    ∃ s', Kernel.enter cfg fuel { s with heap := removeFromHost s.heap t } t = some s' ∧
      Refines s' (a.enter cfg t) := by
  have absent : ∀ q, t ∉ (a.remove t).queue q := fun q => by simp
  rw [← Queues.enter_remove]
  exact (refines.remove t).enter enough
    (Queues.canEnter_of_notMem cfg _ _ (absent .ready) fun _ => absent .sleep)

end Enter

section Walks

/-- A thread is in one queue only. -/
theorem only_queue (refines : Refines s a) {k : QueueName} (here : t ∈ a.queue q)
    (there : t ∈ a.queue k) : k = q := refines.represents.host_unique there here

/-- The next item on a list, for a loop along it. -/
theorem succ_eq (refines : Refines s a) {kept rest : List τ}
    (split : a.queue q = kept ++ t :: rest) : s.heap.succ t = rest.head? := by
  have chain := refines.represents.chain q
  rw [split] at chain
  rw [chain.succ_of_split, Option.or_none]

theorem headPriority (refines : Refines s a) : s.headPriority = a.headPriority := by
  have first : getHead s.heap .ready = (a.queue .ready).head? := refines.represents.head .ready
  cases head : (a.queue .ready).head? with
  | none => simp [Kernel.headPriority, Queues.headPriority, first, head]
  | some t => simp [Kernel.headPriority, Queues.headPriority, first, head, refines.threads]

theorem isEmpty_eq (refines : Refines s a) (q : QueueName) :
    isEmpty s.heap q = (a.queue q).isEmpty := by
  rw [isEmpty, refines.represents.head]
  cases a.queue q <;> rfl

/-- Before each visit of a walk over the sleep list: the threads to come are the
rest of the list, and they stay awake. -/
def Sleepers (cfg : SchedulerCfd) (currentTime : Nat) (s : Kernel τ) (a : Queues τ)
    (rest : List τ) : Prop :=
  Refines s a ∧ (∃ kept, a.queue .sleep = kept ++ rest) ∧
    ∀ t ∈ rest, (a.threads t).sleepTime ≤ currentTime → Queues.Stays cfg a t

variable {currentTime : Nat} {rest : List τ}

theorem Sleepers.skip (sleepers : Sleepers cfg currentTime s a (t :: rest)) :
    Sleepers cfg currentTime s a rest := by
  obtain ⟨refines, ⟨kept, split⟩, stay⟩ := sleepers
  exact ⟨refines, ⟨kept ++ [t], by simp [split]⟩, fun u member => stay u (.tail _ member)⟩

theorem Sleepers.linked (sleepers : Sleepers cfg currentTime s a (t :: rest)) :
    s.heap.succ t = rest.head? := by
  obtain ⟨refines, ⟨kept, split⟩, _⟩ := sleepers
  exact refines.succ_eq split

variable [DecidableEq τ]

/-- What is left of a list when the thread at hand is moved elsewhere. -/
theorem filter_split (refines : Refines s a) {kept rest : List τ}
    (split : a.queue q = kept ++ t :: rest) : (a.queue q).filter (· ≠ t) = kept ++ rest := by
  have nodup := refines.represents.nodup q
  rw [split] at nodup ⊢
  obtain ⟨fresh, _⟩ := List.nodup_cons.mp (List.nodup_middle.mp nodup)
  have keep : ∀ xs : List τ, t ∉ xs → xs.filter (· ≠ t) = xs := fun xs absent =>
    List.filter_eq_self.mpr fun u member => by
      have : u ≠ t := fun same => absent (same ▸ member)
      simpa using this
  rw [List.filter_append, List.filter_cons_of_neg (by simp), keep kept fun left => fresh (by
    simp [left]), keep rest fun right => fresh (by simp [right])]

theorem awake (refines : Refines s a) (t : τ) : Refines (s.awake t) (a.awake t) := by
  rw [Kernel.awake, Queues.awake, refines.threads]
  exact refines.setThread t _

/-- After a thread woke up the walk goes on with the others. -/
theorem Sleepers.woken {s' : Kernel τ} (sleepers : Sleepers cfg currentTime s a (t :: rest))
    (due : (a.threads t).sleepTime ≤ currentTime)
    (refines' : Refines s' (Queues.enter cfg (a.awake t) t)) :
    Sleepers cfg currentTime s' (Queues.enter cfg (a.awake t) t) rest := by
  obtain ⟨refines, ⟨kept, split⟩, stay⟩ := sleepers
  have stays := stay t (.head _) due
  have entered := Queues.enter_awake cfg (a.awake t) t
    (by simpa [Queues.awake, Queues.Stays] using stays)
  refine ⟨refines', ⟨kept, ?_⟩, fun u member early => ?_⟩
  · rw [entered, Queues.addReady_queue_of_ne _ _ _ _ (by decide)]
    exact refines.filter_split split
  · have other : u ≠ t := by
      rintro rfl
      have nodup := refines.represents.nodup .sleep
      rw [split] at nodup
      exact (List.nodup_cons.mp (List.nodup_append.mp nodup).2.1).1 member
    have same : (Queues.enter cfg (a.awake t) t).threads u = a.threads u := by
      rw [Queues.enter_threads_of_ne cfg _ _ other]
      simp [Queues.awake, other]
    rw [Queues.Stays, same]
    rw [same] at early
    exact stay u (.tail _ member) early

variable [Fintype τ] (enough : Fintype.card τ ≤ fuel)

include enough

/-- A thread on the sleep list can be entered, also while it is still there. -/
theorem Sleepers.enter (sleepers : Sleepers cfg currentTime s a (t :: rest))
    (due : (a.threads t).sleepTime ≤ currentTime) :
    ∃ s', Kernel.enter cfg fuel (s.awake t) t = some s' ∧
      Sleepers cfg currentTime s' (Queues.enter cfg (a.awake t) t) rest := by
  obtain ⟨refines, ⟨kept, split⟩, stay⟩ := sleepers
  have asleep : t ∈ a.queue .sleep := by simp [split]
  have stays : cfg.sleepsUntil ((a.awake t).threads t) = none := by
    simpa [Queues.awake, Queues.Stays] using stay t (.head _) due
  have free : (a.awake t).CanEnter cfg t := Queues.canEnter_of_notMem cfg _ _
    (fun ready => by cases refines.only_queue asleep ready)
    (fun sleeps => by
      rw [stays] at sleeps
      cases sleeps)
  obtain ⟨s', entered, refines'⟩ := (refines.awake t).enter enough free
  exact ⟨s', entered, Sleepers.woken ⟨refines, ⟨kept, split⟩, stay⟩ due refines'⟩

/-- In the rate monotonic scan the thread is removed first. -/
theorem Sleepers.removeAndEnter (sleepers : Sleepers cfg currentTime s a (t :: rest))
    (due : (a.threads t).sleepTime ≤ currentTime) :
    ∃ s', Kernel.enter cfg fuel { s.awake t with heap := removeFromHost s.heap t } t = some s' ∧
      Sleepers cfg currentTime s' (Queues.enter cfg (a.awake t) t) rest := by
  obtain ⟨refines, split, stay⟩ := sleepers
  obtain ⟨s', entered, refines'⟩ := (refines.awake t).removeAndEnter enough cfg t
  exact ⟨s', entered, Sleepers.woken ⟨refines, split, stay⟩ due refines'⟩

theorem visitRoundRobin {rrTimeSlice : Nat} {r : Kernel τ × Nat} {b : Queues τ × Nat}
    (sleepers : Sleepers (.roundRobin rrTimeSlice) currentTime r.1 b.1 (t :: rest)) :
    ∃ r' b', Kernel.visitRoundRobin rrTimeSlice fuel currentTime r t = some (.next r') ∧
      Queues.visitSleeping (.roundRobin rrTimeSlice) currentTime b t = .next b' ∧
      Sleepers (.roundRobin rrTimeSlice) currentTime r'.1 b'.1 rest := by
  have threads := sleepers.1.threads
  rw [Kernel.visitRoundRobin, Queues.visitSleeping, threads]
  by_cases due : (b.1.threads t).sleepTime ≤ currentTime
  · obtain ⟨s', entered, woken⟩ := sleepers.enter enough due
    rw [if_pos due, if_pos due, entered]
    exact ⟨_, _, rfl, rfl, woken⟩
  · rw [if_neg due, if_neg due]
    refine ⟨if (b.1.threads t).sleepTime < r.2 then (r.1, (b.1.threads t).sleepTime) else r, b,
      ?_, rfl, ?_⟩
    · split <;> rfl
    · split <;> exact sleepers.skip

theorem visitEarliestDeadline {b : Queues τ × Nat}
    (sleepers : Sleepers .earliestDeadlineFirst currentTime s b.1 (t :: rest)) :
    ∃ s' b', Kernel.visitEarliestDeadline fuel currentTime s t = some (.next s') ∧
      Queues.visitSleeping .earliestDeadlineFirst currentTime b t = .next b' ∧
      Sleepers .earliestDeadlineFirst currentTime s' b'.1 rest := by
  rw [Kernel.visitEarliestDeadline, Queues.visitSleeping, sleepers.1.threads]
  by_cases due : (b.1.threads t).sleepTime ≤ currentTime
  · obtain ⟨s', entered, woken⟩ := sleepers.enter enough due
    rw [if_pos due, if_pos due, entered]
    exact ⟨_, _, rfl, rfl, woken⟩
  · rw [if_neg due, if_neg due]
    exact ⟨s, b, rfl, rfl, sleepers.skip⟩

/-- While the rate monotonic scan goes on no time to be returned is chosen. -/
theorem visitRateMonotonic {r : Kernel τ × Nat × Nat} {b : Queues τ × Nat}
    (sleepers : Sleepers .rateMonotonic currentTime r.1 b.1 (t :: rest))
    (priority : r.2.1 = b.2) (time : r.2.2 = maxUint8) :
    (∃ r' b', Kernel.visitRateMonotonic fuel currentTime r t = some (.next r') ∧
      Queues.visitSleeping .rateMonotonic currentTime b t = .next b' ∧
      Sleepers .rateMonotonic currentTime r'.1 b'.1 rest ∧ r'.2.1 = b'.2 ∧ r'.2.2 = maxUint8) ∨
    ∃ r' b', Kernel.visitRateMonotonic fuel currentTime r t = some (.stop r') ∧
      Queues.visitSleeping .rateMonotonic currentTime b t = .stop b' ∧ Refines r'.1 b'.1 := by
  rw [Kernel.visitRateMonotonic, Queues.visitSleeping, sleepers.1.threads, priority, time]
  by_cases due : (b.1.threads t).sleepTime ≤ currentTime
  · obtain ⟨s', entered, woken⟩ := sleepers.removeAndEnter enough due
    simp only [due, if_true, entered]
    exact .inl ⟨_, _, rfl, rfl, woken, woken.1.headPriority, rfl⟩
  · simp only [due, if_false]
    by_cases ends : (b.1.threads t).sleepTime ≤ maxUint8 ∧
        b.2 ≤ (b.1.threads t).effectivePriority
    · have stops : Queues.endsScan .rateMonotonic b.1 b.2 t = true := by
        simpa [Queues.endsScan] using ends
      rw [if_pos ends, if_pos stops]
      exact .inr ⟨_, _, rfl, rfl, sleepers.1⟩
    · have goes : ¬Queues.endsScan .rateMonotonic b.1 b.2 t = true := by
        simpa [Queues.endsScan] using ends
      rw [if_neg ends, if_neg goes]
      exact .inl ⟨_, _, rfl, rfl, sleepers.skip, priority, time⟩

/-- The first loop of the earliest deadline first scheduler. -/
theorem wakeSleepers (refines : Refines s a) (wakes : a.Wakes .earliestDeadlineFirst currentTime) :
    ∃ s', walk (fun s t => s.heap.succ t) (Kernel.visitEarliestDeadline fuel currentTime) fuel s
        (getHead s.heap .sleep) = some s' ∧
      Refines s' (a.getNextTimerEvent .earliestDeadlineFirst currentTime) := by
  have walked := walk_refines (Kernel.visitEarliestDeadline fuel currentTime)
    (Queues.visitSleeping .earliestDeadlineFirst currentTime)
    (fun s b is => Sleepers .earliestDeadlineFirst currentTime s b.1 is)
    (fun s (b : Queues τ × Nat) => Refines s b.1)
    (fun _ _ _ _ sleepers => sleepers.linked)
    (fun _ _ _ _ sleepers => .inl (visitEarliestDeadline enough sleepers))
    (fun _ _ sleepers => sleepers.1) (a.queue .sleep) s (a, a.headPriority) fuel
    ⟨refines, ⟨[], rfl⟩, wakes⟩ (refines.length_le enough .sleep)
  rwa [← refines.represents.head .sleep] at walked

omit [DecidableEq τ] in
/-- The second loop finds the earliest of the wake-ups that count. -/
theorem nextEvent (refines : Refines s a) :
    walk (fun _ t => s.heap.succ t) (Kernel.visitSleeping s s.headPriority) fuel maxUint8
      (getHead s.heap .sleep) = some a.nextEvent := by
  have visits : ∀ sleeptime t, Kernel.visitSleeping s s.headPriority sleeptime t =
      some (.next (a.sooner sleeptime t)) := fun sleeptime t => by
    rw [Kernel.visitSleeping, Queues.sooner, refines.threads, refines.headPriority]
    split <;> rfl
  obtain ⟨sleeptime, walked, final⟩ := walk_refines
    (Kernel.visitSleeping s s.headPriority) (fun sleeptime t => .next (a.sooner sleeptime t))
    (fun n m rest => n = m ∧ ∃ kept, a.queue .sleep = kept ++ rest) (· = ·)
    (fun _ _ _ _ ⟨_, _, split⟩ => refines.succ_eq split)
    (fun n m t rest ⟨same, kept, split⟩ => .inl ⟨_, _, visits n t, rfl, by rw [same],
      kept ++ [t], by simp [split]⟩)
    (fun _ _ before => before.1) (a.queue .sleep) maxUint8 maxUint8 fuel ⟨rfl, [], rfl⟩
    (refines.length_le enough .sleep)
  rw [walkList_next] at final
  rw [getHead, refines.represents.head, walked, final, Queues.nextEvent]

/-- The event of the earliest deadline first scheduler and its time. -/
theorem earliestDeadlineEvent (refines : Refines s a)
    (wakes : a.Wakes .earliestDeadlineFirst currentTime) :
    ∃ s', Kernel.getNextTimerEvent .earliestDeadlineFirst fuel s currentTime =
        some (s', (a.getNextTimerEvent .earliestDeadlineFirst currentTime).nextEvent) ∧
      Refines s' (a.getNextTimerEvent .earliestDeadlineFirst currentTime) := by
  rw [Kernel.getNextTimerEvent]
  split
  · rename_i empty
    rw [refines.isEmpty_eq, List.isEmpty_iff] at empty
    have same : a.getNextTimerEvent .earliestDeadlineFirst currentTime = a := by
      rw [Queues.getNextTimerEvent, empty]
      rfl
    have none : a.nextEvent = maxUint8 := by
      rw [Queues.nextEvent, empty]
      rfl
    rw [same, none]
    exact ⟨s, rfl, refines⟩
  · obtain ⟨s', walked, final⟩ := wakeSleepers enough refines wakes
    rw [walked, Option.bind_some, final.nextEvent enough]
    exact ⟨s', rfl, final⟩

/-- The three loops over the sleep list do the same to the threads. -/
theorem getNextTimerEvent (refines : Refines s a) (wakes : a.Wakes cfg currentTime) :
    ∃ event, Kernel.getNextTimerEvent cfg fuel s currentTime = some event ∧
      Refines event.1 (a.getNextTimerEvent cfg currentTime) := by
  have first : Sleepers cfg currentTime s a (a.queue .sleep) := ⟨refines, ⟨[], rfl⟩, wakes⟩
  have few := refines.length_le enough .sleep
  cases cfg with
  | roundRobin rrTimeSlice =>
    obtain ⟨r, walked, final⟩ := walk_refines
      (Kernel.visitRoundRobin rrTimeSlice fuel currentTime)
      (Queues.visitSleeping (.roundRobin rrTimeSlice) currentTime)
      (fun r b is => Sleepers (.roundRobin rrTimeSlice) currentTime r.1 b.1 is)
      (fun r (b : Queues τ × Nat) => Refines r.1 b.1)
      (fun _ _ _ _ sleepers => sleepers.linked)
      (fun _ _ _ _ sleepers => .inl (visitRoundRobin enough sleepers))
      (fun _ _ sleepers => sleepers.1) (a.queue .sleep) (s, 0x0fffffffffffffff)
      (a, a.headPriority) fuel first few
    rw [← refines.represents.head .sleep] at walked
    rw [Kernel.getNextTimerEvent, getHead, walked]
    exact ⟨_, rfl, final⟩
  | rateMonotonic =>
    obtain ⟨r, walked, final⟩ := walk_refines
      (Kernel.visitRateMonotonic fuel currentTime) (Queues.visitSleeping .rateMonotonic currentTime)
      (fun r b is => Sleepers .rateMonotonic currentTime r.1 b.1 is ∧ r.2.1 = b.2 ∧
        r.2.2 = maxUint8)
      (fun r (b : Queues τ × Nat) => Refines r.1 b.1)
      (fun _ _ _ _ before => before.1.linked)
      (fun _ _ _ _ before => visitRateMonotonic enough before.1 before.2.1 before.2.2)
      (fun _ _ before => before.1.1) (a.queue .sleep) (s, s.headPriority, maxUint8)
      (a, a.headPriority) fuel ⟨first, refines.headPriority, rfl⟩ few
    rw [← refines.represents.head .sleep] at walked
    rw [Kernel.getNextTimerEvent, getHead, walked]
    exact ⟨_, rfl, final⟩
  | earliestDeadlineFirst =>
    obtain ⟨s', event, final⟩ := earliestDeadlineEvent enough refines wakes
    exact ⟨_, event, final⟩

end Walks

end Refines

end Orcos.Source
