import Orcos.Source.DispatcherSteps

/-!
What an event leaves alone: a thread that neither runs nor is on a list that the
event works off, and that the event is not addressed to, keeps its data and stays
where it is. A thread on the sleep list is woken by the scan when its time has
come, or left there when the rate monotonic scan ends in front of it.
-/
namespace Orcos.Source.Queues
open Orcos.Lib.Walk

variable {τ : Type}

/-- The thread has the same data and is in the same queues, and does not start to run. -/
structure Untouched (t : τ) (a b : Queues τ) : Prop where
  threads : b.threads t = a.threads t
  queue : ∀ q, t ∈ b.queue q ↔ t ∈ a.queue q
  running : a.running ≠ some t → b.running ≠ some t

namespace Untouched

variable {a b c : Queues τ} {t u : τ} {cfg : SchedulerCfd}

theorem refl (t : τ) (a : Queues τ) : Untouched t a a := ⟨rfl, fun _ => Iff.rfl, id⟩

theorem trans (first : Untouched t a b) (second : Untouched t b c) : Untouched t a c :=
  ⟨second.threads.trans first.threads, fun q => (second.queue q).trans (first.queue q),
    fun idle => second.running (first.running idle)⟩

variable [DecidableEq τ]

section Moves

variable (a) (other : u ≠ t)

include other

theorem setThread (thread : Thread) : Untouched t a (a.setThread u thread) :=
  ⟨by simp [other.symm], fun _ => Iff.rfl, id⟩

theorem remove : Untouched t a (a.remove u) :=
  ⟨rfl, fun q => by simp [other.symm], id⟩

theorem move (q : QueueName) (p : τ → Bool) : Untouched t a (a.move u q p) :=
  ⟨rfl, fun k => by simp [other.symm], id⟩

omit other in
theorem leave : Untouched t a (a.leave u) := by
  refine ⟨by simp, fun q => by simp, fun idle => ?_⟩
  rw [leave_running]
  split
  · simp
  · exact idle

theorem addSleeping : Untouched t a (a.addSleeping u) :=
  (move a other _ _).trans (leave _)

theorem addReady : Untouched t a (a.addReady cfg u) := by
  cases cfg <;> exact move a other _ _

theorem sleep (timePoint : Nat) : Untouched t a (a.sleep u timePoint) :=
  (setThread a other _).trans (addSleeping _ other)

theorem enter : Untouched t a (a.enter cfg u) := by
  cases sleeps : cfg.sleepsUntil (a.threads u) with
  | none =>
    rw [enter_awake cfg a u sleeps]
    exact (setThread a other _).trans (addReady _ other)
  | some timePoint =>
    rw [enter_asleep cfg a u sleeps]
    exact (setThread a other _).trans (sleep _ other timePoint)

theorem wake : Untouched t a (a.wake cfg u) := by
  unfold Queues.wake
  split
  · exact move a other _ _
  · split
    · exact move a other _ _
    · exact enter a other

theorem dispatcherUnblock : Untouched t a (a.dispatcherUnblock cfg u) := by
  unfold Queues.dispatcherUnblock
  split
  · exact move a other _ _
  · exact (remove a other).trans (enter _ other)

theorem dispatcherBlock : Untouched t a (a.dispatcherBlock u) :=
  (move a other _ _).trans (leave _)

theorem computePriority : Untouched t a (a.computePriority cfg u) := by
  cases cfg with
  | roundRobin _ => exact refl t a
  | rateMonotonic => exact setThread a other _
  | earliestDeadlineFirst => exact setThread a other _

theorem unblock : Untouched t a (a.unblock cfg u) := by
  unfold Queues.unblock
  split
  · dsimp only
    split
    · exact setThread a other _
    · exact ((setThread a other _).trans (setThread _ other _)).trans (dispatcherUnblock _ other)
  · exact refl t a

theorem stop : Untouched t a (a.stop u) := by
  unfold Queues.stop
  dsimp only
  split
  · exact setThread a other _
  · exact (setThread a other _).trans (dispatcherBlock _ other)

theorem resume : Untouched t a (a.resume cfg u) := by
  unfold Queues.resume
  dsimp only
  split
  · exact setThread a other _
  · exact ((setThread a other _).trans (setThread _ other _)).trans (dispatcherUnblock _ other)

theorem pushPriority (newPriority m : Nat) :
    Untouched t a (a.pushPriority cfg u newPriority m) := by
  unfold Queues.pushPriority
  split
  dsimp only
  split
  · exact ((setThread a other _).trans (remove _ other)).trans (enter _ other)
  · exact setThread a other _

end Moves

section Loops

variable (cfg a)

/-- A signal for which the thread does not wait. -/
theorem signal {signaltype : SignalType} (absent : t ∉ a.queue signaltype.list) (sig : Nat)
    (sigvalue : Int) : Untouched t a (a.signal cfg signaltype sig sigvalue) := by
  have others : ∀ u ∈ a.queue signaltype.list, u ≠ t := fun u member same =>
    absent (same ▸ member)
  refine (walkList_invariant (fun b rest => (∀ u ∈ rest, u ≠ t) ∧ Untouched t a b) ?_ _ a
    ⟨others, refl t a⟩).2
  rintro b u rest ⟨others, before⟩
  have other : u ≠ t := others u (.head _)
  have later : ∀ v ∈ rest, v ≠ t := fun v member => others v (.tail _ member)
  left
  rw [visitWaiting]
  split
  · have told : Untouched t b (b.signalled u sigvalue) := setThread b other _
    split
    · exact ⟨_, rfl, later, before.trans told⟩
    · exact ⟨_, rfl, later, (before.trans told).trans (wake _ other)⟩
  · exact ⟨b, rfl, later, before⟩

/-- A scan of threads, when the thread is not among them. -/
theorem unvisited {us : List τ} (absent : t ∉ us) (currentTime : Nat) : Untouched t a
    (walkList (visitSleeping cfg currentTime) (a, a.headPriority) us).1 := by
  have others : ∀ u ∈ us, u ≠ t := fun u member same => absent (same ▸ member)
  refine (walkList_invariant (fun b rest => (∀ u ∈ rest, u ≠ t) ∧ Untouched t a b.1) ?_ _
    (a, a.headPriority) ⟨others, refl t a⟩).2
  rintro b u rest ⟨others, before⟩
  have other : u ≠ t := others u (.head _)
  have later : ∀ v ∈ rest, v ≠ t := fun v member => others v (.tail _ member)
  rw [visitSleeping]
  split
  · exact .inl ⟨_, rfl, later, before.trans ((setThread b.1 other _).trans (enter _ other))⟩
  · split
    · exact .inr ⟨b, rfl, by simp, before⟩
    · exact .inl ⟨b, rfl, later, before⟩

theorem getNextTimerEvent (absent : t ∉ a.queue .sleep) (currentTime : Nat) :
    Untouched t a (a.getNextTimerEvent cfg currentTime) := unvisited a cfg absent currentTime

variable {a}

theorem preempt (idle : a.running ≠ some t) : Untouched t a (a.preempt cfg) := by
  unfold Queues.preempt
  split
  case h_1 u running =>
    have other : u ≠ t := fun same => idle (same ▸ running)
    have stopped : Untouched t a { a with running := none } :=
      ⟨rfl, fun _ => Iff.rfl, fun _ none => by cases none⟩
    exact stopped.trans (enter _ other)
  case h_2 => exact refl t a

theorem runNext (absent : t ∉ a.queue .ready) : Untouched t a a.runNext := by
  unfold Queues.runNext
  split
  case h_1 u head =>
    have other : u ≠ t := fun same => absent (same ▸ List.mem_of_mem_head? head)
    have begun : Untouched t (a.remove u)
        { a.remove u with running := some u, dispatching := false } :=
      ⟨rfl, fun _ => Iff.rfl, fun _ same => other (Option.some.inj same)⟩
    exact ((remove a other).trans begun).trans (setThread _ other _)
  case h_2 => exact ⟨rfl, fun _ => Iff.rfl, fun _ none => by cases none⟩

theorem dispatch (idle : a.running ≠ some t) (notReady : t ∉ a.queue .ready)
    (notAsleep : t ∉ a.queue .sleep) (currentTime : Nat) :
    Untouched t a (a.dispatch cfg currentTime) := by
  have preempted := preempt cfg idle
  have scanned := preempted.trans (getNextTimerEvent (a.preempt cfg) cfg
    (fun member => notAsleep ((preempted.queue _).mp member)) currentTime)
  exact scanned.trans (runNext fun member => notReady ((scanned.queue _).mp member))

end Loops

/-- The end of another thread, whose signal the thread does not wait for. -/
theorem terminateThread (a : Queues τ) (other : u ≠ t) (absent : t ∉ a.queue .wait) :
    Untouched t a (a.terminateThread cfg u) := by
  have terminated : Untouched t a (a.realTimeTerminate cfg u) := by
    unfold Queues.realTimeTerminate
    split
    · have renewed : Untouched t a (a.renewed cfg u) :=
        (setThread a other _).trans (computePriority _ other)
      exact renewed.trans (sleep _ other _)
    · have ended : Untouched t a (a.ended u) := (setThread a other _).trans (remove _ other)
      exact ended.trans (signal _ cfg (fun member => absent ((ended.queue _).mp member)) _ _)
  unfold Queues.terminateThread
  dsimp only
  split
  · exact terminated
  · exact (terminated.trans (remove _ other)).trans (leave _)

/-- An operation on another thread that does not end. -/
theorem addressed (a : Queues τ) {event : Kernel.Event τ} (other : u ≠ t)
    (aimed : event.thread = some u) (goesOn : event ≠ .terminateThread u) :
    Untouched t a (a.perform cfg event) := by
  cases event with
  | signal signaltype sig sigvalue => cases aimed
  | dispatch currentTime => cases aimed
  | terminateThread v =>
    obtain rfl : v = u := Option.some.inj aimed
    exact absurd rfl goesOn
  | run v =>
    obtain rfl : v = u := Option.some.inj aimed
    exact (setThread a other _).trans (enter _ other)
  | computePriority v =>
    obtain rfl : v = u := Option.some.inj aimed
    exact computePriority a other
  | sleep v timePoint =>
    obtain rfl : v = u := Option.some.inj aimed
    exact sleep a other timePoint
  | block v =>
    obtain rfl : v = u := Option.some.inj aimed
    exact (setThread a other _).trans (dispatcherBlock _ other)
  | unblock v =>
    obtain rfl : v = u := Option.some.inj aimed
    exact unblock a other
  | stop v =>
    obtain rfl : v = u := Option.some.inj aimed
    exact stop a other
  | resume v =>
    obtain rfl : v = u := Option.some.inj aimed
    exact resume a other
  | sigwait signaltype v sig =>
    obtain rfl : v = u := Option.some.inj aimed
    exact ((setThread a other _).trans (move _ other _ _)).trans (leave _)
  | pushPriority v newPriority m =>
    obtain rfl : v = u := Option.some.inj aimed
    exact pushPriority a other newPriority m
  | popPriority v m =>
    obtain rfl : v = u := Option.some.inj aimed
    exact setThread a other _
  | softTerminate v =>
    obtain rfl : v = u := Option.some.inj aimed
    exact setThread a other _

/-- An event that is not addressed to the thread. -/
theorem perform {event : Kernel.Event τ} (idle : a.running ≠ some t)
    (absent : ∀ q, q ≠ .blocked → t ∉ a.queue q) (addressed : event.thread ≠ some t) :
    Untouched t a (a.perform cfg event) := by
  have other : ∀ u, event.thread = some u → u ≠ t := fun u here same =>
    addressed (same ▸ here)
  cases event with
  | signal signaltype sig sigvalue =>
    exact signal a cfg (absent _ (by cases signaltype <;> decide)) sig sigvalue
  | terminateThread u => exact terminateThread a (other u rfl) (absent .wait (by decide))
  | dispatch currentTime =>
    exact dispatch cfg idle (absent .ready (by decide)) (absent .sleep (by decide)) currentTime
  | _ => exact Untouched.addressed a (other _ rfl) rfl (by simp)

end Untouched

section Scan

variable [DecidableEq τ] {a : Queues τ} {t u : τ} {cfg : SchedulerCfd} {currentTime : Nat}

/-- A thread that wakes and stays awake is in the queue of the scheduler only. -/
theorem mem_woken {q : QueueName} (stays : Stays cfg a t) :
    u ∈ (Queues.enter cfg (a.awake t) t).queue q ↔
      (u = t ∧ q = .ready) ∨ (u ∈ a.queue q ∧ u ≠ t) := by
  rw [enter_awake cfg (a.awake t) t (by simpa [awake, Stays] using stays), mem_addReady]
  rfl

variable (cfg) in
/-- The threads whose time has come are woken one after the other. -/
def wakeDue (currentTime : Nat) (a : Queues τ) (us : List τ) : Queues τ :=
  us.foldl (fun a u =>
    if (a.threads u).sleepTime ≤ currentTime then Queues.enter cfg (a.awake u) u else a) a

theorem wakeDue_singleton : wakeDue cfg currentTime a [u] =
    if (a.threads u).sleepTime ≤ currentTime then Queues.enter cfg (a.awake u) u else a := rfl

theorem wakeDue_append (us vs : List τ) : wakeDue cfg currentTime a (us ++ vs) =
    wakeDue cfg currentTime (wakeDue cfg currentTime a us) vs := List.foldl_append

variable (cfg) in
/-- A thread that sleeps on and at which the scan ends. -/
def Ends (currentTime : Nat) (a : Queues τ) (u : τ) : Prop :=
  currentTime < (a.threads u).sleepTime ∧ endsScan cfg a a.headPriority u = true

/-- When the threads in front of it whose time has come are woken, the scan ends in front of the
thread. -/
def Passed (cfg : SchedulerCfd) (currentTime : Nat) (a : Queues τ) (t : τ) : Prop :=
  ∃ front u back, a.queue .sleep = front ++ u :: back ∧ t ∈ back ∧
    Ends cfg currentTime (wakeDue cfg currentTime a front) u

omit [DecidableEq τ] in
theorem Ends.rateMonotonic (ends : Ends cfg currentTime a u) : cfg = .rateMonotonic := by
  have ends := ends.2
  simp only [endsScan, Bool.and_eq_true, decide_eq_true_eq] at ends
  exact ends.1.1

theorem visitSleeping_ends (ends : Ends cfg currentTime a u) :
    visitSleeping cfg currentTime (a, a.headPriority) u = .stop (a, a.headPriority) := by
  rw [visitSleeping, if_neg (Nat.not_le_of_lt ends.1), if_pos ends.2]

theorem visitSleeping_goesOn (goesOn : ¬Ends cfg currentTime a u) :
    visitSleeping cfg currentTime (a, a.headPriority) u =
      .next (wakeDue cfg currentTime a [u], (wakeDue cfg currentTime a [u]).headPriority) := by
  rw [visitSleeping, wakeDue_singleton]
  by_cases due : (a.threads u).sleepTime ≤ currentTime
  · rw [if_pos due, if_pos due]
  · rw [if_neg due, if_neg due, if_neg fun ends => goesOn ⟨Nat.lt_of_not_le due, ends⟩]

/-- The scan visits no thread behind one at which it ends. -/
theorem Ends.walked {front : List τ}
    (ends : Ends cfg currentTime (wakeDue cfg currentTime a front) u) (back : List τ) :
    ∃ us, (∀ v ∈ us, v ∈ front) ∧
      walkList (visitSleeping cfg currentTime) (a, a.headPriority) (front ++ u :: back) =
        walkList (visitSleeping cfg currentTime) (a, a.headPriority) us := by
  induction front generalizing a with
  | nil =>
    refine ⟨[], by simp, ?_⟩
    rw [wakeDue, List.foldl_nil] at ends
    simp only [List.nil_append, walkList, visitSleeping_ends ends]
  | cons v front ih =>
    rw [List.cons_append, walkList]
    by_cases earlier : Ends cfg currentTime a v
    · refine ⟨[], by simp, ?_⟩
      rw [visitSleeping_ends earlier, walkList]
    · obtain ⟨us, inside, same⟩ := ih (a := wakeDue cfg currentTime a [v]) ends
      refine ⟨v :: us, fun w member => ?_, ?_⟩
      · exact List.mem_cons.mpr ((List.mem_cons.mp member).imp_right (inside w))
      · rw [walkList, visitSleeping_goesOn earlier]
        exact same

/-- A thread that the scan does not get to is left where it is. -/
theorem Passed.untouched (passed : Passed cfg currentTime a t) (nodup : (a.queue .sleep).Nodup) :
    Untouched t a (a.getNextTimerEvent cfg currentTime) := by
  obtain ⟨front, u, back, split, behind, ends⟩ := passed
  rw [split] at nodup
  obtain ⟨us, inside, walked⟩ := ends.walked back
  have absent : t ∉ us := fun member =>
    (List.nodup_append.mp nodup).2.2 t (inside t member) t (.tail _ behind) rfl
  rw [Queues.getNextTimerEvent, split, walked]
  exact Untouched.unvisited a cfg absent currentTime

/-- Before each visit of the scan: the threads to come are as they were, and one
whose time has come is among them, or woken, or the scan is over. -/
structure Scanned (cfg : SchedulerCfd) (currentTime : Nat) (a : Queues τ) (t : τ)
    (b : Queues τ × Nat) (rest : List τ) : Prop where
  nodup : rest.Nodup
  same : ∀ u ∈ rest, u ∈ a.queue .sleep ∧ u ∈ b.1.queue .sleep ∧ b.1.threads u = a.threads u
  walked : rest = [] ∨ ∃ front, a.queue .sleep = front ++ rest ∧
    b = (wakeDue cfg currentTime a front, (wakeDue cfg currentTime a front).headPriority)
  place : t ∈ rest ∨ (t ∈ b.1.queue .ready ∧ t ∉ b.1.queue .sleep) ∨
    (rest = [] ∧ Passed cfg currentTime a t)

theorem Scanned.visit {b : Queues τ × Nat} {rest : List τ}
    (wakes : a.Wakes cfg currentTime) (due : (a.threads t).sleepTime ≤ currentTime)
    (scanned : Scanned cfg currentTime a t b (u :: rest)) :
    (∃ c, visitSleeping cfg currentTime b u = .next c ∧ Scanned cfg currentTime a t c rest) ∨
      ∃ c, visitSleeping cfg currentTime b u = .stop c ∧ Scanned cfg currentTime a t c [] := by
  obtain ⟨nodup, same, walked, place⟩ := scanned
  obtain ⟨fresh, nodup⟩ := List.nodup_cons.mp nodup
  obtain ⟨front, split, rfl⟩ := walked.resolve_left (by simp)
  have others : ∀ v ∈ rest, v ≠ u := fun v member here => fresh (here ▸ member)
  obtain ⟨asleep, there, kept⟩ := same u (.head _)
  have later : ∀ v ∈ rest, v ∈ a.queue .sleep ∧
      v ∈ (wakeDue cfg currentTime a front).queue .sleep ∧
        (wakeDue cfg currentTime a front).threads v = a.threads v := fun v member =>
    same v (.tail _ member)
  have place : t ∈ u :: rest ∨ (t ∈ (wakeDue cfg currentTime a front).queue .ready ∧
      t ∉ (wakeDue cfg currentTime a front).queue .sleep) :=
    place.imp_right fun rest => rest.resolve_right (by simp)
  have ahead : currentTime < (a.threads u).sleepTime → t ∈ u :: rest → t ∈ rest :=
    fun sleeps member => (List.mem_cons.mp member).resolve_left fun here =>
      Nat.not_le_of_lt sleeps (here ▸ due)
  by_cases ends : Ends cfg currentTime (wakeDue cfg currentTime a front) u
  · refine .inr ⟨_, visitSleeping_ends ends, List.nodup_nil, by simp, .inl rfl, ?_⟩
    rcases place with member | woken
    · exact .inr (.inr ⟨rfl, front, u, rest, split, ahead (kept ▸ ends.1) member, ends⟩)
    · exact .inr (.inl woken)
  have onward : rest = [] ∨ ∃ front', a.queue .sleep = front' ++ rest ∧
      (wakeDue cfg currentTime (wakeDue cfg currentTime a front) [u],
        (wakeDue cfg currentTime (wakeDue cfg currentTime a front) [u]).headPriority) =
      (wakeDue cfg currentTime a front', (wakeDue cfg currentTime a front').headPriority) :=
    .inr ⟨front ++ [u], by simp [split], by rw [wakeDue_append]⟩
  refine .inl ⟨_, visitSleeping_goesOn ends, ?_⟩
  by_cases due' : (a.threads u).sleepTime ≤ currentTime
  · have woken : wakeDue cfg currentTime (wakeDue cfg currentTime a front) [u] =
        Queues.enter cfg ((wakeDue cfg currentTime a front).awake u) u := by
      rw [wakeDue_singleton, if_pos (kept ▸ due')]
    have stays : Stays cfg (wakeDue cfg currentTime a front) u := by
      rw [Stays, kept]
      exact wakes u asleep due'
    rw [woken] at onward ⊢
    refine ⟨nodup, fun v member => ⟨(later v member).1, ?_, ?_⟩, onward, ?_⟩
    · rw [mem_woken stays]
      exact .inr ⟨(later v member).2.1, others v member⟩
    · rw [enter_threads_of_ne _ _ _ (others v member), awake, setThread_threads,
        if_neg (others v member), (later v member).2.2]
    · rw [mem_woken stays, mem_woken stays]
      rcases place with member | ⟨ready, awake⟩
      · rcases List.mem_cons.mp member with here | later
        · exact .inr (.inl ⟨.inl ⟨here, rfl⟩, by simp [here]⟩)
        · exact .inl later
      · by_cases here : t = u
        · exact .inr (.inl ⟨.inl ⟨here, rfl⟩, by simp [here]⟩)
        · exact .inr (.inl ⟨.inr ⟨ready, here⟩, by simp [awake]⟩)
  · have slept : wakeDue cfg currentTime (wakeDue cfg currentTime a front) [u] =
        wakeDue cfg currentTime a front := by
      rw [wakeDue_singleton, if_neg (kept ▸ due')]
    rw [slept] at onward ⊢
    refine ⟨nodup, later, onward, ?_⟩
    rcases place with member | woken
    · exact .inl (ahead (Nat.lt_of_not_le due') member)
    · exact .inr (.inl woken)

variable (a) in
/-- A thread whose time has come is woken, unless the scan does not get there. -/
theorem getNextTimerEvent_wakes (nodup : (a.queue .sleep).Nodup)
    (wakes : a.Wakes cfg currentTime) (asleep : t ∈ a.queue .sleep)
    (due : (a.threads t).sleepTime ≤ currentTime) :
    (t ∈ (a.getNextTimerEvent cfg currentTime).queue .ready ∧
      t ∉ (a.getNextTimerEvent cfg currentTime).queue .sleep) ∨ Passed cfg currentTime a t := by
  have last : Scanned cfg currentTime a t (walkList (visitSleeping cfg currentTime)
      (a, a.headPriority) (a.queue .sleep)) [] :=
    walkList_invariant _ (fun _ _ _ scanned => scanned.visit wakes due) _ _
      ⟨nodup, fun u member => ⟨member, member, rfl⟩, .inr ⟨[], rfl, rfl⟩, .inl asleep⟩
  rcases last.place with none | woken | ⟨_, passed⟩
  · cases none
  · exact .inl woken
  · exact .inr passed

end Scan

end Orcos.Source.Queues
