import Orcos.Guarantees.KernelWorkers

/-!
# Periodic jobs

Source: src/source/process/RealTimeThread.cc, the constructor and `terminate`; KernelTask.cc,
`getPeriodicThread`; KernelThread.cc, `work`; the `enter`, `computePriority` and
`getNextTimerEvent` of the schedulers.

A real-time thread counts its arrival time on by its period, whenever its jobs end. A worker thread
counts on from the time at which it was asked for and not from its first release, so that the
offset is lost with the second job; and it has no deadline.
-/
namespace Orcos.Guarantees.PeriodicJobs
open Lib.Runs Source Source.KernelTask KernelWorkers

section Specification

/-- What a real-time thread is created with; the clock shows `currentCycles` then. -/
structure Creation where
  cyclesPerMicrosecond : Nat
  currentCycles : Nat
  owner : Nat
  attr : ThreadAttr

namespace Creation

variable (c : Creation)

/-- `RealTimeThread::RealTimeThread`. -/
def thread (cfg : SchedulerCfd) : Thread :=
  computePriority cfg (Thread.create c.cyclesPerMicrosecond c.currentCycles c.owner (some c.attr))

def arrivalTime : Nat := max c.attr.arrivaltime c.currentCycles

def period : Nat := c.attr.period * c.cyclesPerMicrosecond

def relativeDeadline : Nat := c.attr.deadline * c.cyclesPerMicrosecond

/-- When job `k` is due. -/
def due (k : Nat) : Nat := c.arrivalTime + k * c.period

/-- The deadline fits, and is not dropped by the scheduler. -/
def HasDeadline (cfg : SchedulerCfd) : Prop :=
  c.arrivalTime + c.relativeDeadline < 2 ^ 64 ∧
    (cfg = .earliestDeadlineFirst → c.relativeDeadline = 0 → c.attr.priority ≠ cDefaultPriority)

end Creation

/-- When the instance of a periodic request is due. -/
def dueTime (schedule : Schedule) : Nat :=
  schedule.start + schedule.offset + schedule.instanceNumber * schedule.period

variable {τ γ : Type} [DecidableEq τ]

/-- The kernel task with the record of its requests, and how many jobs of each real-time thread
have ended. -/
structure Run (τ γ : Type) where
  task : KernelTask τ γ
  record : Record τ γ
  jobs : τ → Nat

/-- A periodic thread that terminates goes on with its next job. -/
def jobsAfter (worker : τ → Bool) (s : KernelTask τ γ) (jobs : τ → Nat) : Op τ γ → τ → Nat
  | .thread (.terminateThread t) =>
    if !worker t && Queues.renews (s.kernel.threads t) then Function.update jobs t (jobs t + 1)
    else jobs
  | _ => jobs

def step (cfg : SchedulerCfd) (fuel : Nat) (worker : τ → Bool) (q : Run τ γ) (op : Op τ γ) :
    Option (Run τ γ) :=
  (KernelWorkers.step cfg fuel worker (q.task, q.record) op).map fun p => ⟨p.1, p.2,
    if q.task.kernel.dispatching && op.waits then q.jobs else jobsAfter worker q.task q.jobs op⟩

def start (cfg : SchedulerCfd) (creations : τ → Creation) (workers : List τ) : Run τ γ :=
  let p := KernelWorkers.start cfg (fun t => (creations t).thread cfg) workers
  ⟨p.1, p.2, fun _ => 0⟩

/-- A job is released when it is due, and not dispatched before. -/
def Timely (s : KernelTask τ γ) (t : τ) (release due : Nat) : Prop :=
  release = due ∧ (s.kernel.running = some t → due ≤ s.clockCycles)

/-- The absolute deadline is the release time plus the relative deadline. -/
def DeadlineSet (s : KernelTask τ γ) (t : τ) (due : Nat) : Prop :=
  (s.kernel.threads t).absoluteDeadline = due + (s.kernel.threads t).relativeDeadline

/-- The time of the next instance fits. -/
def NextFits (s : KernelTask τ γ) (t : τ) : Prop :=
  match s.job t with
  | .periodicFunctionCall call => call.functioncall.time + call.period < 2 ^ 64
  | _ => True

/-- An event of the kernel leaves a thread to its release time, and the times of its next job fit
when it ends one. -/
def Gentle [Fintype τ] (cfg : SchedulerCfd) (s : KernelTask τ γ) (t : τ) :
    Kernel.Event τ → Prop
  | .terminateThread u => u = t → (s.kernel.threads t).arrivalTime + (s.kernel.threads t).period +
      (s.kernel.threads t).relativeDeadline < 2 ^ 64
  | event => s.clockCycles < (s.kernel.threads t).arrivalTime →
    s.kernel.view.Allows cfg (s.kernel.threads t).arrivalTime t event

/-- Times fit; no operation addresses a thread before it is created; and no periodic thread that
is to wait for its release enters the scheduler's queue, or sleeps, for a shorter time. -/
def Proper [Fintype τ] (cfg : SchedulerCfd) (worker : τ → Bool) (creations : τ → Creation)
    (s : KernelTask τ γ) : Op τ γ → Prop
  | .finish => ∀ t, s.kernel.running = some t → worker t = true → NextFits s t
  | .thread event => event.isDispatch = false → ∀ t, worker t = false → 0 < (creations t).period →
    (event.thread = some t → (creations t).currentCycles ≤ s.clockCycles) ∧ Gentle cfg s t event
  | _ => True

def Orderly [Fintype τ] (cfg : SchedulerCfd) (worker : τ → Bool) (creations : τ → Creation)
    (q : Run τ γ) (op : Op τ γ) : Prop :=
  KernelWorkers.Orderly cfg worker (q.task, q.record) op ∧
    ((q.task.kernel.dispatching && op.waits) = false → Proper cfg worker creations q.task op)

end Specification

section Threads

variable {τ : Type} {a b : Queues τ} {t : τ} {cfg : SchedulerCfd} {c : Creation} {clock k : Nat}

/-- The members of a periodic thread at job `k`. -/
structure Members (cfg : SchedulerCfd) (c : Creation) (k : Nat) (thread : Thread) : Prop where
  arrivalTime : thread.arrivalTime = c.due k
  period : thread.period = c.period
  relativeDeadline : thread.relativeDeadline = c.relativeDeadline
  absoluteDeadline : c.HasDeadline cfg → c.due k + c.relativeDeadline < 2 ^ 64 ∧
    thread.absoluteDeadline = c.due k + c.relativeDeadline
  priority : c.HasDeadline cfg → cfg = .earliestDeadlineFirst → c.relativeDeadline = 0 →
    thread.priority.initialPriority ≠ cDefaultPriority

/-- Before it is created a thread is nowhere; then it is held back until its release. -/
structure Punctual (c : Creation) (clock release : Nat) (a : Queues τ) (t : τ) : Prop where
  uncreated : clock < c.currentCycles → a.running ≠ some t ∧ (∀ q, t ∉ a.queue q) ∧
    (c.currentCycles < release → release ≤ (a.threads t).sleepTime)
  held : c.currentCycles ≤ clock → clock < release → Queues.Held release t a

theorem Members.edf {thread : Thread} (members : Members .earliestDeadlineFirst c k thread) :
    Members .earliestDeadlineFirst c k thread.computePriorityEDF := by
  have relative := members.relativeDeadline
  unfold Thread.computePriorityEDF
  split
  case isTrue deadline =>
    rw [relative] at deadline
    refine ⟨members.arrivalTime, members.period, relative, fun has => ?_, fun _ _ none => ?_⟩
    · obtain ⟨fits, _⟩ := members.absoluteDeadline has
      refine ⟨fits, ?_⟩
      dsimp only
      rw [members.arrivalTime, relative, Nat.mod_eq_of_lt fits]
    · exact absurd none deadline
  case isFalse deadline =>
    split
    case isTrue default =>
      have none : c.relativeDeadline = 0 := by
        rw [← relative]
        exact not_not.mp deadline
      refine ⟨members.arrivalTime, members.period, relative, fun has => ?_, fun has same _ => ?_⟩
      · exact absurd default (members.priority has rfl none)
      · exact absurd default (members.priority has same none)
    case isFalse => exact members

theorem lasting_members (cfg : SchedulerCfd) (c : Creation) (k : Nat) :
    Queues.Lasting cfg (Members cfg c k) where
  status _ _ _ m := ⟨m.arrivalTime, m.period, m.relativeDeadline, m.absoluteDeadline, m.priority⟩
  sleepTime _ _ m := ⟨m.arrivalTime, m.period, m.relativeDeadline, m.absoluteDeadline, m.priority⟩
  signal _ _ _ m := ⟨m.arrivalTime, m.period, m.relativeDeadline, m.absoluteDeadline, m.priority⟩
  priority _ _ same m := ⟨m.arrivalTime, m.period, m.relativeDeadline, m.absoluteDeadline,
    fun has edf none => by
      dsimp only
      rw [same]
      exact m.priority has edf none⟩
  computedRM rm _ m := ⟨m.arrivalTime, m.period, m.relativeDeadline, m.absoluteDeadline,
    fun _ edf _ => by cases rm.symm.trans edf⟩
  computedEDF edf _ m := by
    subst edf
    exact m.edf

/-- A thread as it is created. -/
theorem members_created (cfg : SchedulerCfd) (c : Creation) : Members cfg c 0 (c.thread cfg) := by
  have created : Members cfg c 0 (Thread.create c.cyclesPerMicrosecond c.currentCycles c.owner
      (some c.attr)) := by
    refine ⟨?_, rfl, rfl, fun has => ?_, fun has edf none => has.2 edf none⟩
    · simp [Creation.due, Creation.arrivalTime, Thread.create]
    · have fits := has.1
      rw [Creation.due, Nat.zero_mul, Nat.add_zero]
      exact ⟨fits, Nat.mod_eq_of_lt fits⟩
  unfold Creation.thread computePriority
  split
  · exact created
  · exact (lasting_members .rateMonotonic c 0).computedRM rfl _ created
  · exact created.edf

theorem created_sleepTime (cfg : SchedulerCfd) (c : Creation)
    (future : c.currentCycles < c.arrivalTime) :
    (c.thread cfg).sleepTime = c.arrivalTime := by
  have later : c.currentCycles < c.attr.arrivaltime := by
    rcases lt_max_iff.mp future with later | never
    · exact later
    · exact absurd never (Nat.lt_irrefl _)
  have time : (Thread.create c.cyclesPerMicrosecond c.currentCycles c.owner
    (some c.attr)).sleepTime =
      c.arrivalTime := by
    rw [Creation.arrivalTime, max_eq_left later.le, Thread.create]
    exact if_pos later
  unfold Creation.thread computePriority
  split
  · exact time
  · exact time
  · unfold Thread.computePriorityEDF
    split
    · exact time
    · split
      · exact time
      · exact time

theorem Punctual.untouched {release : Nat} (punctual : Punctual c clock release a t)
    (untouched : Queues.Untouched t a b) : Punctual c clock release b t := by
  refine ⟨fun early => ?_, fun created early => (punctual.held created early).untouched untouched⟩
  obtain ⟨idle, absent, late⟩ := punctual.uncreated early
  refine ⟨untouched.running idle, fun q member => absent q ((untouched.queue q).mp member), ?_⟩
  rw [untouched.threads]
  exact late

/-- Time passes. -/
theorem Punctual.later {release clock' : Nat} (punctual : Punctual c clock release a t)
    (later : clock ≤ clock') : Punctual c clock' release a t := by
  refine ⟨fun early => punctual.uncreated (later.trans_lt early), fun created early => ?_⟩
  by_cases before : clock < c.currentCycles
  · obtain ⟨idle, absent, late⟩ := punctual.uncreated before
    exact ⟨idle, absent .ready, late (created.trans_lt early)⟩
  · exact punctual.held (Nat.not_lt.mp before) (later.trans_lt early)

/-- A real-time thread that runs has been released. -/
theorem Punctual.released {release : Nat} (punctual : Punctual c clock release a t)
    (runs : a.running = some t) : release ≤ clock := by
  by_contra early
  by_cases before : clock < c.currentCycles
  · exact (punctual.uncreated before).1 runs
  · exact (punctual.held (Nat.not_lt.mp before) (Nat.not_le.mp early)).running runs

variable [DecidableEq τ]

theorem Punctual.dispatch {release : Nat} (punctual : Punctual c clock release a t) :
    Punctual c clock release (a.dispatch cfg clock) t := by
  refine ⟨fun early => ?_, fun created early => (punctual.held created early).dispatch early⟩
  obtain ⟨idle, absent, late⟩ := punctual.uncreated early
  have untouched : Queues.Untouched t a (a.dispatch cfg clock) :=
    Queues.Untouched.dispatch cfg idle (absent .ready) (absent .sleep) clock
  refine ⟨untouched.running idle, fun q member => absent q ((untouched.queue q).mp member), ?_⟩
  rw [untouched.threads]
  exact late

/-- An event that does not end the job. -/
theorem Punctual.perform {release : Nat} (punctual : Punctual c clock release a t)
    {event : Kernel.Event τ} (created : event.thread = some t → c.currentCycles ≤ clock)
    (allowed : clock < release → Queues.Allows cfg release t a event) :
    Punctual c clock release (a.perform cfg event) t := by
  refine ⟨fun early => ?_, fun _ early => ?_⟩
  · obtain ⟨idle, absent, late⟩ := punctual.uncreated early
    have untouched : Queues.Untouched t a (a.perform cfg event) :=
      Queues.Untouched.perform idle (fun q _ => absent q)
        fun addressed => absurd (created addressed) (Nat.not_le.mpr early)
    refine ⟨untouched.running idle, fun q member => absent q ((untouched.queue q).mp member), ?_⟩
    rw [untouched.threads]
    exact late
  · rename_i there
    exact (punctual.held there early).perform (Nat.zero_lt_of_lt early) (allowed early)

/-- The members for the next job. -/
theorem Members.renew {thread : Thread} (members : Members cfg c k thread)
    (fits : thread.arrivalTime + thread.period + thread.relativeDeadline < 2 ^ 64) :
    Members cfg c (k + 1) thread.renew := by
  have next : c.due (k + 1) = thread.arrivalTime + thread.period := by
    rw [members.arrivalTime, members.period, Creation.due, Creation.due, Nat.succ_mul,
      Nat.add_assoc]
  have time : thread.renew.arrivalTime = c.due (k + 1) := by
    rw [next, Thread.renew]
    exact Nat.mod_eq_of_lt (by omega)
  have small : c.due (k + 1) + c.relativeDeadline < 2 ^ 64 := by
    rw [next, ← members.relativeDeadline]
    exact fits
  refine ⟨time, members.period, members.relativeDeadline, fun _ => ⟨small, ?_⟩, members.priority⟩
  have deadline : thread.renew.absoluteDeadline =
      (thread.renew.arrivalTime + thread.relativeDeadline) % 2 ^ 64 := rfl
  rw [deadline, time, members.relativeDeadline]
  exact Nat.mod_eq_of_lt small

/-- The end of a job, or of the thread. -/
theorem terminated (members : Members cfg c k (a.threads t))
    (punctual : Punctual c clock (c.due k) a t) (created : c.currentCycles ≤ clock)
    (fits : (a.threads t).arrivalTime + (a.threads t).period + (a.threads t).relativeDeadline <
      2 ^ 64) :
    Members cfg c (if Queues.renews (a.threads t) then k + 1 else k)
        ((a.terminateThread cfg t).threads t) ∧
      Punctual c clock (c.due (if Queues.renews (a.threads t) then k + 1 else k))
        (a.terminateThread cfg t) t := by
  have ended : Members cfg c (if Queues.renews (a.threads t) then k + 1 else k)
        ((a.realTimeTerminate cfg t).threads t) ∧
      (clock < c.due (if Queues.renews (a.threads t) then k + 1 else k) →
        Queues.Held (c.due (if Queues.renews (a.threads t) then k + 1 else k)) t
          (a.realTimeTerminate cfg t)) := by
    unfold Queues.realTimeTerminate
    split
    case isTrue =>
      have renewed : Members cfg c (k + 1) ((a.renewed cfg t).threads t) := by
        apply Queues.Keeps.computePriority _ (lasting_members cfg c (k + 1))
        rw [Queues.setThread_threads, if_pos rfl]
        exact members.renew fits
      refine ⟨Queues.Keeps.sleep _ (lasting_members cfg c (k + 1)) _ renewed, fun _ => ?_⟩
      rw [← renewed.arrivalTime]
      exact sleep_held _ t _
    case isFalse =>
      have cleared : Members cfg c k ((a.ended t).threads t) := by
        rw [Queues.ended, Queues.remove_threads, Queues.setThread_threads, if_pos rfl]
        exact ⟨members.arrivalTime, members.period, members.relativeDeadline,
          members.absoluteDeadline, members.priority⟩
      refine ⟨Queues.Keeps.signal _ (lasting_members cfg c k) _ _ _ cleared, fun early => ?_⟩
      have held : Queues.Held (c.due k) t (a.ended t) :=
        ((punctual.held created early).setSame (by rfl)).remove
      exact held.signal (Nat.zero_lt_of_lt early) _ _ _
  generalize (if Queues.renews (a.threads t) then k + 1 else k) = n at ended ⊢
  unfold Queues.terminateThread
  dsimp only
  split
  · exact ⟨ended.1, fun early => absurd created (Nat.not_le.mpr early), fun _ => ended.2⟩
  · refine ⟨?_, fun early => absurd created (Nat.not_le.mpr early), fun _ early => ?_⟩
    · rw [Queues.dispatcherTerminateThread, Queues.leave_threads, Queues.remove_threads]
      exact ended.1
    · exact (ended.2 early).remove.leave

end Threads

section Runs

variable {τ γ : Type} [DecidableEq τ] {workers : List τ} {creations : τ → Creation} {q q' : Run τ γ}
  {a b : Queues τ} {cfg : SchedulerCfd} {t : τ}

/-- What holds of the real-time threads. -/
def OnTime (cfg : SchedulerCfd) (workers : List τ) (creations : τ → Creation) (clock : Nat)
    (jobs : τ → Nat) (a : Queues τ) : Prop :=
  ∀ t, t ∉ workers → 0 < (creations t).period →
    Members cfg (creations t) (jobs t) (a.threads t) ∧
      Punctual (creations t) clock ((creations t).due (jobs t)) a t

/-- The numbers in the periodic requests fit. -/
def Fitting (workers : List τ) (record : Record τ γ) : Prop :=
  ∀ t ∈ workers, ∀ pid obj param schedule,
    record.asked t = some (.periodic pid obj param schedule) →
      schedule.start + schedule.instanceNumber * schedule.period < 2 ^ 64

/-- What holds after every orderly run. -/
structure Sound (cfg : SchedulerCfd) (workers : List τ) (creations : τ → Creation) (q : Run τ γ)
    (a : Queues τ) : Prop where
  sound : KernelWorkers.Sound workers (q.task, q.record) a
  onTime : OnTime cfg workers creations q.task.clockCycles q.jobs a
  fitting : Fitting workers q.record

omit [DecidableEq τ] in
theorem OnTime.aside {clock clock' : Nat} {jobs : τ → Nat}
    (onTime : OnTime cfg workers creations clock jobs a) (aside : Aside workers a b)
    (later : clock ≤ clock') : OnTime cfg workers creations clock' jobs b := by
  intro t user periodic
  obtain ⟨members, punctual⟩ := onTime t user periodic
  refine ⟨?_, (punctual.untouched (aside t user)).later later⟩
  rw [(aside t user).threads]
  exact members

theorem OnTime.dispatch {clock : Nat} {jobs : τ → Nat}
    (onTime : OnTime cfg workers creations clock jobs a) :
    OnTime cfg workers creations clock jobs (a.dispatch cfg clock) := by
  intro t user periodic
  obtain ⟨members, punctual⟩ := onTime t user periodic
  refine ⟨?_, punctual.dispatch⟩
  apply Queues.Keeps.dispatch a (lasting_members cfg _ _) clock _ members
  intro thread n m
  exact ⟨m.arrivalTime, m.period, m.relativeDeadline, m.absoluteDeadline, m.priority⟩

variable [Fintype τ]

/-- An event that a worker thread or another thread is addressed to, or this one. -/
theorem OnTime.thread {s : KernelTask τ γ} {jobs : τ → Nat} {event : Kernel.Event τ}
    (refines : Refines s.kernel a) (onTime : OnTime cfg workers creations s.clockCycles jobs a)
    (other : event.isDispatch = false)
    (proper : Proper cfg (fun t => decide (t ∈ workers)) creations s (.thread event)) :
    OnTime cfg workers creations s.clockCycles
      (jobsAfter (fun t => decide (t ∈ workers)) s jobs (.thread event)) (a.perform cfg event) := by
  intro t user periodic
  obtain ⟨members, punctual⟩ := onTime t user periodic
  obtain ⟨created, gentle⟩ := proper other t (decide_eq_false user) periodic
  have due := members.arrivalTime
  rw [← refines.thread t] at due
  by_cases ends : event = .terminateThread t
  · subst ends
    have fits := gentle rfl
    rw [refines.thread t] at fits
    have job : jobsAfter (fun t => decide (t ∈ workers)) s jobs (.thread (.terminateThread t)) t =
        if Queues.renews (a.threads t) then jobs t + 1 else jobs t := by
      rw [jobsAfter, refines.thread t]
      cases Queues.renews (a.threads t) with
      | true => simp [user]
      | false => simp
    rw [job]
    exact terminated members punctual (created rfl) fits
  · have job : jobsAfter (fun t => decide (t ∈ workers)) s jobs (.thread event) t = jobs t := by
      cases event with
      | terminateThread u =>
        have away : t ≠ u := fun here => ends (here ▸ rfl)
        rw [jobsAfter]
        split
        · exact Function.update_of_ne away ..
        · rfl
      | _ => rfl
    rw [job]
    refine ⟨Queues.Keeps.perform a (lasting_members cfg _ _) ends other members, ?_⟩
    apply punctual.perform created
    intro early
    rw [← due] at early ⊢
    have allowed : s.kernel.view.Allows cfg (s.kernel.threads t).arrivalTime t event := by
      cases event with
      | terminateThread u => exact fun same => ends (same ▸ rfl)
      | _ => exact gentle early
    rw [refines.view_eq] at allowed
    exact allowed

omit [Fintype τ] in
theorem assign_asked (r : Record τ γ) (head : Option τ) (request : Request γ) (release : Nat) :
    (r.assign head request release).asked t =
      if head = some t then some request else r.asked t := by
  unfold Record.assign
  cases head with
  | none => rfl
  | some u =>
    dsimp only
    rw [Function.update_apply]
    simp only [Option.some.injEq, eq_comm]

omit [Fintype τ] in
/-- Another request does not change the numbers of the periodic ones. -/
theorem Fitting.assign {r : Record τ γ} (fitting : Fitting workers r) {head : Option τ}
    {request : Request γ} (release : Nat)
    (fits : ∀ t, head = some t → ∀ pid obj param schedule,
      request = .periodic pid obj param schedule →
        schedule.start + schedule.instanceNumber * schedule.period < 2 ^ 64) :
    Fitting workers (r.assign head request release) := by
  intro t worker pid obj param schedule asked
  rw [assign_asked] at asked
  split at asked
  case isTrue first => exact fits t first pid obj param schedule (Option.some.inj asked)
  case isFalse => exact fitting t worker pid obj param schedule asked

omit [Fintype τ] in
theorem Fitting.clear {r : Record τ γ} (fitting : Fitting workers r) (u : τ) :
    Fitting workers (r.clear u) := by
  intro t worker pid obj param schedule asked
  unfold Record.clear at asked
  dsimp only at asked
  rw [Function.update_apply] at asked
  split at asked
  · cases asked
  · exact fitting t worker pid obj param schedule asked

omit [Fintype τ] in
/-- The next instance. -/
theorem Fitting.finish {s s' : KernelTask τ γ} {r : Record τ γ} {u : τ}
    (fitting : Fitting workers r)
    (worker : u ∈ workers) (next : NextFits s u)
    (carries : ∀ request, r.asked u = some request → Carries s u request) :
    Fitting workers (r.finish s' u) := by
  unfold Record.finish
  split
  case h_1 => exact fitting.clear u
  case h_2 pid obj param schedule asked =>
    intro t listed pid' obj' param' schedule' given
    dsimp only at given
    rw [Function.update_apply] at given
    split at given
    · cases given
      have before := fitting u worker pid obj param schedule asked
      rw [NextFits, (carries _ asked).2] at next
      dsimp only at next ⊢
      rw [Nat.mod_eq_of_lt before] at next
      rw [Nat.succ_mul, ← Nat.add_assoc]
      exact next
    · exact fitting t listed pid' obj' param' schedule' given
  case h_3 => exact fitting

/-- Each operation. -/
theorem Fitting.after {s s' : KernelTask τ γ} {r : Record τ γ} (fitting : Fitting workers r)
    {op : Op τ γ} (orderly : KernelWorkers.Proper cfg (fun t => decide (t ∈ workers)) s op)
    (proper : Proper cfg (fun t => decide (t ∈ workers)) creations s op)
    (carries : ∀ t ∈ workers, ∀ request, r.asked t = some request → Carries s t request) :
    Fitting workers (recordAfter (fun t => decide (t ∈ workers)) s s' r op) := by
  cases op with
  | tick cycles => exact fitting
  | getPeriodicThread pid obj offset period priority param =>
    apply fitting.assign
    intro t first _ _ _ schedule same
    cases same
    have small := (orderly t first).2
    dsimp only
    omega
  | getCallbackThread pid obj delay priority param =>
    apply fitting.assign
    intro _ _ _ _ _ _ same
    cases same
  | getIRQThread pid driver irq priority =>
    apply fitting.assign
    intro _ _ _ _ _ _ same
    cases same
  | stop u =>
    unfold recordAfter
    dsimp only
    split
    · exact fitting.clear u
    · exact fitting
  | finish =>
    unfold recordAfter
    dsimp only
    split
    case h_1 u running =>
      split
      case isTrue worker =>
        have listed := of_decide_eq_true worker
        exact fitting.finish listed (proper u running worker) (carries u listed)
      case isFalse => exact fitting
    case h_2 => exact fitting
  | interrupt u => exact fitting
  | dispatch =>
    intro t worker pid obj param schedule asked
    unfold recordAfter at asked
    dsimp only at asked
    rw [(dispatch_fields r s s').1] at asked
    exact fitting t worker pid obj param schedule asked
  | thread event => exact fitting

/-- Each orderly step succeeds and keeps what was sound. -/
theorem Sound.step (cfg : SchedulerCfd) (sound : Sound cfg workers creations q a) {op : Op τ γ}
    (orderly : Orderly cfg (fun t => decide (t ∈ workers)) creations q op) :
    ∃ q', step cfg (Fintype.card τ) (fun t => decide (t ∈ workers)) q op = some q' ∧
      ∃ b, Sound cfg workers creations q' b := by
  obtain ⟨p, stepped, b, after, change⟩ := sound.sound.step cfg orderly.1
  rw [PeriodicJobs.step, stepped]
  obtain ⟨s', performed, rfl⟩ := Option.map_eq_some_iff.mp stepped
  rw [KernelTask.step] at performed
  dsimp only at performed change
  have proper := orderly.2
  have carries : ∀ t ∈ workers, ∀ request, q.record.asked t = some request →
      Carries q.task t request := fun t listed request asked =>
    ((sound.sound.fits t listed).busy request asked).carries
  refine ⟨_, rfl, b, after, ?_, ?_⟩
  · dsimp only
    cases waits : q.task.kernel.dispatching && op.waits with
    | true =>
      rw [waits] at performed change
      cases performed
      cases change
      exact sound.onTime
    | false =>
      rw [waits] at performed change
      have later := perform_clock performed
      have still : Aside workers b b := fun t _ => Queues.Untouched.refl t b
      cases op with
      | dispatch =>
        cases change
        exact sound.onTime.dispatch.aside still later
      | thread event =>
        have change : b = if event.isDispatch then a else a.perform cfg event := change
        cases other : event.isDispatch with
        | true =>
          rw [other] at change
          cases change
          cases event with
          | dispatch => exact sound.onTime.aside still later
          | _ => cases other
        | false =>
          rw [other] at change
          cases change
          exact (sound.onTime.thread sound.sound.refines other (proper waits)).aside still later
      | _ => exact sound.onTime.aside change later
  · dsimp only
    cases waits : q.task.kernel.dispatching && op.waits with
    | true => exact sound.fitting
    | false => exact sound.fitting.after (orderly.1 waits) (proper waits) carries

omit [Fintype τ] in
theorem sound_start (cfg : SchedulerCfd) (creations : τ → Creation) (distinct : workers.Nodup) :
    ∃ b, Sound cfg workers creations (start cfg creations workers : Run τ γ) b := by
  obtain ⟨b, sound, aside⟩ : ∃ b, KernelWorkers.Sound workers
      (KernelWorkers.start cfg (fun t => (creations t).thread cfg) workers :
        KernelTask τ γ × Record τ γ) b ∧
      Aside workers (Queues.start fun t => (creations t).thread cfg) b :=
    KernelWorkers.sound_start cfg _ distinct
  refine ⟨b, sound, OnTime.aside ?_ aside (Nat.zero_le _), fun _ _ _ _ _ _ => nofun⟩
  intro t _ _
  have first : (creations t).due 0 = (creations t).arrivalTime := by
    rw [Creation.due, Nat.zero_mul, Nat.add_zero]
  have none : (start cfg creations workers : Run τ γ).jobs t = 0 := rfl
  refine ⟨members_created cfg (creations t), ?_⟩
  rw [none, first]
  refine ⟨fun _ => ⟨nofun, fun _ => List.not_mem_nil, ?_⟩, ?_⟩
  · exact fun future => (created_sleepTime cfg _ future).ge
  · exact fun created early => ⟨nofun, List.not_mem_nil,
      (created_sleepTime cfg _ (created.trans_lt early)).ge⟩

omit [DecidableEq τ] [Fintype τ] in
theorem Sound.threads (sound : Sound cfg workers creations q a) (user : t ∉ workers)
    (periodic : 0 < (creations t).period) :
    Timely q.task t (q.task.kernel.threads t).arrivalTime ((creations t).due (q.jobs t)) ∧
      ((creations t).HasDeadline cfg → DeadlineSet q.task t ((creations t).due (q.jobs t))) := by
  obtain ⟨members, punctual⟩ := sound.onTime t user periodic
  have refines := sound.sound.refines
  rw [Timely, DeadlineSet, refines.thread t, refines.running]
  refine ⟨⟨members.arrivalTime, punctual.released⟩, fun has => ?_⟩
  rw [members.relativeDeadline]
  exact (members.absoluteDeadline has).2

omit [DecidableEq τ] [Fintype τ] in
/-- The release time of a worker thread, which lost its offset after the first instance. -/
theorem Sound.release (sound : Sound cfg workers creations q a) (worker : t ∈ workers)
    {pid : Nat} {obj param : γ} {schedule : Schedule}
    (asked : q.record.asked t = some (.periodic pid obj param schedule)) :
    q.record.release t = dueTime schedule ↔ schedule.instanceNumber = 0 ∨ schedule.offset = 0 := by
  have released := ((sound.sound.fits t worker).busy _ asked).released
  have fits := sound.fitting t worker pid obj param schedule asked
  rw [Released, Nat.mod_eq_of_lt fits] at released
  rw [released, dueTime]
  split
  case isTrue first =>
    rw [first, Nat.zero_mul, Nat.add_zero]
    exact ⟨fun _ => .inl rfl, fun _ => rfl⟩
  case isFalse later => omega

/-- In every run whose steps are orderly each job of a real-time thread is released when it is due,
has its deadline and is not dispatched before. An instance of a worker thread is released when it
is due if it is the first one, or if there is no offset; and its deadline is right at time 0. -/
theorem jobs_released (cfg : SchedulerCfd) (creations : τ → Creation) (distinct : workers.Nodup)
    (ops : List (Op τ γ))
    (orderly : AdmissibleM (step cfg (Fintype.card τ) fun t => decide (t ∈ workers))
      (Orderly cfg (fun t => decide (t ∈ workers)) creations) (start cfg creations workers) ops) :
    ∃ q, ops.foldlM (step cfg (Fintype.card τ) fun t => decide (t ∈ workers))
        (start cfg creations workers) = some q ∧
      (∀ t ∉ workers, 0 < (creations t).period →
        Timely q.task t (q.task.kernel.threads t).arrivalTime ((creations t).due (q.jobs t)) ∧
          ((creations t).HasDeadline cfg →
            DeadlineSet q.task t ((creations t).due (q.jobs t)))) ∧
      ∀ t ∈ workers, ∀ pid obj param schedule,
        q.record.asked t = some (.periodic pid obj param schedule) →
          (Timely q.task t (q.record.release t) (dueTime schedule) ↔
            schedule.instanceNumber = 0 ∨ schedule.offset = 0) ∧
          (DeadlineSet q.task t (dueTime schedule) ↔ dueTime schedule = 0) := by
  obtain ⟨q, ran, a, sound⟩ := foldlM_invariant (fun q => ∃ a, Sound cfg workers creations q a)
    (fun q op ⟨a, sound⟩ orderly => sound.step cfg orderly) ops _
    (sound_start cfg creations distinct) orderly
  refine ⟨q, ran, fun t => sound.threads, fun t worker pid obj param schedule asked => ⟨?_, ?_⟩⟩
  · rw [← sound.release worker asked]
    refine ⟨fun timely => timely.1, fun released => ⟨released, fun runs => ?_⟩⟩
    rw [← released]
    exact (sound.sound.accounted.running t (decide_eq_true worker) runs).2
  · have none := (sound.sound.fits t worker).noDeadline
    rw [DeadlineSet, sound.sound.refines.thread t, none.1, none.2, Nat.add_zero, eq_comm]

end Runs

section Decisions

variable {τ γ : Type} [DecidableEq τ] [Fintype τ] [DecidableEq γ]

instance (s : KernelTask τ γ) (t : τ) : Decidable (NextFits s t) :=
  match job : s.job t with
  | .periodicFunctionCall call =>
    decidable_of_iff (call.functioncall.time + call.period < 2 ^ 64) (by simp only [NextFits, job])
  | .none | .irq _ | .timedFunctionCall _ => .isTrue (by simp only [NextFits, job])

instance (cfg : SchedulerCfd) (s : KernelTask τ γ) (t : τ) :
    (event : Kernel.Event τ) → Decidable (Gentle cfg s t event)
  | .terminateThread _ => inferInstanceAs (Decidable (_ = _ → _ + _ + _ < _))
  | .dispatch _ | .run _ | .sleep .. | .pushPriority .. | .computePriority _ | .block _ | .unblock _
  | .stop _ | .resume _ | .sigwait .. | .signal .. | .popPriority .. | .softTerminate _ =>
    inferInstanceAs (Decidable (_ < _ → s.kernel.view.Allows ..))

instance (cfg : SchedulerCfd) (worker : τ → Bool) (creations : τ → Creation) (s : KernelTask τ γ) :
    (op : Op τ γ) → Decidable (Proper cfg worker creations s op)
  | .finish => inferInstanceAs (Decidable (∀ t, s.kernel.running = some t → _ → NextFits s t))
  | .thread event => inferInstanceAs (Decidable (_ → ∀ t, _ → _ →
      (event.thread = some t → _ ≤ _) ∧ Gentle cfg s t event))
  | .tick _ | .getPeriodicThread .. | .getCallbackThread .. | .getIRQThread .. | .stop _
  | .interrupt _ | .dispatch => inferInstanceAs (Decidable True)

instance (cfg : SchedulerCfd) (worker : τ → Bool) (creations : τ → Creation) (q : Run τ γ)
    (op : Op τ γ) : Decidable (Orderly cfg worker creations q op) :=
  inferInstanceAs (Decidable (KernelWorkers.Orderly cfg worker (q.task, q.record) op ∧
    (_ → Proper cfg worker creations q.task op)))

end Decisions

section Examples

/-- A real-time thread that is created at time 2 with arrival time 5, period 10 and deadline 7. -/
def created : Creation := ⟨1, 2, 1, ⟨5, 3, 10, 7⟩⟩

def startOne : Run Bool Unit := start .rateMonotonic (fun _ => created) [true]

def runOne (ops : List (Op Bool Unit)) : Option (Run Bool Unit) :=
  ops.foldlM (step .rateMonotonic (Fintype.card Bool) fun t => decide (t ∈ [true])) startOne

/-- The thread is run early and ends its first job late, beside a worker thread without an
offset. -/
def jobs : List (Op Bool Unit) := [.getPeriodicThread 1 () 0 10 1 (), .dispatch, .finish, .tick 3,
  .dispatch, .thread (.run false), .tick 4, .dispatch, .tick 9, .thread (.terminateThread false),
  .dispatch]

theorem jobs_released_late : ∃ q, runOne jobs = some q ∧
    (∀ t ∉ [true], 0 < created.period →
      Timely q.task t (q.task.kernel.threads t).arrivalTime (created.due (q.jobs t)) ∧
        (created.HasDeadline .rateMonotonic → DeadlineSet q.task t (created.due (q.jobs t)))) ∧
    ∀ t ∈ [true], ∀ pid obj param schedule,
      q.record.asked t = some (.periodic pid obj param schedule) →
        (Timely q.task t (q.record.release t) (dueTime schedule) ↔
          schedule.instanceNumber = 0 ∨ schedule.offset = 0) ∧
        (DeadlineSet q.task t (dueTime schedule) ↔ dueTime schedule = 0) :=
  jobs_released .rateMonotonic (fun _ => created) (by decide) jobs (by decide +kernel)

/-- The second instance of a worker thread that was asked for with offset 3 and period 10 at time 0
runs at time 10, and its deadline is 0. -/
theorem offset_lost : ∃ q, runOne [.getPeriodicThread 1 () 3 10 1 (), .tick 3, .dispatch, .finish,
      .tick 7, .dispatch] = some q ∧ ∃ schedule,
    q.record.asked true = some (.periodic 1 () () schedule) ∧ dueTime schedule = 13 ∧
      ¬Timely q.task true (q.record.release true) (dueTime schedule) ∧
      ¬DeadlineSet q.task true (dueTime schedule) := by
  have early : (runOne [.getPeriodicThread 1 () 3 10 1 (), .tick 3, .dispatch, .finish, .tick 7,
      .dispatch]).map (fun q => decide (q.task.kernel.running = some true ∧
        q.task.clockCycles = 10 ∧ (q.task.kernel.threads true).absoluteDeadline = 0 ∧
        q.record.asked true = some (.periodic 1 () () ⟨0, 3, 10, 1⟩))) = some true := by
    decide +kernel
  obtain ⟨q, ran, facts⟩ := Option.map_eq_some_iff.mp early
  obtain ⟨runs, clock, deadline, asked⟩ := of_decide_eq_true facts
  refine ⟨q, ran, _, asked, rfl, fun timely => ?_, fun set => ?_⟩
  · have late := timely.2 runs
    rw [clock] at late
    exact absurd late (by decide)
  · rw [DeadlineSet, deadline] at set
    have due : dueTime ⟨0, 3, 10, 1⟩ = 13 := rfl
    omega

end Examples

end Orcos.Guarantees.PeriodicJobs
