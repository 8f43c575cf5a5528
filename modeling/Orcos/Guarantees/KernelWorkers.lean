import Orcos.Source.KernelTask
import Orcos.Source.HeldThreads

/-!
# Kernel worker threads

Source: src/source/process/KernelTask.cc, `getPeriodicThread`, `getCallbackThread`,
`getIRQThread`, `workFinished`; KernelThread.cc, `work`, `stop`.

`stop` on a thread that is in the pool puts it there twice; on a thread in the middle of its job
it leaves the new flag cleared, so that the thread goes on with the old job once it is assigned
again. An interrupt of a thread that was stopped makes it run without a job.
-/
namespace Orcos.Guarantees.KernelWorkers
open Lib.Runs Source Source.KernelTask

section Specification

/-- When the instance of a periodic request is due: it was made at `start`, and so many were there
before. -/
structure Schedule where
  start : Nat
  offset : Nat
  period : Nat
  instanceNumber : Nat
  deriving DecidableEq

/-- What a worker thread is asked to do. -/
inductive Request (γ : Type)
  | periodic (pid : Nat) (objectptr parameterptr : γ) (schedule : Schedule)
  | callback (pid : Nat) (objectptr parameterptr : γ)
  | interrupt (pid : Nat) (driver : γ) (irq : Int)
  deriving DecidableEq

variable {τ γ : Type}

def Request.pid : Request γ → Nat
  | .periodic pid _ _ _ | .callback pid _ _ | .interrupt pid _ _ => pid

def Request.work : Request γ → Work γ
  | .periodic _ objectptr parameterptr _ | .callback _ objectptr parameterptr =>
    .callbackFunc objectptr parameterptr
  | .interrupt _ driver irq => .handleIRQ driver irq

/-- For each worker thread the request that it was assigned and that has neither been fulfilled
nor stopped, its release time or that of the next instance, how often a request was assigned to it,
and which of these it has taken up. -/
structure Record (τ γ : Type) where
  asked : τ → Option (Request γ)
  release : τ → Nat
  assigned : τ → Nat
  begun : τ → Nat

def Record.start : Record τ γ := ⟨fun _ => none, fun _ => 0, fun _ => 0, fun _ => 0⟩

variable [DecidableEq τ]

def Record.clear (r : Record τ γ) (t : τ) : Record τ γ :=
  { r with asked := Function.update r.asked t none }

def Record.begin (r : Record τ γ) (t : τ) : Record τ γ :=
  { r with begun := Function.update r.begun t (r.assigned t) }

/-- The first thread of the pool is assigned a request. -/
def Record.assign (r : Record τ γ) (head : Option τ) (request : Request γ) (release : Nat) :
    Record τ γ :=
  match head with
  | some t => { r with
      asked := Function.update r.asked t (some request)
      release := Function.update r.release t release
      assigned := Function.update r.assigned t (r.assigned t + 1) }
  | none => r

/-- The time in the job of a thread. -/
def nextTime (s : KernelTask τ γ) (t : τ) : Nat :=
  match s.job t with
  | .periodicFunctionCall call => call.functioncall.time
  | _ => 0

/-- A request for one call is fulfilled by it, and a periodic one goes on at the time that its job
has then. -/
def Record.finish (r : Record τ γ) (s : KernelTask τ γ) (t : τ) : Record τ γ :=
  match r.asked t with
  | some (.callback ..) => r.clear t
  | some (.periodic pid objectptr parameterptr schedule) => { r with
      asked := Function.update r.asked t (some (.periodic pid objectptr parameterptr
        { schedule with instanceNumber := schedule.instanceNumber + 1 }))
      release := Function.update r.release t (nextTime s t) }
  | _ => r

/-- A thread that is chosen and new takes up its request. -/
def Record.dispatch (r : Record τ γ) (s s' : KernelTask τ γ) : Record τ γ :=
  match s'.kernel.running with
  | some t => if (s.kernel.threads t).isNew then r.begin t else r
  | none => r

/-- The record after an operation that leads to another state. -/
def recordAfter (worker : τ → Bool) (s s' : KernelTask τ γ) (r : Record τ γ) :
    Op τ γ → Record τ γ
  | .getPeriodicThread pid obj offset period _ param =>
    r.assign s.nonWorkingThreads.getHead
      (.periodic pid obj param ⟨s.clockCycles, offset, period, 0⟩) (s.clockCycles + offset)
  | .getCallbackThread pid obj delay _ param =>
    r.assign s.nonWorkingThreads.getHead (.callback pid obj param) (s.clockCycles + delay)
  | .getIRQThread pid driver irq _ =>
    r.assign s.nonWorkingThreads.getHead (.interrupt pid driver irq) s.clockCycles
  | .stop t => if worker t then r.clear t else r
  | .finish =>
    match s.kernel.running with
    | some t => if worker t then r.finish s' t else r
    | none => r
  | .dispatch => r.dispatch s s'
  | _ => r

/-- A step with the record. -/
def step (cfg : SchedulerCfd) (fuel : Nat) (worker : τ → Bool)
    (p : KernelTask τ γ × Record τ γ) (op : Op τ γ) : Option (KernelTask τ γ × Record τ γ) :=
  (p.1.step cfg fuel worker op).map fun s => (s,
    if p.1.kernel.dispatching && op.waits then p.2 else recordAfter worker p.1 s p.2 op)

/-- The kernel task as it is constructed, with an empty record. -/
def start (cfg : SchedulerCfd) (threads : τ → Thread) (workers : List τ) :
    KernelTask τ γ × Record τ γ := (KernelTask.start cfg threads workers, Record.start)

/-- A thread without a request is once in the pool, has no job and is not eligible to run; one
with a request is not in the pool and has that job; and the one that runs has taken up the
request it was assigned last, after the release time. -/
structure Accounted [Fintype τ] (worker : τ → Bool) (p : KernelTask τ γ × Record τ γ) :
    Prop where
  pooled : ∀ t, worker t = true → p.2.asked t = none →
    p.1.nonWorkingThreads.contents.count (some t) = 1 ∧ p.1.job t = .none ∧
      p.1.kernel.running ≠ some t ∧ ∀ q, t ∈ p.1.kernel.list q → q = .blocked
  assigned : ∀ t request, worker t = true → p.2.asked t = some request →
    some t ∉ p.1.nonWorkingThreads.contents ∧ p.1.work t = some request.work ∧
      p.1.pid t = request.pid
  running : ∀ t, worker t = true → p.1.kernel.running = some t →
    p.2.begun t = p.2.assigned t ∧ p.2.release t ≤ p.1.clockCycles

/-- The thread at the head of the pool is new, and the release time fits. -/
def Assignable (s : KernelTask τ γ) (delay : Nat) : Prop :=
  ∀ t, s.nonWorkingThreads.getHead = some t →
    (s.kernel.threads t).isNew = true ∧ s.clockCycles + delay < 2 ^ 64

/-- The thread that ends an instance of a periodic job is not put to sleep behind itself. -/
def SleepsFreely [Fintype τ] (s : KernelTask τ γ) (t : τ) : Prop :=
  match s.job t with
  | .periodicFunctionCall call =>
    (s.kernel.view.putOff t (nextCall call).functioncall.time).FreeToSleep t
  | _ => True

def endsThread : Kernel.Event τ → Bool
  | .terminateThread _ => true
  | _ => false

/-- The thread is in the middle of a job. -/
def AtWork (s : KernelTask τ γ) (t : τ) : Prop :=
  (s.kernel.threads t).isNew = false ∧ s.job t ≠ .none

/-- A thread without a job is stopped only when the pool is full, and not interrupted while it is
blocked; a thread that is assigned is new; the operations of a job are its own; and no operation
links the item of a thread behind itself. -/
def Proper [Fintype τ] (cfg : SchedulerCfd) (worker : τ → Bool) (s : KernelTask τ γ) :
    Op τ γ → Prop
  | .tick _ => True
  | .getPeriodicThread _ _ offset _ _ _ => Assignable s offset
  | .getCallbackThread _ _ delay _ _ => Assignable s delay
  | .getIRQThread .. => Assignable s 0
  | .stop t => worker t = true → s.job t = .none →
    s.nonWorkingThreads.maxEntries ≤ s.nonWorkingThreads.numEntries
  | .finish => ∀ t, s.kernel.running = some t → worker t = true → SleepsFreely s t
  | .interrupt t => worker t = true → s.job t = .none → (s.kernel.threads t).isBlocked = false
  | .dispatch => s.kernel.view.Linkable cfg (.dispatch s.clockCycles)
  | .thread event => event.isDispatch = false → s.kernel.view.Linkable cfg event ∧
    ∀ t, event.thread = some t → worker t = true → AtWork s t ∧ endsThread event = false

/-- An operation that does not have to wait for a dispatch is proper. -/
def Orderly [Fintype τ] (cfg : SchedulerCfd) (worker : τ → Bool)
    (p : KernelTask τ γ × Record τ γ) (op : Op τ γ) : Prop :=
  (p.1.kernel.dispatching && op.waits) = false → Proper cfg worker p.1 op

end Specification

section Invariant

variable {τ γ : Type} {workers : List τ} {pool : ArrayList τ} {a b : Queues τ}
  {s s' : KernelTask τ γ} {r r' : Record τ γ} {t u : τ} {cfg : SchedulerCfd}

/-- The pool holds worker threads, each at most once, and has room for all of them. -/
structure Pool (workers : List τ) (pool : ArrayList τ) : Prop where
  valid : pool.Valid
  capacity : pool.maxEntries = workers.length
  nodup : pool.contents.Nodup
  members : ∀ x ∈ pool.contents, ∃ t ∈ workers, x = some t

/-- A thread that is not in the pool finds room. -/
theorem Pool.room (facts : Pool workers pool) (worker : t ∈ workers)
    (absent : some t ∉ pool.contents) : pool.numEntries < pool.maxEntries := by
  have distinct : (some t :: pool.contents).Nodup := List.nodup_cons.mpr ⟨absent, facts.nodup⟩
  have inside : some t :: pool.contents ⊆ workers.map some := by
    intro x member
    rcases List.mem_cons.mp member with same | stored
    · rw [same]
      exact List.mem_map_of_mem worker
    · obtain ⟨u, listed, same⟩ := facts.members x stored
      rw [same]
      exact List.mem_map_of_mem listed
  have short := (List.subperm_of_subset distinct inside).length_le
  rw [List.length_cons, ArrayList.contents_length, List.length_map] at short
  rw [facts.capacity]
  omega

theorem Pool.addHead (facts : Pool workers pool) (worker : t ∈ workers)
    (absent : some t ∉ pool.contents) : Pool workers (pool.addHead (some t)).1 ∧
      (pool.addHead (some t)).1.contents = some t :: pool.contents := by
  have room := facts.room worker absent
  obtain ⟨valid, contents⟩ := ArrayList.addHead_effect facts.valid (some t) room
  refine ⟨⟨valid, ?_, ?_, fun x member => ?_⟩, contents⟩
  · have full : ¬pool.numEntries + 1 > pool.maxEntries := by omega
    rw [ArrayList.addHead, if_neg full]
    exact facts.capacity
  · rw [contents]
    exact List.nodup_cons.mpr ⟨absent, facts.nodup⟩
  · rw [contents] at member
    rcases List.mem_cons.mp member with same | stored
    · exact ⟨t, worker, same⟩
    · exact facts.members x stored

/-- Adding to a full pool fails. -/
theorem addHead_full (full : pool.maxEntries ≤ pool.numEntries) (x : Option τ) :
    (pool.addHead x).1 = pool := by
  rw [ArrayList.addHead, if_pos (by omega)]

/-- The thread that is taken out of the pool is not in it any more. -/
theorem Pool.removeHead (facts : Pool workers pool) :
    (pool.getHead = none ∧ pool.removeHead = (pool, none)) ∨
      ∃ t pool', pool.getHead = some t ∧ pool.removeHead = (pool', some t) ∧ t ∈ workers ∧
        pool.contents = some t :: pool'.contents ∧ Pool workers pool' := by
  obtain ⟨valid, rest, first⟩ := ArrayList.removeHead_effect facts.valid
  rw [ArrayList.getHead_eq facts.valid]
  cases stored : pool.contents with
  | nil =>
    left
    have empty : pool.numEntries = 0 := by
      rw [← ArrayList.contents_length, stored]
      rfl
    refine ⟨rfl, ?_⟩
    rw [ArrayList.removeHead, if_pos empty.symm]
  | cons x xs =>
    right
    obtain ⟨t, worker, rfl⟩ := facts.members x (by simp [stored])
    have distinct := facts.nodup
    rw [stored] at rest first distinct
    refine ⟨t, pool.removeHead.1, rfl, Prod.ext rfl first, worker, by rw [rest]; rfl, valid, ?_,
      ?_, fun x member => ?_⟩
    · rw [← facts.capacity, ArrayList.removeHead]
      split
      · rfl
      · rfl
    · rw [rest]
      exact (List.nodup_cons.mp distinct).2
    · rw [rest] at member
      exact facts.members x (by rw [stored]; exact List.mem_cons_of_mem _ member)

/-- A thread without a request stays where only an unblocking gets it away from. -/
structure Idle (s : KernelTask τ γ) (a : Queues τ) (t : τ) : Prop where
  pooled : some t ∈ s.nonWorkingThreads.contents
  job : s.job t = .none
  running : a.running ≠ some t
  blocked : ∀ q, t ∈ a.queue q → q = .blocked

/-- The job of a thread is the one that it was asked to do. -/
def Carries (s : KernelTask τ γ) (t : τ) : Request γ → Prop
  | .periodic pid obj param schedule => s.pid t = pid ∧ s.job t = .periodicFunctionCall
    ⟨⟨obj, (schedule.start + schedule.instanceNumber * schedule.period) % 2 ^ 64, param⟩,
      schedule.period⟩
  | .callback pid obj param => s.pid t = pid ∧ ∃ time,
    s.job t = .timedFunctionCall ⟨obj, time, param⟩
  | .interrupt pid driver irq => s.pid t = pid ∧ s.job t = .irq driver ∧ s.irq t = irq

/-- Before an instance: as long as the release time has not come the thread is held back. -/
structure Waiting (release clock : Nat) (a : Queues τ) (t : τ) : Prop where
  isNew : (a.threads t).isNew = true
  apart : Queues.Apart t a
  held : clock < release → Queues.Held release t a

/-- In the middle of the job that was assigned last. -/
structure Begun (s : KernelTask τ γ) (r : Record τ γ) (a : Queues τ) (t : τ) : Prop where
  old : (a.threads t).isNew = false
  begun : r.begun t = r.assigned t
  late : r.release t ≤ s.clockCycles

/-- The release time of an instance of a periodic request. -/
def Released (release : Nat) : Request γ → Prop
  | .periodic _ _ _ schedule => release =
    if schedule.instanceNumber = 0 then schedule.start + schedule.offset
    else (schedule.start + schedule.instanceNumber * schedule.period) % 2 ^ 64
  | _ => True

/-- What holds of a thread with a request. -/
structure Busy (s : KernelTask τ γ) (r : Record τ γ) (a : Queues τ) (t : τ)
    (request : Request γ) : Prop where
  outside : some t ∉ s.nonWorkingThreads.contents
  carries : Carries s t request
  released : Released (r.release t) request
  stage : Waiting (r.release t) s.clockCycles a t ∨ Begun s r a t

/-- A worker thread has no deadline. -/
def NoDeadline (thread : Thread) : Prop :=
  thread.relativeDeadline = 0 ∧ thread.absoluteDeadline = 0

/-- What holds of a worker thread. -/
structure Fits (s : KernelTask τ γ) (r : Record τ γ) (a : Queues τ) (t : τ) : Prop where
  noDeadline : NoDeadline (a.threads t)
  idle : r.asked t = none → Idle s a t
  busy : ∀ request, r.asked t = some request → Busy s r a t request

/-- What holds after every proper run. -/
structure Sound (workers : List τ) (p : KernelTask τ γ × Record τ γ) (a : Queues τ) : Prop where
  refines : Refines p.1.kernel a
  pool : Pool workers p.1.nonWorkingThreads
  fits : ∀ t ∈ workers, Fits p.1 p.2 a t

/-- An operation that is about other threads. -/
structure Elsewhere (t : τ) (s s' : KernelTask τ γ) (r r' : Record τ γ) : Prop where
  pool : some t ∈ s'.nonWorkingThreads.contents ↔ some t ∈ s.nonWorkingThreads.contents
  job : s'.job t = s.job t
  pid : s'.pid t = s.pid t
  irq : s'.irq t = s.irq t
  clock : s.clockCycles ≤ s'.clockCycles
  asked : r'.asked t = r.asked t
  release : r'.release t = r.release t
  assigned : r'.assigned t = r.assigned t
  begun : r'.begun t = r.begun t

theorem lasting_noDeadline (cfg : SchedulerCfd) : Queues.Lasting cfg NoDeadline where
  status _ _ _ none := none
  sleepTime _ _ none := none
  signal _ _ _ none := none
  priority _ _ _ none := none
  computedRM _ _ none := none
  computedEDF _ thread none := by
    unfold Thread.computePriorityEDF
    split
    case isTrue deadline => exact absurd none.1 deadline
    case isFalse =>
      split
      · exact ⟨none.1, rfl⟩
      · exact none

theorem Carries.same {request : Request γ} (carries : Carries s t request)
    (job : s'.job t = s.job t) (pid : s'.pid t = s.pid t) (irq : s'.irq t = s.irq t) :
    Carries s' t request := by
  cases request with
  | periodic => exact ⟨pid.trans carries.1, job.trans carries.2⟩
  | callback => exact ⟨pid.trans carries.1, carries.2.imp fun _ held => job.trans held⟩
  | interrupt => exact ⟨pid.trans carries.1, job.trans carries.2.1, irq.trans carries.2.2⟩

theorem Carries.work {request : Request γ} (carries : Carries s t request) :
    s.work t = some request.work ∧ s.pid t = request.pid ∧ s.job t ≠ .none := by
  cases request with
  | periodic pid obj param schedule =>
    obtain ⟨own, job⟩ := carries
    rw [KernelTask.work, job]
    exact ⟨rfl, own, nofun⟩
  | callback pid obj param =>
    obtain ⟨own, time, job⟩ := carries
    rw [KernelTask.work, job]
    exact ⟨rfl, own, nofun⟩
  | interrupt pid driver irq =>
    obtain ⟨own, job, number⟩ := carries
    rw [KernelTask.work, job, ← number]
    exact ⟨rfl, own, nofun⟩

theorem Waiting.untouched {release clock clock' : Nat} (waiting : Waiting release clock a t)
    (untouched : Queues.Untouched t a b) (later : clock ≤ clock') :
    Waiting release clock' b t := by
  refine ⟨by rw [untouched.threads]; exact waiting.isNew, waiting.apart.untouched untouched, ?_⟩
  exact fun early => (waiting.held (later.trans_lt early)).untouched untouched

/-- The frame of a thread. -/
theorem Fits.elsewhere (fits : Fits s r a t) (elsewhere : Elsewhere t s s' r r')
    (untouched : Queues.Untouched t a b) : Fits s' r' b t := by
  refine ⟨by rw [untouched.threads]; exact fits.noDeadline, fun free => ?_,
    fun request assigned => ?_⟩
  · have idle := fits.idle (elsewhere.asked ▸ free)
    exact ⟨elsewhere.pool.mpr idle.pooled, elsewhere.job.trans idle.job,
      untouched.running idle.running,
      fun q member => idle.blocked q ((untouched.queue q).mp member)⟩
  · have busy := fits.busy request (elsewhere.asked ▸ assigned)
    refine ⟨fun stored => busy.outside (elsewhere.pool.mp stored),
      busy.carries.same elsewhere.job elsewhere.pid elsewhere.irq,
      by rw [elsewhere.release]; exact busy.released, ?_⟩
    rw [elsewhere.release]
    refine busy.stage.imp (fun waiting => waiting.untouched untouched elsewhere.clock) ?_
    intro begun
    refine ⟨by rw [untouched.threads]; exact begun.old, ?_, ?_⟩
    · rw [elsewhere.begun, elsewhere.assigned]
      exact begun.begun
    · rw [elsewhere.release]
      exact begun.late.trans elsewhere.clock

end Invariant

section Operations

variable {τ γ : Type} [DecidableEq τ] {workers : List τ} {pool : ArrayList τ} {a b : Queues τ}
  {s s' : KernelTask τ γ} {r : Record τ γ} {t u : τ} {cfg : SchedulerCfd}

section Queues

theorem untouched_block (other : u ≠ t) : Queues.Untouched t a (a.block u) :=
  (Queues.Untouched.setThread a other _).trans (Queues.Untouched.dispatcherBlock _ other)

theorem untouched_slept (other : u ≠ t) (thread counted : Thread) (timePoint : Nat) :
    Queues.Untouched t a (((a.setThread u thread).setThread u counted).sleep u timePoint) :=
  ((Queues.Untouched.setThread a other _).trans (Queues.Untouched.setThread _ other _)).trans
    (Queues.Untouched.sleep _ other timePoint)

/-- A thread that is blocked is on no other list and does not run. -/
theorem block_place (a : Queues τ) (t : τ) :
    (a.block t).running ≠ some t ∧ ∀ q, t ∈ (a.block t).queue q → q = .blocked := by
  refine ⟨?_, fun q member => ?_⟩
  · rw [Queues.block, Queues.dispatcherBlock, Queues.leave_running]
    split
    · simp
    case isFalse idle => exact idle
  · rw [Queues.block, Queues.dispatcherBlock, Queues.leave_queue, Queues.mem_addTail] at member
    rcases member with ⟨_, blocked⟩ | ⟨_, other⟩
    · exact blocked
    · exact absurd rfl other

omit [DecidableEq τ] in
theorem Idle.apart (idle : Idle s a t) : Queues.Apart t a :=
  ⟨idle.running, fun q _ _ notBlocked member => notBlocked (idle.blocked q member)⟩

/-- A thread that falls asleep is on no other list. -/
theorem sleep_apart (a : Queues τ) (t : τ) (timePoint : Nat) :
    Queues.Apart t (a.sleep t timePoint) := by
  refine ⟨?_, fun q _ notAsleep _ member => ?_⟩
  · rw [Queues.sleep, Queues.addSleeping_running]
    split
    · simp
    case isFalse idle => exact idle
  · rw [Queues.sleep_queue_of_ne _ _ _ _ notAsleep] at member
    simp at member

theorem sleep_held (a : Queues τ) (t : τ) (timePoint : Nat) :
    Queues.Held timePoint t (a.sleep t timePoint) := by
  refine ⟨(sleep_apart a t timePoint).running, fun member => ?_, ?_⟩
  · rw [Queues.sleep_queue_of_ne _ _ _ _ (by decide)] at member
    simp at member
  · rw [Queues.sleep, Queues.addSleeping_threads, Queues.putOff, Queues.setThread_threads,
      if_pos rfl]
    exact le_rfl

theorem Apart.unblock (apart : Queues.Apart t a) : Queues.Apart t (a.unblock cfg t) := by
  unfold Queues.unblock
  split
  case isFalse => exact apart
  case isTrue =>
    dsimp only
    split
    · exact apart.setThread _
    · unfold Queues.dispatcherUnblock
      split
      · refine ⟨apart.running, fun q notReady notAsleep notBlocked member => ?_⟩
        rcases (Queues.mem_addTail ..).mp member with ⟨_, asleep⟩ | ⟨_, other⟩
        · exact notAsleep asleep
        · exact absurd rfl other
      · rw [Queues.enter_remove]
        exact ((apart.setThread _).setThread _).enter

/-- A thread from the pool that is unblocked with its release time waits for it. -/
theorem unblock_waiting (idle : Idle s a t) {thread : Thread} (isNew : thread.isNew = true)
    (clock : Nat) :
    Waiting thread.sleepTime clock ((a.setThread t thread).unblock cfg t) t := by
  have members : (a.setThread t thread).threads t = thread := by
    rw [Queues.setThread_threads, if_pos rfl]
  refine ⟨?_, Apart.unblock (idle.apart.setThread thread), fun early => ?_⟩
  · apply Queues.Keeps.unblock _ (Queues.lasting_isNew cfg true)
    rw [members]
    exact isNew
  · apply Queues.Held.unblock (Nat.zero_lt_of_lt early)
    refine ⟨idle.running, fun ready => ?_, ?_⟩
    · cases idle.blocked _ ready
    · rw [members]

end Queues

/-- Threads that are no worker threads are left alone. -/
def Aside (workers : List τ) (a b : Queues τ) : Prop := ∀ t, t ∉ workers → Queues.Untouched t a b

/-- The head of the pool is handed out. -/
theorem Sound.assign (sound : Sound workers (s, r) a) (pooled : s'.nonWorkingThreads = pool)
    (facts : Pool workers pool)
    (contents : s.nonWorkingThreads.contents = some u :: pool.contents)
    (refines : Refines s'.kernel b) (clock : s'.clockCycles = s.clockCycles)
    (others : ∀ t, t ≠ u → Queues.Untouched t a b ∧ s'.job t = s.job t ∧ s'.pid t = s.pid t ∧
      s'.irq t = s.irq t) {request : Request γ} (carries : Carries s' u request) {release : Nat}
    (released : Released release request) (noDeadline : NoDeadline (b.threads u))
    (waiting : Waiting release s.clockCycles b u) :
    Sound workers (s', r.assign (some u) request release) b := by
  have outside : some u ∉ pool.contents := by
    have distinct := sound.pool.nodup
    dsimp only at distinct
    rw [contents] at distinct
    exact (List.nodup_cons.mp distinct).1
  refine ⟨refines, pooled ▸ facts, fun t worker => ?_⟩
  unfold Record.assign
  by_cases other : t = u
  · subst other
    refine ⟨noDeadline, fun free => ?_, fun asked assigned => ?_⟩
    · simp at free
    · simp only [Function.update_self, Option.some.injEq] at assigned
      subst assigned
      refine ⟨by rw [pooled]; exact outside, carries, ?_, .inl ?_⟩
      · simp only [Function.update_self]
        exact released
      · simp only [Function.update_self]
        rw [clock]
        exact waiting
  · obtain ⟨untouched, job, pid, irq⟩ := others t other
    apply (sound.fits t worker).elsewhere _ untouched
    refine ⟨?_, job, pid, irq, clock.ge, ?_, ?_, ?_, rfl⟩
    · dsimp only
      rw [pooled, contents, List.mem_cons]
      simp [other]
    · exact Function.update_of_ne other ..
    · exact Function.update_of_ne other ..
    · exact Function.update_of_ne other ..

omit [DecidableEq τ] in
theorem Fits.free (fits : Fits s r a t) (pooled : some t ∈ s.nonWorkingThreads.contents) :
    r.asked t = none := by
  cases asked : r.asked t with
  | none => rfl
  | some request => exact absurd pooled (fits.busy request asked).outside

section Assignments

variable [Fintype τ]

/-- The thread is unblocked after it got its members. -/
theorem Sound.assignAndUnblock (cfg : SchedulerCfd) (sound : Sound workers (s, r) a)
    (facts : Pool workers pool)
    (contents : s.nonWorkingThreads.contents = some u :: pool.contents) (worker : u ∈ workers)
    (job : Job γ) (pid : Nat) (thread : Thread) (isNew : thread.isNew = true)
    (noDeadline : NoDeadline thread) {request : Request γ}
    (carries : Carries (s.assign pool u job pid thread) u request)
    (released : Released thread.sleepTime request) :
    ∃ s', (s.assign pool u job pid thread).unblock cfg (Fintype.card τ) u = some s' ∧
      ∃ b, Sound workers (s', r.assign (some u) request thread.sleepTime) b ∧
      Aside workers a b := by
  have pooled : some u ∈ s.nonWorkingThreads.contents := by simp [contents]
  have idle := (sound.fits u worker).idle ((sound.fits u worker).free pooled)
  obtain ⟨kernel, unblocked, refines⟩ : ∃ kernel,
      Kernel.unblock cfg (Fintype.card τ) (s.kernel.setThread u thread) u = some kernel ∧
        Refines kernel ((a.setThread u thread).unblock cfg u) :=
    (sound.refines.setThread u thread).unblock le_rfl u
  have others : ∀ t, t ≠ u → Queues.Untouched t a ((a.setThread u thread).unblock cfg u) :=
    fun t other => (Queues.Untouched.setThread a other.symm _).trans
      (Queues.Untouched.unblock _ other.symm)
  refine ⟨{ s.assign pool u job pid thread with kernel := kernel }, ?_,
    (a.setThread u thread).unblock cfg u, ?_, fun t user => others t
    fun same => user (same ▸ worker)⟩
  · rw [KernelTask.unblock, KernelTask.assign]
    dsimp only
    rw [unblocked]
    rfl
  · refine sound.assign (by rfl) facts contents refines (by rfl) ?_ ?_ released ?_
      (unblock_waiting idle isNew _)
    · intro t other
      exact ⟨others t other, Function.update_of_ne other .., Function.update_of_ne other .., rfl⟩
    · exact carries.same rfl rfl rfl
    · apply Queues.Keeps.unblock _ (lasting_noDeadline cfg)
      rw [Queues.setThread_threads, if_pos rfl]
      exact noDeadline

omit [Fintype τ] in
theorem carries_periodic (s : KernelTask τ γ) (pool : ArrayList τ) (t : τ) (pid : Nat)
    (thread : Thread) (obj param : γ) (offset period : Nat)
    (now : s.clockCycles % 2 ^ 64 = s.clockCycles) :
    Carries (s.assign pool t (.periodicFunctionCall ⟨⟨obj, s.clockCycles, param⟩, period⟩) pid
      thread) t (.periodic pid obj param ⟨s.clockCycles, offset, period, 0⟩) := by
  refine ⟨Function.update_self .., ?_⟩
  dsimp only
  rw [Nat.zero_mul, Nat.add_zero, now]
  exact Function.update_self ..

omit [Fintype τ] in
theorem carries_callback (s : KernelTask τ γ) (pool : ArrayList τ) (t : τ) (pid : Nat)
    (thread : Thread) (call : TimedFunctionCall γ) :
    Carries (s.assign pool t (.timedFunctionCall call) pid thread) t
      (.callback pid call.objectptr call.parameterptr) :=
  ⟨Function.update_self .., _, Function.update_self ..⟩

omit [DecidableEq τ] [Fintype τ] in
theorem periodicThread_isNew (cfg : SchedulerCfd) (thread : Thread) (time period priority : Nat) :
    (periodicThread cfg thread time period priority).isNew = thread.isNew := by
  unfold periodicThread
  dsimp only
  split
  · cases cfg with
    | roundRobin _ => rfl
    | rateMonotonic => rfl
    | earliestDeadlineFirst => exact Queues.computePriorityEDF_isNew _
  · rfl

omit [DecidableEq τ] [Fintype τ] in
theorem periodicThread_noDeadline (cfg : SchedulerCfd) {thread : Thread}
    (time period priority : Nat)
    (noDeadline : NoDeadline thread) :
    NoDeadline (periodicThread cfg thread time period priority) := by
  unfold periodicThread
  dsimp only
  split
  · cases cfg with
    | roundRobin _ => exact ⟨rfl, noDeadline.2⟩
    | rateMonotonic => exact ⟨rfl, noDeadline.2⟩
    | earliestDeadlineFirst =>
      exact (lasting_noDeadline .earliestDeadlineFirst).computedEDF rfl _ ⟨rfl, noDeadline.2⟩
  · exact ⟨rfl, noDeadline.2⟩

theorem getPeriodicThread_sound (cfg : SchedulerCfd) (sound : Sound workers (s, r) a) (pid : Nat)
    (obj : γ) (offset period priority : Nat) (param : γ) (assignable : Assignable s offset) :
    ∃ s', (s.getPeriodicThread cfg (Fintype.card τ) pid obj offset period priority param).map
        Prod.fst = some s' ∧
      ∃ b, Sound workers (s', r.assign s.nonWorkingThreads.getHead
        (.periodic pid obj param ⟨s.clockCycles, offset, period, 0⟩) (s.clockCycles + offset)) b ∧
          Aside workers a b := by
  rcases sound.pool.removeHead with ⟨head, removed⟩ |
    ⟨u, pool, head, removed, worker, contents, facts⟩
  · dsimp only at head removed
    rw [getPeriodicThread, removed, head]
    exact ⟨s, rfl, a, sound, fun t _ => Queues.Untouched.refl t a⟩
  · dsimp only at head removed contents
    obtain ⟨isNew, fits⟩ := assignable u head
    have now : s.clockCycles % 2 ^ 64 = s.clockCycles := Nat.mod_eq_of_lt (by omega)
    have noDeadline := (sound.fits u worker).noDeadline
    rw [← sound.refines.thread u] at noDeadline
    rw [getPeriodicThread, removed, head]
    dsimp only
    rw [Nat.mod_eq_of_lt fits]
    obtain ⟨s', unblocked, b, after, aside⟩ := sound.assignAndUnblock cfg facts contents worker
      (.periodicFunctionCall ⟨⟨obj, s.clockCycles, param⟩, period⟩) pid
      (periodicThread cfg (s.kernel.threads u) (s.clockCycles + offset) period priority)
      ((periodicThread_isNew ..).trans isNew) (periodicThread_noDeadline cfg _ _ _ noDeadline)
      (carries_periodic s pool u pid _ obj param offset period now) (by rfl)
    rw [unblocked]
    exact ⟨s', rfl, b, after, aside⟩

theorem getCallbackThread_sound (cfg : SchedulerCfd) (sound : Sound workers (s, r) a) (pid : Nat)
    (obj : γ) (delay priority : Nat) (param : γ) (assignable : Assignable s delay) :
    ∃ s', (s.getCallbackThread cfg (Fintype.card τ) pid obj delay priority param).map
        Prod.fst = some s' ∧
      ∃ b, Sound workers (s', r.assign s.nonWorkingThreads.getHead (.callback pid obj param)
        (s.clockCycles + delay)) b ∧ Aside workers a b := by
  rcases sound.pool.removeHead with ⟨head, removed⟩ |
    ⟨u, pool, head, removed, worker, contents, facts⟩
  · dsimp only at head removed
    rw [getCallbackThread, removed, head]
    exact ⟨s, rfl, a, sound, fun t _ => Queues.Untouched.refl t a⟩
  · dsimp only at head removed contents
    obtain ⟨isNew, fits⟩ := assignable u head
    have noDeadline := (sound.fits u worker).noDeadline
    rw [← sound.refines.thread u] at noDeadline
    rw [getCallbackThread, removed, head]
    dsimp only
    rw [Nat.mod_eq_of_lt fits]
    obtain ⟨s', unblocked, b, after, aside⟩ := sound.assignAndUnblock cfg facts contents worker
      (.timedFunctionCall ⟨obj, s.clockCycles + delay, param⟩) pid
      { ((s.kernel.threads u).setSleepTime (s.clockCycles + delay)).setPriority
          priority priority with
        arrivalTime := s.clockCycles, period := 0, instanceNumber := 1 }
      isNew noDeadline (carries_callback s pool u pid _ ⟨obj, s.clockCycles + delay, param⟩) trivial
    rw [unblocked]
    exact ⟨s', rfl, b, after, aside⟩

omit [Fintype τ] in
theorem getIRQThread_sound (sound : Sound workers (s, r) a) (pid : Nat) (driver : γ) (irq : Int)
    (priority : Nat) (assignable : Assignable s 0) :
    ∃ b, Sound workers ((s.getIRQThread pid driver irq priority).1,
      r.assign s.nonWorkingThreads.getHead (.interrupt pid driver irq) s.clockCycles) b ∧
        Aside workers a b := by
  rcases sound.pool.removeHead with ⟨head, removed⟩ |
    ⟨u, pool, head, removed, worker, contents, facts⟩
  · dsimp only at head removed
    rw [getIRQThread, removed, head]
    exact ⟨a, sound, fun t _ => Queues.Untouched.refl t a⟩
  · dsimp only at head removed contents
    have isNew := (assignable u head).1
    have noDeadline := (sound.fits u worker).noDeadline
    rw [← sound.refines.thread u] at noDeadline
    have idle := (sound.fits u worker).idle ((sound.fits u worker).free (by simp [contents]))
    rw [getIRQThread, removed, head]
    have user : ∀ t, t ∉ workers → u ≠ t := fun t user same => user (same ▸ worker)
    refine ⟨_, sound.assign (by rfl) facts contents (sound.refines.setThread u _) (by rfl) ?_ ?_
      trivial ?_ ?_, fun t away => Queues.Untouched.setThread a (user t away) _⟩
    · intro t other
      exact ⟨Queues.Untouched.setThread a other.symm _, Function.update_of_ne other ..,
        Function.update_of_ne other .., Function.update_of_ne other ..⟩
    · exact ⟨Function.update_self .., Function.update_self .., Function.update_self ..⟩
    · rw [Queues.setThread_threads, if_pos rfl]
      exact noDeadline
    · refine ⟨?_, idle.apart.setThread _, fun early => absurd early (Nat.lt_irrefl _)⟩
      rw [Queues.setThread_threads, if_pos rfl]
      exact isNew

end Assignments

section Jobs

/-- The thread is put back into the pool, unless it is there and the pool is full. -/
theorem stop_sound (refines : Refines s.kernel a) (facts : Pool workers s.nonWorkingThreads)
    (worker : u ∈ workers) (noDeadline : NoDeadline (a.threads u))
    (others : ∀ t ∈ workers, t ≠ u → Fits s r a t)
    (room : some u ∉ s.nonWorkingThreads.contents ∨ some u ∈ s.nonWorkingThreads.contents ∧
      s.nonWorkingThreads.maxEntries ≤ s.nonWorkingThreads.numEntries) :
    Sound workers (s.stop u, r.clear u) (a.block u) := by
  have pool : Pool workers (s.stop u).nonWorkingThreads ∧
      ∀ t, some t ∈ (s.stop u).nonWorkingThreads.contents ↔
        t = u ∨ some t ∈ s.nonWorkingThreads.contents := by
    rw [stop, workFinished]
    dsimp only [setJob]
    rcases room with outside | ⟨inside, full⟩
    · obtain ⟨facts, contents⟩ := facts.addHead worker outside
      refine ⟨facts, fun t => ?_⟩
      rw [contents, List.mem_cons, Option.some.injEq]
    · rw [addHead_full full]
      refine ⟨facts, fun t => ⟨.inr, fun either => ?_⟩⟩
      rcases either with same | stored
      · rw [same]
        exact inside
      · exact stored
  refine ⟨refines.block u, pool.1, fun t listed => ?_⟩
  by_cases other : t = u
  · subst other
    obtain ⟨idle, blocked⟩ := block_place a t
    have kept : NoDeadline ((a.block t).threads t) :=
      Queues.Keeps.block a (lasting_noDeadline .rateMonotonic) noDeadline
    refine ⟨kept, fun _ => ⟨(pool.2 t).mpr (.inl rfl), Function.update_self .., idle, blocked⟩, ?_⟩
    intro request asked
    simp [Record.clear] at asked
  · refine (others t listed other).elsewhere ⟨?_, ?_, rfl, rfl, le_rfl, ?_, rfl, rfl, rfl⟩
      (untouched_block (Ne.symm other))
    · rw [pool.2]
      simp [other]
    · exact Function.update_of_ne other ..
    · exact Function.update_of_ne other ..

omit [DecidableEq τ] in
/-- The thread that runs is in the middle of its job. -/
theorem Fits.begun (fits : Fits s r a t) (running : a.running = some t) :
    ∃ request, r.asked t = some request ∧ some t ∉ s.nonWorkingThreads.contents ∧
      Carries s t request ∧ Begun s r a t := by
  cases asked : r.asked t with
  | none => exact absurd running (fits.idle asked).running
  | some request =>
    have busy := fits.busy request asked
    refine ⟨request, rfl, busy.outside, busy.carries, busy.stage.resolve_left fun waiting => ?_⟩
    exact waiting.apart.running running

/-- The members of the thread that is put to sleep do not matter for its place. -/
theorem freeToSleep_setThread (a : Queues τ) (t : τ) (thread : Thread) (timePoint : Nat)
    (free : (a.putOff t timePoint).FreeToSleep t) :
    ((a.setThread t thread).putOff t timePoint).FreeToSleep t := by
  have times : ∀ u, (((a.setThread t thread).putOff t timePoint).threads u).sleepTime =
      ((a.putOff t timePoint).threads u).sleepTime := by
    intro u
    simp only [Queues.putOff, Queues.setThread_threads]
    split
    · rfl
    · rfl
  unfold Queues.FreeToSleep
  simp only [times]
  exact free

/-- The thread keeps a request. -/
theorem Sound.again (sound : Sound workers (s, r) a) {request : Request γ}
    (asked : r'.asked u = some request) (refines : Refines s'.kernel b)
    (pool : s'.nonWorkingThreads = s.nonWorkingThreads) (clock : s'.clockCycles = s.clockCycles)
    (others : ∀ t, t ≠ u → Queues.Untouched t a b ∧ s'.job t = s.job t ∧ s'.pid t = s.pid t ∧
      s'.irq t = s.irq t) (same : r'.assigned = r.assigned ∧ r'.begun = r.begun ∧
      ∀ t, t ≠ u → r'.asked t = r.asked t ∧ r'.release t = r.release t)
    (noDeadline : NoDeadline (b.threads u)) (busy : Busy s' r' b u request) :
    Sound workers (s', r') b := by
  obtain ⟨sameAssigned, sameBegun, sameRest⟩ := same
  refine ⟨refines, pool ▸ sound.pool, fun t listed => ?_⟩
  by_cases other : t = u
  · subst other
    refine ⟨noDeadline, fun free => ?_, fun request' given => ?_⟩
    · dsimp only at free
      rw [asked] at free
      cases free
    · dsimp only at given
      rw [asked] at given
      cases given
      exact busy
  · obtain ⟨untouched, job, pid, irq⟩ := others t other
    apply (sound.fits t listed).elsewhere _ untouched
    refine ⟨by rw [pool], job, pid, irq, clock.ge, (sameRest t other).1,
      (sameRest t other).2, ?_, ?_⟩
    · rw [sameAssigned]
    · rw [sameBegun]

theorem finish_sound [Fintype τ] (sound : Sound workers (s, r) a) (worker : u ∈ workers)
    (running : a.running = some u) (free : SleepsFreely s u) :
    ∃ s', s.finish (Fintype.card τ) u = some s' ∧
      ∃ b, Sound workers (s', r.finish s' u) b ∧ Aside workers a b := by
  obtain ⟨request, asked, outside, carries, begun⟩ := (sound.fits u worker).begun running
  have noDeadline := (sound.fits u worker).noDeadline
  have released := ((sound.fits u worker).busy request asked).released
  have user : ∀ t, t ∉ workers → u ≠ t := fun t user same => user (same ▸ worker)
  have stored := sound.refines.setThread u ((s.kernel.threads u).setNew true)
  have members : (s.kernel.setThread u ((s.kernel.threads u).setNew true)).threads u =
      (s.kernel.threads u).setNew true := by
    rw [stored.thread u, Queues.setThread_threads, if_pos rfl]
  rw [← sound.refines.thread u] at noDeadline
  cases request with
  | callback pid obj param =>
    obtain ⟨_, time, job⟩ := carries
    have fulfilled : ∀ s' : KernelTask τ γ, r.finish s' u = r.clear u := fun s' => by
      rw [Record.finish, asked]
    simp only [fulfilled]
    rw [KernelTask.finish]
    dsimp only
    rw [job]
    refine ⟨_, rfl, _, stop_sound stored sound.pool worker ?_ ?_ (.inl outside), fun t away => ?_⟩
    · rw [Queues.setThread_threads, if_pos rfl]
      exact noDeadline
    · intro t listed other
      exact (sound.fits t listed).elsewhere ⟨Iff.rfl, rfl, rfl, rfl, le_rfl, rfl, rfl, rfl, rfl⟩
        (Queues.Untouched.setThread a other.symm _)
    · exact (Queues.Untouched.setThread a (user t away) _).trans (untouched_block (user t away))
  | interrupt pid driver irq =>
    have again : ∀ s' : KernelTask τ γ, r.finish s' u = r := fun s' => by
      rw [Record.finish, asked]
    simp only [again]
    rw [KernelTask.finish]
    dsimp only
    rw [carries.2.1]
    have others : ∀ t, u ≠ t → Queues.Untouched t a
        ((a.setThread u ((s.kernel.threads u).setNew true)).block u) := fun t other =>
      (Queues.Untouched.setThread a other _).trans (untouched_block other)
    refine ⟨_, rfl, _, sound.again asked (stored.block u) (by rfl) (by rfl) ?_
      ⟨rfl, rfl, fun _ _ => ⟨rfl, rfl⟩⟩ ?_ ?_, fun t away => others t (user t away)⟩
    · exact fun t other => ⟨others t other.symm, rfl, rfl, rfl⟩
    · apply Queues.Keeps.block _ (lasting_noDeadline .rateMonotonic)
      rw [Queues.setThread_threads, if_pos rfl]
      exact noDeadline
    · refine ⟨outside, carries.same rfl rfl rfl, released,
        .inl ⟨?_, ?_, fun early => absurd begun.late (Nat.not_le.mpr early)⟩⟩
      · apply Queues.Keeps.block _ (Queues.lasting_isNew .rateMonotonic true)
        rw [Queues.setThread_threads, if_pos rfl]
        rfl
      · obtain ⟨idle, blocked⟩ := block_place (a.setThread u ((s.kernel.threads u).setNew true)) u
        exact ⟨idle, fun q _ _ notBlocked member => notBlocked (blocked q member)⟩
  | periodic pid obj param schedule =>
    obtain ⟨own, job⟩ := carries
    rw [SleepsFreely, job] at free
    dsimp only at free
    rw [sound.refines.view_eq] at free
    have counted := stored.setThread u
      { (s.kernel.setThread u ((s.kernel.threads u).setNew true)).threads u with
        instanceNumber := ((s.kernel.setThread u
          ((s.kernel.threads u).setNew true)).threads u).instanceNumber + 1 }
    obtain ⟨kernel, slept, refines⟩ := counted.sleep (Nat.le_refl _)
      (freeToSleep_setThread _ u _ _ (freeToSleep_setThread a u _ _ free))
    rw [KernelTask.finish]
    dsimp only [setJob]
    rw [job]
    dsimp only
    have record : ∀ s' : KernelTask τ γ, r.finish s' u = { r with
        asked := Function.update r.asked u (some (.periodic pid obj param
          { schedule with instanceNumber := schedule.instanceNumber + 1 }))
        release := Function.update r.release u (nextTime s' u) } := fun s' => by
      rw [Record.finish, asked]
    simp only [record]
    refine ⟨_, Option.map_eq_some_iff.mpr ⟨kernel, slept, rfl⟩, _,
      sound.again (Function.update_self ..) refines (by rfl) (by rfl) ?_ ?_ ?_ ?_,
      fun t away => untouched_slept (user t away) ..⟩
    · exact fun t other =>
        ⟨untouched_slept other.symm .., Function.update_of_ne other .., rfl, rfl⟩
    · exact ⟨rfl, rfl, fun t other =>
        ⟨Function.update_of_ne other .., Function.update_of_ne other ..⟩⟩
    · apply Queues.Keeps.sleep _ (lasting_noDeadline .rateMonotonic)
      rw [Queues.setThread_threads, if_pos rfl, members]
      exact noDeadline
    · have next : (nextCall ⟨⟨obj, (schedule.start + schedule.instanceNumber * schedule.period) %
          2 ^ 64, param⟩, schedule.period⟩).functioncall.time =
            (schedule.start + (schedule.instanceNumber + 1) * schedule.period) % 2 ^ 64 := by
        rw [nextCall]
        dsimp only
        rw [Nat.mod_add_mod, Nat.add_assoc, Nat.succ_mul]
      refine ⟨outside, ⟨own, ?_⟩, ?_, .inl ⟨?_, sleep_apart _ u _, fun _ => ?_⟩⟩
      · dsimp only
        rw [Function.update_self, ← next]
        rfl
      · dsimp only
        rw [Function.update_self, Released, nextTime]
        dsimp only
        rw [Function.update_self]
        simp only [Nat.add_one_ne_zero, if_false]
        exact next
      · apply Queues.Keeps.sleep _ (Queues.lasting_isNew .rateMonotonic true)
        rw [Queues.setThread_threads, if_pos rfl, members]
        rfl
      · dsimp only
        rw [Function.update_self, nextTime]
        dsimp only
        rw [Function.update_self]
        exact sleep_held _ u _

end Jobs

section Events

variable [Fintype τ]

/-- An interrupt wakes a thread that has a job, or finds it awake. -/
theorem interrupt_sound (cfg : SchedulerCfd) (sound : Sound workers (s, r) a) (worker : u ∈ workers)
    (awake : s.job u = .none → (s.kernel.threads u).isBlocked = false) :
    ∃ s', s.unblock cfg (Fintype.card τ) u = some s' ∧
      ∃ b, Sound workers (s', r) b ∧ Aside workers a b := by
  obtain ⟨kernel, unblocked, refines⟩ :
      ∃ kernel, s.kernel.unblock cfg (Fintype.card τ) u = some kernel ∧
        Refines kernel (a.unblock cfg u) := sound.refines.unblock le_rfl u
  refine ⟨{ s with kernel := kernel }, ?_, a.unblock cfg u, ?_,
    fun t user => Queues.Untouched.unblock a fun same => user (same ▸ worker)⟩
  · rw [KernelTask.unblock, unblocked]
    rfl
  cases flag : (a.threads u).isBlocked with
  | false =>
    have same : a.unblock cfg u = a := by
      rw [Queues.unblock, flag]
      rfl
    rw [same] at refines ⊢
    refine ⟨refines, sound.pool, fun t listed => ?_⟩
    exact (sound.fits t listed).elsewhere ⟨Iff.rfl, rfl, rfl, rfl, le_rfl, rfl, rfl, rfl, rfl⟩
      (Queues.Untouched.refl t a)
  | true =>
    cases asked : r.asked u with
    | none =>
      have still := awake ((sound.fits u worker).idle asked).job
      rw [sound.refines.thread u, flag] at still
      cases still
    | some request =>
      have busy := (sound.fits u worker).busy request asked
      refine sound.again asked refines (by rfl) (by rfl) (fun t other =>
        ⟨Queues.Untouched.unblock a other.symm, rfl, rfl, rfl⟩)
        ⟨rfl, rfl, fun _ _ => ⟨rfl, rfl⟩⟩ ?_ ?_
      · exact Queues.Keeps.unblock a (lasting_noDeadline cfg) (sound.fits u worker).noDeadline
      refine ⟨busy.outside, busy.carries.same rfl rfl rfl, busy.released, ?_⟩
      rcases busy.stage with waiting | begun
      · left
        refine ⟨?_, Apart.unblock waiting.apart, fun early => ?_⟩
        · exact Queues.Keeps.unblock a (Queues.lasting_isNew cfg true) waiting.isNew
        · exact (waiting.held early).unblock (Nat.zero_lt_of_lt early)
      · right
        refine ⟨?_, begun.begun, begun.late⟩
        exact Queues.Keeps.unblock a (Queues.lasting_isNew cfg false) begun.old

omit [Fintype τ] in
/-- A thread that waits is chosen after its release time only. -/
theorem Waiting.dispatch (cfg : SchedulerCfd) {release clock : Nat}
    (waiting : Waiting release clock a t) :
    Waiting release clock (a.dispatch cfg clock) t ∨
      ((a.dispatch cfg clock).running = some t ∧
        ((a.dispatch cfg clock).threads t).isNew = false ∧ release ≤ clock) := by
  have preempted := waiting.untouched (Queues.Untouched.preempt cfg waiting.apart.running) le_rfl
  have isNew : (((a.preempt cfg).getNextTimerEvent cfg clock).threads t).isNew = true :=
    Queues.Keeps.getNextTimerEvent _ (Queues.lasting_isNew cfg true) clock preempted.isNew
  by_cases early : clock < release
  · left
    have held : Queues.Held release t (a.dispatch cfg clock) := (waiting.held early).dispatch early
    have other : (((a.preempt cfg).getNextTimerEvent cfg clock).queue .ready).head? ≠ some t :=
      fun head => held.running (Queues.runNext_chosen head).1
    have passed := Queues.Untouched.passedOver other
    refine ⟨?_, (preempted.apart.scan.untouched passed), fun _ => held⟩
    exact Queues.Keeps.of_untouched (p := fun thread => thread.isNew = true) passed isNew
  · by_cases head : (((a.preempt cfg).getNextTimerEvent cfg clock).queue .ready).head? = some t
    · right
      obtain ⟨runs, old⟩ := Queues.runNext_chosen head
      exact ⟨runs, old, Nat.not_lt.mp early⟩
    · left
      have passed := Queues.Untouched.passedOver head
      refine ⟨?_, (preempted.apart.scan.untouched passed), fun here => absurd here early⟩
      exact Queues.Keeps.of_untouched (p := fun thread => thread.isNew = true) passed isNew

omit [Fintype τ] in
theorem dispatch_fields (r : Record τ γ) (s s' : KernelTask τ γ) :
    (r.dispatch s s').asked = r.asked ∧ (r.dispatch s s').release = r.release ∧
      (r.dispatch s s').assigned = r.assigned := by
  unfold Record.dispatch
  split
  · split
    · exact ⟨rfl, rfl, rfl⟩
    · exact ⟨rfl, rfl, rfl⟩
  · exact ⟨rfl, rfl, rfl⟩

omit [Fintype τ] in
/-- A thread that is not chosen, or not new, takes up nothing. -/
theorem dispatch_begun (other : s'.kernel.running = some t → (s.kernel.threads t).isNew = false) :
    (r.dispatch s s').begun t = r.begun t := by
  unfold Record.dispatch
  split
  case h_1 u running =>
    split
    case isTrue isNew =>
      apply Function.update_of_ne
      intro same
      subst same
      rw [other running] at isNew
      cases isNew
    case isFalse => rfl
  case h_2 => rfl

theorem dispatch_sound (sound : Sound workers (s, r) a)
    (linkable : s.kernel.view.Linkable cfg (.dispatch s.clockCycles)) :
    ∃ kernel, s.kernel.dispatch cfg (Fintype.card τ) s.clockCycles = some kernel ∧
      Sound workers ({ s with kernel := kernel }, r.dispatch s { s with kernel := kernel })
        (a.dispatch cfg s.clockCycles) := by
  rw [sound.refines.view_eq] at linkable
  obtain ⟨kernel, dispatched, refines⟩ :
      ∃ kernel, s.kernel.dispatch cfg (Fintype.card τ) s.clockCycles = some kernel ∧
        Refines kernel (a.dispatch cfg s.clockCycles) :=
    sound.refines.dispatch le_rfl linkable.1 linkable.2
  refine ⟨kernel, dispatched, refines, sound.pool, fun t listed => ?_⟩
  obtain ⟨sameAsked, sameRelease, sameAssigned⟩ :=
    dispatch_fields r s { s with kernel := kernel }
  have fits := sound.fits t listed
  refine ⟨Queues.Keeps.dispatch a (lasting_noDeadline cfg) _ (fun _ _ none => none) fits.noDeadline,
    fun free => ?_, fun request given => ?_⟩
  · dsimp only at free
    rw [sameAsked] at free
    have idle := fits.idle free
    have untouched := Queues.Untouched.dispatch cfg idle.running
      (fun member => by cases idle.blocked _ member) (fun member => by cases idle.blocked _ member)
      s.clockCycles
    exact ⟨idle.pooled, idle.job, untouched.running idle.running,
      fun q member => idle.blocked q ((untouched.queue q).mp member)⟩
  · dsimp only at given
    rw [sameAsked] at given
    have busy := fits.busy request given
    refine ⟨busy.outside, busy.carries.same rfl rfl rfl,
      by rw [sameRelease]; exact busy.released, ?_⟩
    dsimp only
    rw [sameRelease]
    rcases busy.stage with waiting | begun
    · rcases waiting.dispatch cfg with still | ⟨runs, old, late⟩
      · exact .inl still
      · right
        refine ⟨old, ?_, by rw [sameRelease]; exact late⟩
        rw [Record.dispatch, refines.running, runs]
        dsimp only
        rw [if_pos (by rw [sound.refines.thread t]; exact waiting.isNew)]
        exact Function.update_self ..
    · right
      have old := Queues.Keeps.dispatch a (Queues.lasting_isNew cfg false) s.clockCycles
        (fun _ _ _ => rfl) begun.old
      refine ⟨old, ?_, by rw [sameRelease]; exact begun.late⟩
      rw [dispatch_begun (fun _ => by rw [sound.refines.thread t]; exact begun.old), sameAssigned]
      exact begun.begun

omit [Fintype τ] in
/-- An operation on other threads that neither ends the thread nor dispatches. -/
theorem untouched_perform {event : Kernel.Event τ} (apart : Queues.Apart t a)
    (addressed : event.thread ≠ some t) (other : event.isDispatch = false) :
    Queues.Untouched t a (a.perform cfg event) := by
  have aimed : ∀ u, event.thread = some u → u ≠ t := fun u here same => addressed (same ▸ here)
  cases event with
  | signal signaltype sig sigvalue =>
    apply Queues.Untouched.signal a cfg
    cases signaltype with
    | generic => exact apart.absent .wait (by decide) (by decide) (by decide)
    | cond => exact apart.absent .condwait (by decide) (by decide) (by decide)
  | terminateThread u =>
    exact Queues.Untouched.terminateThread a (aimed u rfl)
      (apart.absent .wait (by decide) (by decide) (by decide))
  | dispatch currentTime => cases other
  | _ => exact Queues.Untouched.addressed a (aimed _ rfl) rfl (by simp)

theorem thread_sound (sound : Sound workers (s, r) a) {event : Kernel.Event τ}
    (other : event.isDispatch = false) (linkable : s.kernel.view.Linkable cfg event)
    (own : ∀ t, event.thread = some t → t ∈ workers → AtWork s t ∧ endsThread event = false) :
    ∃ kernel, s.kernel.perform cfg (Fintype.card τ) event = some kernel ∧
      Sound workers ({ s with kernel := kernel }, r) (a.perform cfg event) := by
  rw [sound.refines.view_eq] at linkable
  obtain ⟨kernel, performed, refines⟩ :
      ∃ kernel, s.kernel.perform cfg (Fintype.card τ) event = some kernel ∧
        Refines kernel (a.perform cfg event) := sound.refines.perform le_rfl linkable
  refine ⟨kernel, performed, refines, sound.pool, fun t listed => ?_⟩
  have fits := sound.fits t listed
  have same : Elsewhere t s { s with kernel := kernel } r r :=
    ⟨Iff.rfl, rfl, rfl, rfl, le_rfl, rfl, rfl, rfl, rfl⟩
  cases asked : r.asked t with
  | none =>
    have idle := fits.idle asked
    apply fits.elsewhere same
    apply untouched_perform idle.apart _ other
    intro addressed
    exact (own t addressed listed).1.2 idle.job
  | some request =>
    rcases (fits.busy request asked).stage with waiting | begun
    · apply fits.elsewhere same
      apply untouched_perform waiting.apart _ other
      intro addressed
      have old := (own t addressed listed).1.1
      rw [sound.refines.thread t, waiting.isNew] at old
      cases old
    · have goesOn : event ≠ .terminateThread t := by
        intro ends
        subst ends
        cases (own t rfl listed).2
      refine ⟨Queues.Keeps.perform a (lasting_noDeadline cfg) goesOn other fits.noDeadline,
        fun free => ?_, fun request given => ?_⟩
      · rw [asked] at free
        cases free
      · have busy := fits.busy request given
        have old := Queues.Keeps.perform a (Queues.lasting_isNew cfg false) goesOn other begun.old
        exact ⟨busy.outside, busy.carries.same rfl rfl rfl, busy.released,
          .inr ⟨old, begun.begun, begun.late⟩⟩

end Events

end Operations

section Runs

variable {τ γ : Type} [DecidableEq τ] [Fintype τ] {workers : List τ}
  {p : KernelTask τ γ × Record τ γ} {a : Queues τ}

/-- What a step does to the queues. -/
def Change (cfg : SchedulerCfd) (workers : List τ) (clock : Nat) (a b : Queues τ) : Op τ γ → Prop
  | .dispatch => b = a.dispatch cfg clock
  | .thread event => b = if event.isDispatch then a else a.perform cfg event
  | _ => Aside workers a b

/-- Each orderly step succeeds and keeps what was sound. -/
theorem Sound.step (cfg : SchedulerCfd) (sound : Sound workers p a) {op : Op τ γ}
    (orderly : Orderly cfg (fun t => decide (t ∈ workers)) p op) :
    ∃ p', step cfg (Fintype.card τ) (fun t => decide (t ∈ workers)) p op = some p' ∧
      ∃ b, Sound workers p' b ∧ if p.1.kernel.dispatching && op.waits then b = a
        else Change cfg workers p.1.clockCycles a b op := by
  obtain ⟨s, r⟩ := p
  have still : Aside workers a a := fun t _ => Queues.Untouched.refl t a
  rw [KernelWorkers.step, KernelTask.step]
  dsimp only at orderly ⊢
  cases waits : s.kernel.dispatching && op.waits with
  | true => exact ⟨_, rfl, a, sound, rfl⟩
  | false =>
    have proper := orderly waits
    dsimp only at proper
    simp only [Bool.false_eq_true, if_false]
    cases op with
    | tick cycles =>
      refine ⟨_, rfl, a, ⟨sound.refines, sound.pool, fun t listed => ?_⟩, still⟩
      exact (sound.fits t listed).elsewhere
        ⟨Iff.rfl, rfl, rfl, rfl, Nat.le_add_right _ cycles, rfl, rfl, rfl, rfl⟩
        (Queues.Untouched.refl t a)
    | getPeriodicThread pid obj offset period priority param =>
      obtain ⟨s', got, b, after, aside⟩ :=
        getPeriodicThread_sound cfg sound pid obj offset period priority param proper
      rw [perform, got]
      exact ⟨_, rfl, b, after, aside⟩
    | getCallbackThread pid obj delay priority param =>
      obtain ⟨s', got, b, after, aside⟩ :=
        getCallbackThread_sound cfg sound pid obj delay priority param proper
      rw [perform, got]
      exact ⟨_, rfl, b, after, aside⟩
    | getIRQThread pid driver irq priority =>
      obtain ⟨b, after, aside⟩ := getIRQThread_sound sound pid driver irq priority proper
      exact ⟨_, rfl, b, after, aside⟩
    | stop u =>
      rw [perform]
      by_cases worker : u ∈ workers
      · simp only [worker, decide_true, if_true, recordAfter]
        refine ⟨_, rfl, a.block u, ?_,
          fun t user => untouched_block fun same => user (same ▸ worker)⟩
        apply stop_sound sound.refines sound.pool worker (sound.fits u worker).noDeadline
          fun t listed _ => sound.fits t listed
        cases asked : r.asked u with
        | none =>
          have idle := (sound.fits u worker).idle asked
          exact .inr ⟨idle.pooled, proper (decide_eq_true worker) idle.job⟩
        | some request => exact .inl ((sound.fits u worker).busy request asked).outside
      · simp only [worker, decide_false, Bool.false_eq_true, if_false, recordAfter]
        exact ⟨_, rfl, a, sound, still⟩
    | finish =>
      rw [perform]
      cases running : s.kernel.running with
      | none =>
        simp only [recordAfter, running]
        exact ⟨_, rfl, a, sound, still⟩
      | some u =>
        by_cases worker : u ∈ workers
        · simp only [worker, decide_true, if_true, recordAfter, running]
          obtain ⟨s', finished, b, after, aside⟩ := finish_sound sound worker
            (sound.refines.running ▸ running) (proper u running (decide_eq_true worker))
          rw [finished]
          exact ⟨_, rfl, b, after, aside⟩
        · simp only [worker, decide_false, Bool.false_eq_true, if_false, recordAfter, running]
          exact ⟨_, rfl, a, sound, still⟩
    | interrupt u =>
      rw [perform]
      by_cases worker : u ∈ workers
      · simp only [worker, decide_true, if_true]
        obtain ⟨s', woken, b, after, aside⟩ := interrupt_sound cfg sound worker
          (proper (decide_eq_true worker))
        rw [woken]
        exact ⟨_, rfl, b, after, aside⟩
      · simp only [worker, decide_false, Bool.false_eq_true, if_false]
        exact ⟨_, rfl, a, sound, still⟩
    | dispatch =>
      obtain ⟨kernel, dispatched, after⟩ := dispatch_sound sound proper
      rw [perform, dispatched]
      exact ⟨_, rfl, _, after, rfl⟩
    | thread event =>
      rw [perform]
      simp only [Change]
      cases other : event.isDispatch with
      | true => exact ⟨_, rfl, a, sound, rfl⟩
      | false =>
        obtain ⟨linkable, own⟩ := proper other
        obtain ⟨kernel, performed, after⟩ := thread_sound sound other linkable
          fun t addressed listed => own t addressed (decide_eq_true listed)
        simp only [Bool.false_eq_true, if_false]
        rw [performed]
        exact ⟨_, rfl, _, after, rfl⟩

/-- While the worker threads are created: those in the pool are idle. -/
structure Filled (workers : List τ) (s : KernelTask τ γ) (a : Queues τ) : Prop where
  refines : Refines s.kernel a
  pool : Pool workers s.nonWorkingThreads
  idle : ∀ t, some t ∈ s.nonWorkingThreads.contents → Idle s a t ∧ NoDeadline (a.threads t)
  job : ∀ t, s.job t = .none

omit [Fintype τ] in
theorem Filled.addWorker {s : KernelTask τ γ} {t : τ} (cfg : SchedulerCfd)
    (filled : Filled workers s a) (worker : t ∈ workers)
    (absent : some t ∉ s.nonWorkingThreads.contents) :
    (∃ b, Filled workers (addWorker cfg s t) b ∧ Aside workers a b) ∧
      (addWorker cfg s t).nonWorkingThreads.contents = some t :: s.nonWorkingThreads.contents := by
  obtain ⟨pool, contents⟩ := filled.pool.addHead worker absent
  have created := filled.refines.setThread t (computePriority cfg (Thread.create 0 0 0 none))
  have others : ∀ u, t ≠ u → Queues.Untouched u a
      ((a.setThread t (computePriority cfg (Thread.create 0 0 0 none))).block t) := fun u other =>
    (Queues.Untouched.setThread a other _).trans (untouched_block other)
  refine ⟨⟨_, ⟨created.block t, pool, fun u stored => ?_, filled.job⟩,
    fun u user => others u fun same => user (same ▸ worker)⟩, contents⟩
  by_cases other : u = t
  · subst other
    obtain ⟨still, blocked⟩ :=
      block_place (a.setThread u (computePriority cfg (Thread.create 0 0 0 none))) u
    refine ⟨⟨stored, filled.job u, still, blocked⟩, ?_⟩
    apply Queues.Keeps.block _ (lasting_noDeadline cfg)
    rw [Queues.setThread_threads, if_pos rfl]
    cases cfg with
    | roundRobin _ => exact ⟨rfl, rfl⟩
    | rateMonotonic => exact ⟨rfl, rfl⟩
    | earliestDeadlineFirst => exact ⟨rfl, rfl⟩
  · have before : some u ∈ s.nonWorkingThreads.contents := by
      have stored : some u ∈ (s.nonWorkingThreads.addHead (some t)).1.contents := stored
      rw [contents, List.mem_cons] at stored
      exact stored.resolve_left fun same => other (Option.some.inj same)
    obtain ⟨idle, noDeadline⟩ := filled.idle u before
    have untouched := others u (Ne.symm other)
    refine ⟨⟨stored, filled.job u, untouched.running idle.running,
      fun q member => idle.blocked q ((untouched.queue q).mp member)⟩, ?_⟩
    exact Queues.Keeps.of_untouched (p := NoDeadline) untouched noDeadline

omit [Fintype τ] in
/-- All of them are in the pool in the end. -/
theorem Filled.addWorkers (cfg : SchedulerCfd) (rest : List τ) {s : KernelTask τ γ}
    (filled : Filled workers s a) (listed : ∀ t ∈ rest, t ∈ workers) (distinct : rest.Nodup)
    (absent : ∀ t ∈ rest, some t ∉ s.nonWorkingThreads.contents) :
    (∃ b, Filled workers (rest.foldl (KernelTask.addWorker cfg) s) b ∧ Aside workers a b) ∧
      ∀ t, t ∈ rest ∨ some t ∈ s.nonWorkingThreads.contents →
        some t ∈ (rest.foldl (KernelTask.addWorker cfg) s).nonWorkingThreads.contents := by
  induction rest generalizing s a with
  | nil => exact ⟨⟨a, filled, fun t _ => Queues.Untouched.refl t a⟩,
      fun t stored => stored.resolve_left nofun⟩
  | cons u rest ih =>
    obtain ⟨⟨b, added, first⟩, contents⟩ :=
      filled.addWorker cfg (listed u (.head _)) (absent u (.head _))
    obtain ⟨fresh, distinct⟩ := List.nodup_cons.mp distinct
    obtain ⟨⟨c, last, later⟩, stored⟩ :=
      ih added (fun t member => listed t (.tail _ member)) distinct
      (fun t member => by
        rw [contents, List.mem_cons, not_or]
        refine ⟨fun same => fresh (Option.some.inj same ▸ member), absent t (.tail _ member)⟩)
    refine ⟨⟨c, last, fun t user => (first t user).trans (later t user)⟩,
      fun t either => stored t ?_⟩
    rw [contents, List.mem_cons, Option.some.injEq]
    rcases either with member | before
    · rcases List.mem_cons.mp member with same | later
      · exact .inr (.inl same)
      · exact .inl later
    · exact .inr (.inr before)

omit [Fintype τ] in
theorem sound_start (cfg : SchedulerCfd) (threads : τ → Thread) (distinct : workers.Nodup) :
    ∃ b, Sound workers (start cfg threads workers : KernelTask τ γ × Record τ γ) b ∧
      Aside workers (Queues.start threads) b := by
  have empty : Filled workers (KernelTask.mk (Kernel.start threads)
      (ArrayList.fresh workers.length) (fun _ => Job.none) (fun _ => 0) (fun _ => 0) 0 :
        KernelTask τ γ) (Queues.start threads) :=
    ⟨Refines.start threads, ⟨ArrayList.fresh_valid _, rfl, List.nodup_nil, nofun⟩, nofun,
      fun _ => rfl⟩
  obtain ⟨⟨b, filled, aside⟩, stored⟩ :=
    empty.addWorkers cfg workers (fun _ listed => listed) distinct (fun _ _ => List.not_mem_nil)
  exact ⟨b, ⟨filled.refines, filled.pool, fun t listed =>
    ⟨(filled.idle t (stored t (.inl listed))).2,
      fun _ => (filled.idle t (stored t (.inl listed))).1,
      nofun⟩⟩, aside⟩

theorem Sound.accounted (sound : Sound workers p a) :
    Accounted (fun t => decide (t ∈ workers)) p := by
  refine ⟨fun t worker free => ?_, fun t request worker asked => ?_, fun t worker runs => ?_⟩
  · have idle := (sound.fits t (of_decide_eq_true worker)).idle free
    refine ⟨List.count_eq_one_of_mem sound.pool.nodup idle.pooled, idle.job, ?_, fun q member => ?_⟩
    · rw [sound.refines.running]
      exact idle.running
    · rw [sound.refines.list_eq] at member
      exact idle.blocked q member
  · have busy := (sound.fits t (of_decide_eq_true worker)).busy request asked
    obtain ⟨work, pid, _⟩ := busy.carries.work
    exact ⟨busy.outside, work, pid⟩
  · rw [sound.refines.running] at runs
    obtain ⟨_, _, _, _, begun⟩ := (sound.fits t (of_decide_eq_true worker)).begun runs
    exact ⟨begun.begun, begun.late⟩

/-- In every run whose steps are orderly the worker threads are accounted for: each is once in the
pool and idle, or has the job it was assigned, and runs it and no other after its release time. -/
theorem workers_accounted (cfg : SchedulerCfd) (threads : τ → Thread) (distinct : workers.Nodup)
    (ops : List (Op τ γ))
    (orderly : AdmissibleM (step cfg (Fintype.card τ) fun t => decide (t ∈ workers))
      (Orderly cfg fun t => decide (t ∈ workers)) (start cfg threads workers) ops) :
    ∃ p, ops.foldlM (step cfg (Fintype.card τ) fun t => decide (t ∈ workers))
        (start cfg threads workers) = some p ∧ Accounted (fun t => decide (t ∈ workers)) p := by
  obtain ⟨b, begun, _⟩ := sound_start (γ := γ) cfg threads distinct
  obtain ⟨p, ran, a, sound⟩ := foldlM_invariant
    (fun p => ∃ a, Sound workers p a)
    (fun p op ⟨a, sound⟩ orderly => by
      obtain ⟨p', stepped, b, after, _⟩ := sound.step cfg orderly
      exact ⟨p', stepped, b, after⟩) ops _ ⟨b, begun⟩ orderly
  exact ⟨p, ran, sound.accounted⟩

end Runs

section Decisions

variable {τ γ : Type} [DecidableEq τ] [Fintype τ] [DecidableEq γ]

instance (s : KernelTask τ γ) (delay : Nat) : Decidable (Assignable s delay) :=
  inferInstanceAs (Decidable (∀ t, s.nonWorkingThreads.getHead = some t → _ ∧ _))

instance (s : KernelTask τ γ) (t : τ) : Decidable (SleepsFreely s t) :=
  match job : s.job t with
  | .periodicFunctionCall call => decidable_of_iff
      ((s.kernel.view.putOff t (nextCall call).functioncall.time).FreeToSleep t)
      (by simp only [SleepsFreely, job])
  | .none | .irq _ | .timedFunctionCall _ => .isTrue (by simp only [SleepsFreely, job])

instance (s : KernelTask τ γ) (t : τ) : Decidable (AtWork s t) :=
  inferInstanceAs (Decidable (_ ∧ _))

instance (cfg : SchedulerCfd) (worker : τ → Bool) (s : KernelTask τ γ) :
    (op : Op τ γ) → Decidable (Proper cfg worker s op)
  | .tick _ => .isTrue trivial
  | .getPeriodicThread .. | .getCallbackThread .. | .getIRQThread .. =>
    inferInstanceAs (Decidable (Assignable ..))
  | .stop _ => inferInstanceAs (Decidable (_ → _ → _ ≤ _))
  | .finish => inferInstanceAs (Decidable (∀ t, s.kernel.running = some t → _ → SleepsFreely s t))
  | .interrupt _ => inferInstanceAs (Decidable (_ → _ → _ = _))
  | .dispatch => inferInstanceAs (Decidable (s.kernel.view.Linkable cfg (.dispatch s.clockCycles)))
  | .thread event => inferInstanceAs (Decidable (_ → s.kernel.view.Linkable cfg event ∧
      ∀ t, event.thread = some t → _ → AtWork s t ∧ _ = _))

instance (cfg : SchedulerCfd) (worker : τ → Bool) (p : KernelTask τ γ × Record τ γ)
    (op : Op τ γ) : Decidable (Orderly cfg worker p op) :=
  inferInstanceAs (Decidable (_ → Proper cfg worker p.1 op))

end Decisions

section Examples

/-- Two worker threads and no others. -/
def twoWorkers : KernelTask Bool Unit × Record Bool Unit :=
  start .rateMonotonic (fun _ => Thread.create 1 0 1 none) [false, true]

def runTwo (ops : List (Op Bool Unit)) : Option (KernelTask Bool Unit × Record Bool Unit) :=
  ops.foldlM (step .rateMonotonic (Fintype.card Bool) fun t => decide (t ∈ [false, true]))
    twoWorkers

/-- A periodic job that is taken up after its offset and sleeps again, and is then stopped, while
the other thread is called back. -/
theorem workers_accounted_both : ∃ p, runTwo [.getPeriodicThread 1 () 3 10 1 (), .tick 3, .dispatch,
      .finish, .dispatch, .getCallbackThread 1 () 2 1 (), .stop true, .tick 4, .dispatch, .finish,
      .dispatch] = some p ∧ Accounted (fun t => decide (t ∈ [false, true])) p :=
  workers_accounted .rateMonotonic (fun _ => Thread.create 1 0 1 none) (by decide)
    [.getPeriodicThread 1 () 3 10 1 (), .tick 3, .dispatch, .finish, .dispatch,
      .getCallbackThread 1 () 2 1 (), .stop true, .tick 4, .dispatch, .finish, .dispatch]
    (by decide +kernel)

/-- A thread in the pool is stopped and is in it twice; and one that is stopped in the middle of
its job runs that job when it is assigned another one. -/
theorem stopped_twice_or_going_on :
    (∃ p, runTwo [.getCallbackThread 0 () 5 1 (), .stop false] = some p ∧
      ¬Accounted (fun t => decide (t ∈ [false, true])) p) ∧
    ∃ p, runTwo [.getCallbackThread 0 () 0 1 (), .dispatch, .stop true, .dispatch,
        .getCallbackThread 0 () 0 1 (), .dispatch] = some p ∧
      ¬Accounted (fun t => decide (t ∈ [false, true])) p := by
  constructor
  · have twice : (runTwo [.getCallbackThread 0 () 5 1 (), .stop false]).map (fun p =>
        decide (p.2.asked false = none ∧
          p.1.nonWorkingThreads.contents.count (some false) = 2)) = some true := by decide +kernel
    obtain ⟨p, ran, facts⟩ := Option.map_eq_some_iff.mp twice
    obtain ⟨free, count⟩ := of_decide_eq_true facts
    refine ⟨p, ran, fun accounted => ?_⟩
    have once := (accounted.pooled false rfl free).1
    rw [count] at once
    cases once
  · have stale : (runTwo [.getCallbackThread 0 () 0 1 (), .dispatch, .stop true, .dispatch,
        .getCallbackThread 0 () 0 1 (), .dispatch]).map (fun p =>
          decide (p.1.kernel.running = some true ∧ p.2.begun true ≠ p.2.assigned true)) =
        some true := by decide +kernel
    obtain ⟨p, ran, facts⟩ := Option.map_eq_some_iff.mp stale
    obtain ⟨runs, other⟩ := of_decide_eq_true facts
    exact ⟨p, ran, fun accounted => other (accounted.running true rfl runs).1⟩

end Examples

end Orcos.Guarantees.KernelWorkers
