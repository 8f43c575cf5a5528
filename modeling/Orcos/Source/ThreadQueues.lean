import Orcos.Lib.Sequences
import Orcos.Source.SingleCPUDispatcher

/-!
The dispatcher on sequences instead of linked lists.

What each operation is for, without pointers and without fuel: a thread is
moved to a place in one of the queues and leaves the one it was in, or it is
removed. `Orcos.Source.DispatcherRefinement` connects the operations of the
code to these.
-/
namespace Orcos.Source
open Orcos.Lib.Sequences Orcos.Lib.Walk

/-- The queues with the data of the threads and the one that runs. -/
structure Queues (τ : Type) where
  queue : QueueName → List τ
  threads : τ → Thread
  running : Option τ
  dispatching : Bool

namespace Queues

variable {τ : Type} [DecidableEq τ]

def start (threads : τ → Thread) : Queues τ := ⟨fun _ => [], threads, none, false⟩

def setThread (a : Queues τ) (t : τ) (thread : Thread) : Queues τ :=
  { a with threads := Function.update a.threads t thread }

def remove (a : Queues τ) (t : τ) : Queues τ :=
  { a with queue := fun k => (a.queue k).filter (· ≠ t) }

/-- Move a thread behind the last one in the queue that meets the condition. -/
def move (a : Queues τ) (t : τ) (q : QueueName) (p : τ → Bool) : Queues τ :=
  { a with
    queue := Function.update (a.remove t).queue q (insertBehind p t ((a.remove t).queue q)) }

def leave (a : Queues τ) (t : τ) : Queues τ :=
  if a.running = some t then { a with running := none, dispatching := true } else a

def addTail (a : Queues τ) (t : τ) (q : QueueName) : Queues τ := a.move t q fun _ => true

/-- Behind every thread that sleeps no longer. -/
def addSleeping (a : Queues τ) (t : τ) : Queues τ :=
  (a.move t .sleep fun u => (a.threads u).sleepTime ≤ (a.threads t).sleepTime).leave t

/-- Behind every thread of at least the same priority, in round robin at the end. -/
def addReady (cfg : SchedulerCfd) (a : Queues τ) (t : τ) : Queues τ :=
  match cfg with
  | .roundRobin _ => a.addTail t .ready
  | _ => a.move t .ready fun u =>
      (a.threads t).effectivePriority ≤ (a.threads u).effectivePriority

def putOff (a : Queues τ) (t : τ) (timePoint : Nat) : Queues τ :=
  a.setThread t (((a.threads t).setSleepTime timePoint).setReady false)

def sleep (a : Queues τ) (t : τ) (timePoint : Nat) : Queues τ :=
  (a.putOff t timePoint).addSleeping t

/-- The last thread on the sleep list that sleeps no longer is another one. -/
def FreeToSleep (a : Queues τ) (t : τ) : Prop :=
  (a.queue .sleep).reverse.find? (fun u => (a.threads u).sleepTime ≤ (a.threads t).sleepTime) ≠
    some t

instance (a : Queues τ) (t : τ) : Decidable (a.FreeToSleep t) :=
  inferInstanceAs (Decidable (_ ≠ _))

/-- The last thread in the queue of the scheduler of at least the same priority
is another one. -/
def FreeToEnter (a : Queues τ) (t : τ) : Prop :=
  (a.queue .ready).reverse.find? (fun u =>
    (a.threads t).effectivePriority ≤ (a.threads u).effectivePriority) ≠ some t

instance (a : Queues τ) (t : τ) : Decidable (a.FreeToEnter t) :=
  inferInstanceAs (Decidable (_ ≠ _))

omit [DecidableEq τ] in
theorem freeToSleep_of_notMem {a : Queues τ} {t : τ} (absent : t ∉ a.queue .sleep) :
    a.FreeToSleep t := fun found =>
  absent (List.mem_reverse.mp (List.mem_of_find?_eq_some found))

omit [DecidableEq τ] in
theorem freeToEnter_of_notMem {a : Queues τ} {t : τ} (absent : t ∉ a.queue .ready) :
    a.FreeToEnter t := fun found =>
  absent (List.mem_reverse.mp (List.mem_of_find?_eq_some found))

section Fields

variable (a : Queues τ) (t u : τ) (q k : QueueName) (p : τ → Bool) (thread : Thread)

@[simp] theorem setThread_queue : (a.setThread t thread).queue = a.queue := rfl
@[simp] theorem setThread_running : (a.setThread t thread).running = a.running := rfl
@[simp] theorem setThread_dispatching : (a.setThread t thread).dispatching = a.dispatching := rfl
@[simp] theorem setThread_threads :
    (a.setThread t thread).threads u = if u = t then thread else a.threads u :=
  Function.update_apply ..

theorem setThread_self : a.setThread t (a.threads t) = a := by
  rw [setThread, Function.update_eq_self]

@[simp] theorem remove_threads : (a.remove t).threads = a.threads := rfl
@[simp] theorem remove_running : (a.remove t).running = a.running := rfl
@[simp] theorem remove_dispatching : (a.remove t).dispatching = a.dispatching := rfl
@[simp] theorem mem_remove : u ∈ (a.remove t).queue k ↔ u ∈ a.queue k ∧ u ≠ t := by
  simp [remove]

@[simp] theorem move_threads : (a.move t q p).threads = a.threads := rfl
@[simp] theorem move_running : (a.move t q p).running = a.running := rfl
@[simp] theorem move_dispatching : (a.move t q p).dispatching = a.dispatching := rfl
@[simp] theorem mem_move :
    u ∈ (a.move t q p).queue k ↔ (u = t ∧ k = q) ∨ (u ∈ a.queue k ∧ u ≠ t) := by
  by_cases same : k = q
  · subst same
    simp [move]
  · simp [move, same]

theorem move_queue_of_ne (other : k ≠ q) :
    (a.move t q p).queue k = (a.queue k).filter (· ≠ t) := by
  rw [move]
  exact Function.update_of_ne other ..

/-- A thread may be removed before it is moved. -/
theorem move_remove : (a.remove t).move t q p = a.move t q p := by
  simp [move, remove, List.filter_filter]

@[simp] theorem leave_queue : (a.leave t).queue = a.queue := by
  rw [leave]
  split
  · rfl
  · rfl

@[simp] theorem leave_threads : (a.leave t).threads = a.threads := by
  rw [leave]
  split
  · rfl
  · rfl

@[simp] theorem leave_running :
    (a.leave t).running = if a.running = some t then none else a.running := by
  rw [leave]
  split
  · rfl
  · rfl

@[simp] theorem addTail_threads : (a.addTail t q).threads = a.threads := rfl
@[simp] theorem addTail_running : (a.addTail t q).running = a.running := rfl
@[simp] theorem mem_addTail :
    u ∈ (a.addTail t q).queue k ↔ (u = t ∧ k = q) ∨ (u ∈ a.queue k ∧ u ≠ t) := mem_move ..

@[simp] theorem addSleeping_threads : (a.addSleeping t).threads = a.threads := by
  rw [addSleeping, leave_threads, move_threads]

@[simp] theorem addSleeping_running :
    (a.addSleeping t).running = if a.running = some t then none else a.running := by
  rw [addSleeping, leave_running, move_running]

@[simp] theorem mem_addSleeping : u ∈ (a.addSleeping t).queue k ↔
    (u = t ∧ k = .sleep) ∨ (u ∈ a.queue k ∧ u ≠ t) := by
  rw [addSleeping, leave_queue, mem_move]

theorem sleep_queue_of_ne (timePoint : Nat) (other : k ≠ .sleep) :
    (a.sleep t timePoint).queue k = (a.queue k).filter (· ≠ t) := by
  rw [sleep, addSleeping, leave_queue, move_queue_of_ne _ _ _ _ _ other]
  rfl

variable (cfg : SchedulerCfd)

@[simp] theorem addReady_threads : (a.addReady cfg t).threads = a.threads := by
  cases cfg <;> rfl

@[simp] theorem addReady_running : (a.addReady cfg t).running = a.running := by
  cases cfg <;> rfl

@[simp] theorem addReady_dispatching : (a.addReady cfg t).dispatching = a.dispatching := by
  cases cfg <;> rfl

@[simp] theorem mem_addReady : u ∈ (a.addReady cfg t).queue k ↔
    (u = t ∧ k = .ready) ∨ (u ∈ a.queue k ∧ u ≠ t) := by
  cases cfg <;> exact mem_move ..

theorem addReady_queue_of_ne (other : k ≠ .ready) :
    (a.addReady cfg t).queue k = (a.queue k).filter (· ≠ t) := by
  cases cfg <;> exact move_queue_of_ne _ _ _ _ _ other

theorem addReady_remove : (a.remove t).addReady cfg t = a.addReady cfg t := by
  cases cfg <;> exact move_remove ..

theorem addSleeping_remove : (a.remove t).addSleeping t = a.addSleeping t := by
  rw [addSleeping, addSleeping, move_remove]
  rfl

end Fields

end Queues

/-- The time until which the scheduler puts an entering thread to sleep. -/
def SchedulerCfd.sleepsUntil (cfg : SchedulerCfd) (thread : Thread) : Option Nat :=
  match cfg with
  | .roundRobin _ => none
  | .rateMonotonic =>
    if thread.instanceNumber = 1 ∧ 0 < thread.sleepTime then some thread.sleepTime else none
  | .earliestDeadlineFirst =>
    if thread.instanceNumber = 1 ∧ 0 < thread.arrivalTime then some thread.arrivalTime else none

/-- The data of a thread after it entered, apart from falling asleep. -/
def SchedulerCfd.entered (cfg : SchedulerCfd) (thread : Thread) : Thread :=
  match cfg with
  | .rateMonotonic => if thread.instanceNumber = 1 then thread.computePriorityRM else thread
  | _ => thread

namespace Queues

variable {τ : Type} [DecidableEq τ] (cfg : SchedulerCfd)

def enter (a : Queues τ) (t : τ) : Queues τ :=
  let b := a.setThread t (cfg.entered (a.threads t))
  match cfg.sleepsUntil (a.threads t) with
  | some timePoint => b.sleep t timePoint
  | none => b.addReady cfg t

/-- The search for the place of a thread that enters does not stop at the thread itself. -/
def CanEnter (a : Queues τ) (t : τ) : Prop :=
  let b := a.setThread t (cfg.entered (a.threads t))
  match cfg, cfg.sleepsUntil (a.threads t) with
  | .roundRobin _, _ => True
  | _, some timePoint => (b.putOff t timePoint).FreeToSleep t
  | _, none => b.FreeToEnter t

instance (a : Queues τ) (t : τ) : Decidable (a.CanEnter cfg t) := by
  unfold CanEnter
  split <;> infer_instance

section Entered

variable (a : Queues τ) (t u : τ) {k : QueueName}

theorem canEnter_of_notMem (notReady : t ∉ a.queue .ready)
    (notAsleep : (cfg.sleepsUntil (a.threads t)).isSome → t ∉ a.queue .sleep) :
    a.CanEnter cfg t := by
  unfold CanEnter
  split
  case h_1 => trivial
  case h_2 sleeps =>
    rw [sleeps] at notAsleep
    exact freeToSleep_of_notMem (notAsleep rfl)
  case h_3 => exact freeToEnter_of_notMem notReady

/-- A thread enters the queue of the scheduler or falls asleep. -/
theorem enter_awake (stays : cfg.sleepsUntil (a.threads t) = none) :
    a.enter cfg t = (a.setThread t (cfg.entered (a.threads t))).addReady cfg t := by
  rw [enter, stays]

theorem enter_asleep {timePoint : Nat} (sleeps : cfg.sleepsUntil (a.threads t) = some timePoint) :
    a.enter cfg t = (a.setThread t (cfg.entered (a.threads t))).sleep t timePoint := by
  rw [enter, sleeps]

theorem enter_remove : (a.remove t).enter cfg t = a.enter cfg t := by
  have same : ∀ thread, (a.remove t).setThread t thread = (a.setThread t thread).remove t :=
    fun _ => rfl
  simp only [enter, remove_threads, same, addReady_remove]
  cases cfg.sleepsUntil (a.threads t) with
  | none => rfl
  | some timePoint =>
    have asleep : ∀ thread, ((a.setThread t (cfg.entered (a.threads t))).remove t).setThread t
        thread = ((a.setThread t (cfg.entered (a.threads t))).setThread t thread).remove t :=
      fun _ => rfl
    simp only [sleep, putOff, remove_threads, asleep, addSleeping_remove]

theorem enter_threads_of_ne {u : τ} (other : u ≠ t) :
    (a.enter cfg t).threads u = a.threads u := by
  cases sleeps : cfg.sleepsUntil (a.threads t) with
  | none => simp [enter_awake cfg a t sleeps, other]
  | some timePoint => simp [enter_asleep cfg a t sleeps, sleep, putOff, other]

theorem enter_queue_of_ne (notReady : k ≠ .ready) (notAsleep : k ≠ .sleep) :
    (a.enter cfg t).queue k = (a.queue k).filter (· ≠ t) := by
  cases sleeps : cfg.sleepsUntil (a.threads t) with
  | none =>
    rw [enter_awake cfg a t sleeps, addReady_queue_of_ne _ _ _ _ notReady, setThread_queue]
  | some timePoint =>
    rw [enter_asleep cfg a t sleeps, sleep_queue_of_ne _ _ _ _ notAsleep, setThread_queue]

end Entered

def computePriority (a : Queues τ) (t : τ) : Queues τ :=
  match cfg with
  | .roundRobin _ => a
  | .rateMonotonic => a.setThread t (a.threads t).computePriorityRM
  | .earliestDeadlineFirst => a.setThread t (a.threads t).computePriorityEDF

def headPriority (a : Queues τ) : Nat :=
  match (a.queue .ready).head? with
  | some t => (a.threads t).effectivePriority
  | none => 0

def awake (a : Queues τ) (t : τ) : Queues τ :=
  a.setThread t (((a.threads t).setReady true).setSleepTime 0)

/-- The rate monotonic scan ends at a thread that sleeps on and is to preempt
the next one. -/
def endsScan (a : Queues τ) (nextPriority : Nat) (t : τ) : Bool :=
  cfg = .rateMonotonic && (a.threads t).sleepTime ≤ maxUint8 &&
    nextPriority ≤ (a.threads t).effectivePriority

def visitSleeping (currentTime : Nat) (a : Queues τ × Nat) (t : τ) : Visit (Queues τ × Nat) :=
  if (a.1.threads t).sleepTime ≤ currentTime then
    let entered := enter cfg (a.1.awake t) t
    .next (entered, entered.headPriority)
  else if endsScan cfg a.1 a.2 t then .stop a
  else .next a

/-- The scheduler does not put a thread that wakes up to sleep again. -/
def Stays (a : Queues τ) (t : τ) : Prop :=
  cfg.sleepsUntil (((a.threads t).setReady true).setSleepTime 0) = none

instance (a : Queues τ) (t : τ) : Decidable (Stays cfg a t) :=
  inferInstanceAs (Decidable (_ = _))

/-- Each thread whose time has come stays awake. -/
def Wakes (a : Queues τ) (currentTime : Nat) : Prop :=
  ∀ t ∈ a.queue .sleep, (a.threads t).sleepTime ≤ currentTime → Stays cfg a t

instance (a : Queues τ) (currentTime : Nat) : Decidable (Wakes cfg a currentTime) :=
  inferInstanceAs (Decidable (∀ t ∈ a.queue .sleep, _ → _))

/-- What `getNextTimerEvent` does to the threads. -/
def getNextTimerEvent (a : Queues τ) (currentTime : Nat) : Queues τ :=
  (walkList (visitSleeping cfg currentTime) (a, a.headPriority) (a.queue .sleep)).1

/-- The earlier of a time and the wake-up of a thread, when that is to preempt
the thread that is next. -/
def sooner (a : Queues τ) (sleeptime : Nat) (t : τ) : Nat :=
  if (a.threads t).sleepTime < sleeptime ∧ a.headPriority < (a.threads t).effectivePriority then
    (a.threads t).sleepTime
  else sleeptime

def nextEvent (a : Queues τ) : Nat := (a.queue .sleep).foldl a.sooner maxUint8

def preempt (a : Queues τ) : Queues τ :=
  match a.running with
  | some t => enter cfg { a with running := none } t
  | none => a

def runNext (a : Queues τ) : Queues τ :=
  match (a.queue .ready).head? with
  | some t =>
    setThread { a.remove t with running := some t, dispatching := false } t
      { (a.threads t).setNew false with instanceNumber := (a.threads t).instanceNumber + 1 }
  | none => { a with running := none, dispatching := false }

def dispatch (a : Queues τ) (currentTime : Nat) : Queues τ :=
  (getNextTimerEvent cfg (preempt cfg a) currentTime).runNext

def run (a : Queues τ) (t : τ) : Queues τ :=
  enter cfg (a.setThread t ((a.threads t).setReady true)) t

def dispatcherBlock (a : Queues τ) (t : τ) : Queues τ := (a.addTail t .blocked).leave t

def block (a : Queues τ) (t : τ) : Queues τ :=
  dispatcherBlock (a.setThread t (((a.threads t).setReady false).setBlocked true)) t

def dispatcherUnblock (a : Queues τ) (t : τ) : Queues τ :=
  if 0 < (a.threads t).sleepTime then a.addTail t .sleep else enter cfg (a.remove t) t

def unblock (a : Queues τ) (t : τ) : Queues τ :=
  if (a.threads t).isBlocked then
    let a := a.setThread t ((a.threads t).setBlocked false)
    if (a.threads t).isStopped then a
    else dispatcherUnblock cfg (a.setThread t ((a.threads t).setReady true)) t
  else a

def stop (a : Queues τ) (t : τ) : Queues τ :=
  let a := a.setThread t ((a.threads t).setStopped true)
  if (a.threads t).isBlocked then a else dispatcherBlock a t

def resume (a : Queues τ) (t : τ) : Queues τ :=
  let a := a.setThread t ((a.threads t).setStopped false)
  if (a.threads t).isBlocked then a
  else dispatcherUnblock cfg (a.setThread t ((a.threads t).setReady true)) t

def sigwait (a : Queues τ) (signaltype : SignalType) (t : τ) (sig : Nat) : Queues τ :=
  let waiting := (({ a.threads t with signal := sig }).setReady false).setSignal true
  ((a.setThread t waiting).addTail t signaltype.list).leave t

/-- The data of a thread that is woken by a signal. -/
def signalled (a : Queues τ) (t : τ) (sigvalue : Int) : Queues τ :=
  a.setThread t { (a.threads t).setSignal false with signalvalue := sigvalue }

/-- Where a thread that was signalled goes, unless it is stopped. -/
def wake (a : Queues τ) (t : τ) : Queues τ :=
  if (a.threads t).isBlocked then a.addTail t .blocked
  else if 0 < (a.threads t).sleepTime then a.addTail t .sleep
  else enter cfg a t

theorem wake_queue_of_ne (a : Queues τ) (t : τ) {k : QueueName} (notReady : k ≠ .ready)
    (notAsleep : k ≠ .sleep) (notBlocked : k ≠ .blocked) :
    (wake cfg a t).queue k = (a.queue k).filter (· ≠ t) := by
  unfold wake
  split
  · exact move_queue_of_ne _ _ _ _ _ notBlocked
  · split
    · exact move_queue_of_ne _ _ _ _ _ notAsleep
    · exact enter_queue_of_ne cfg a t notReady notAsleep

theorem wake_threads_of_ne (a : Queues τ) {t u : τ} (other : u ≠ t) :
    (wake cfg a t).threads u = a.threads u := by
  unfold wake
  split
  · rfl
  · split
    · rfl
    · exact enter_threads_of_ne cfg a t other

def visitWaiting (sig : Nat) (sigvalue : Int) (a : Queues τ) (t : τ) : Visit (Queues τ) :=
  if (a.threads t).signal = sig then
    if (a.threads t).isStopped then .next (a.signalled t sigvalue)
    else .next (wake cfg (a.signalled t sigvalue) t)
  else .next a

def signal (a : Queues τ) (signaltype : SignalType) (sig : Nat) (sigvalue : Int) : Queues τ :=
  walkList (visitWaiting cfg sig sigvalue) a (a.queue signaltype.list)

def pushPriority (a : Queues τ) (t : τ) (newPriority m : Nat) : Queues τ :=
  let (priority, entered) := (a.threads t).priority.pushPriority newPriority m
  let a := a.setThread t { a.threads t with priority := priority }
  if entered then enter cfg (a.remove t) t else a

def popPriority (a : Queues τ) (t : τ) (m : Nat) : Queues τ :=
  a.setThread t { a.threads t with priority := ((a.threads t).priority.popPriority m).1 }

def softTerminate (a : Queues τ) (t : τ) : Queues τ :=
  a.setThread t { a.threads t with status := { (a.threads t).status with doTerm := true } }

def dispatcherTerminateThread (a : Queues τ) (t : τ) : Queues τ := (a.remove t).leave t

/-- The threads when the end of one of them is signalled. -/
def ended (a : Queues τ) (t : τ) : Queues τ :=
  (a.setThread t { a.threads t with status := { Status.clear with term := true } }).remove t

def terminate (a : Queues τ) (t : τ) : Queues τ :=
  signal cfg (a.ended t) .generic (Kernel.childTerminated (a.threads t).owner) cOk

/-- The thread goes on with another instance instead of ending. -/
def renews (thread : Thread) : Bool := 0 < thread.period && !thread.status.doTerm

def renewed (a : Queues τ) (t : τ) : Queues τ :=
  computePriority cfg (a.setThread t (a.threads t).renew) t

def realTimeTerminate (a : Queues τ) (t : τ) : Queues τ :=
  if renews (a.threads t) then
    (renewed cfg a t).sleep t ((renewed cfg a t).threads t).arrivalTime
  else terminate cfg a t

def terminateThread (a : Queues τ) (t : τ) : Queues τ :=
  let a := realTimeTerminate cfg a t
  if a.dispatching then a else a.dispatcherTerminateThread t

def perform (a : Queues τ) : Kernel.Event τ → Queues τ
  | .run t => run cfg a t
  | .computePriority t => computePriority cfg a t
  | .sleep t timePoint => a.sleep t timePoint
  | .block t => block a t
  | .unblock t => unblock cfg a t
  | .stop t => stop a t
  | .resume t => resume cfg a t
  | .sigwait signaltype t sig => sigwait a signaltype t sig
  | .signal signaltype sig sigvalue => signal cfg a signaltype sig sigvalue
  | .pushPriority t newPriority m => pushPriority cfg a t newPriority m
  | .popPriority t m => popPriority a t m
  | .softTerminate t => softTerminate a t
  | .terminateThread t => terminateThread cfg a t
  | .dispatch currentTime => dispatch cfg a currentTime

def step (a : Queues τ) (event : Kernel.Event τ) : Queues τ :=
  if a.dispatching && !event.isDispatch then a else perform cfg a event

/-- What holds before a step and after the operation holds after the step. -/
theorem step_rule {p : Queues τ → Prop} {a : Queues τ} {event : Kernel.Event τ} (before : p a)
    (performed : p (a.perform cfg event)) : p (a.step cfg event) := by
  rw [step]
  split
  · exact before
  · exact performed

section Absent

variable {cfg} {a : Queues τ} {t u : τ}

/-- While a dispatch is due no thread runs. -/
def Idle (a : Queues τ) : Prop := a.dispatching = true → a.running = none

theorem Idle.leave (idle : a.Idle) : (a.leave t).Idle := by
  unfold Queues.leave
  split
  · exact fun _ => rfl
  · exact idle

theorem Idle.enter (idle : a.Idle) : (a.enter cfg t).Idle := by
  cases sleeps : cfg.sleepsUntil (a.threads t) with
  | none =>
    rw [enter_awake cfg a t sleeps, Idle, addReady_dispatching,
      addReady_running]
    exact idle
  | some timePoint =>
    rw [enter_asleep cfg a t sleeps]
    exact Idle.leave (a := move _ t .sleep _) idle

theorem Idle.wake (idle : a.Idle) : (a.wake cfg t).Idle := by
  unfold Queues.wake
  split
  · exact idle
  · split
    · exact idle
    · exact idle.enter

theorem mem_enter {q : QueueName} (member : u ∈ (a.enter cfg t).queue q) :
    u = t ∨ u ∈ a.queue q := by
  cases sleeps : cfg.sleepsUntil (a.threads t) with
  | none =>
    rw [enter_awake cfg a t sleeps, mem_addReady] at member
    exact member.imp And.left And.left
  | some timePoint =>
    rw [enter_asleep cfg a t sleeps, sleep, mem_addSleeping] at member
    exact member.imp And.left And.left

theorem mem_wake {q : QueueName} (member : u ∈ (a.wake cfg t).queue q) :
    u = t ∨ u ∈ a.queue q := by
  unfold wake at member
  split at member
  · exact (mem_addTail a t u .blocked q |>.mp member).imp And.left And.left
  · split at member
    · exact (mem_addTail a t u .sleep q |>.mp member).imp And.left And.left
    · exact mem_enter member

variable (cfg) in
/-- A thread that is in no queue when a signal is raised is in none afterwards. -/
theorem signal_absent (idle : a.Idle) (absent : ∀ q, t ∉ a.queue q) (signaltype : SignalType)
    (sig : Nat) (sigvalue : Int) :
    (a.signal cfg signaltype sig sigvalue).Idle ∧
      ∀ q, t ∉ (a.signal cfg signaltype sig sigvalue).queue q := by
  have others : ∀ v ∈ a.queue signaltype.list, v ≠ t := fun v member same =>
    absent _ (same ▸ member)
  refine (walkList_invariant (fun b rest => (∀ v ∈ rest, v ≠ t) ∧ b.Idle ∧ ∀ q, t ∉ b.queue q) ?_ _
    a ⟨others, idle, absent⟩).2
  rintro b v rest ⟨others, idle, absent⟩
  have later : ∀ w ∈ rest, w ≠ t := fun w member => others w (.tail _ member)
  refine .inl ?_
  rw [visitWaiting]
  split
  · split
    · exact ⟨_, rfl, later, idle, absent⟩
    · refine ⟨_, rfl, later, Idle.wake (a := b.signalled v sigvalue) idle, fun q member => ?_⟩
      rcases mem_wake member with same | there
      · exact others v (.head _) same.symm
      · exact absent q there
  · exact ⟨b, rfl, later, idle, absent⟩

end Absent

end Queues

end Orcos.Source
