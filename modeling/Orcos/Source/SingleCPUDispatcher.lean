import Mathlib.Data.Fintype.Card
import Orcos.Lib.Chain
import Orcos.Source.PriorityThread

/-!
# The dispatcher, the schedulers and the threads

Source: src/source/scheduler/SingleCPUDispatcher.cc, ListScheduler.hh,
RoundRobinThreadScheduler.cc, RateMonotonicThreadScheduler.cc,
EarliestDeadlineFirstThreadScheduler.cc; src/source/process/Thread.cc,
RealTimeThread.cc and PriorityThread.cc; `terminateThread` of
src/source/process/TaskManager.cc and `sc_thread_terminate` of
src/source/syscalls/sc_common.cc.

The scheduler's `database` and the lists of the dispatcher are linked lists of
thread items. A call of `dispatch` that ends another operation is a step of its
own: the operation leaves no thread running and `dispatching` set, and nothing
but the dispatch can follow. Every loop over a list takes fuel; the answer is
`none` when it does not end. The low latency path of the timer, rescheduling
requests, the programmed timer, traces and the list `irqwaitList`, to which
nothing is added, are left out.
-/
namespace Orcos.Source
open Orcos.Lib.Walk Orcos.Source.LinkedList

/-- The scheduler that is configured, with the time slice `RRTimeSlice` of the
first one in clock cycles; all three keep one queue. -/
inductive SchedulerCfd
  | roundRobin (rrTimeSlice : Nat)
  | rateMonotonic
  | earliestDeadlineFirst
  deriving DecidableEq

inductive QueueName
  | ready
  | sleep
  | blocked
  | wait
  | condwait
  deriving DecidableEq

/-- `SIGNAL_GENERIC` and `SIGNAL_COND`. -/
inductive SignalType
  | generic
  | cond
  deriving DecidableEq

/-- The list on which threads wait for a signal of this type. -/
def SignalType.list : SignalType → QueueName
  | .generic => .wait
  | .cond => .condwait

structure Kernel (τ : Type) where
  heap : Heap τ τ QueueName
  threads : τ → Thread
  running : Option τ
  dispatching : Bool

namespace Kernel

variable {τ : Type} [DecidableEq τ]

/-- After the constructors, with all threads that there will be. -/
def start (threads : τ → Thread) : Kernel τ := ⟨Heap.fresh id, threads, none, false⟩

def setThread (s : Kernel τ) (t : τ) (thread : Thread) : Kernel τ :=
  { s with threads := Function.update s.threads t thread }

/-- The end of an operation that takes the processor from its thread. -/
def leave (s : Kernel τ) (t : τ) : Kernel τ :=
  if s.running = some t then { s with running := none, dispatching := true } else s

/-- `SingleCPUDispatcher::sleep`. -/
def dispatcherSleep (fuel : Nat) (s : Kernel τ) (t : τ) : Option (Kernel τ) :=
  match search s.heap.pred (fun u => (s.threads u).sleepTime ≤ (s.threads t).sleepTime) fuel
      (getTail s.heap .sleep) with
  | none => none
  | some (some sItem) =>
    some (leave { s with heap := (insertAfter s.heap .sleep t sItem).1 } t)
  | some none => some (leave { s with heap := (addHead s.heap .sleep t).1 } t)

/-- `Thread::sleep`. -/
def sleep (fuel : Nat) (s : Kernel τ) (t : τ) (timePoint : Nat) : Option (Kernel τ) :=
  dispatcherSleep fuel (s.setThread t (((s.threads t).setSleepTime timePoint).setReady false)) t

/-- `PriorityThreadScheduler::enter` on the queue of the scheduler. -/
def enterByPriority (fuel : Nat) (s : Kernel τ) (t : τ) : Option (Kernel τ) :=
  (PriorityThreadScheduler.enter ⟨s.heap, fun u => (s.threads u).effectivePriority⟩ .ready t
    fuel).map fun entered => { s with heap := entered.1.heap }

/-- `SchedulerCfd->enter`. -/
def enter (cfg : SchedulerCfd) (fuel : Nat) (s : Kernel τ) (t : τ) : Option (Kernel τ) :=
  match cfg with
  | .roundRobin _ => some { s with heap := (addTail s.heap .ready t).1 }
  | .rateMonotonic =>
    if (s.threads t).instanceNumber = 1 then
      let s := s.setThread t (s.threads t).computePriorityRM
      if 0 < (s.threads t).sleepTime then sleep fuel s t (s.threads t).sleepTime
      else enterByPriority fuel s t
    else enterByPriority fuel s t
  | .earliestDeadlineFirst =>
    if (s.threads t).instanceNumber = 1 ∧ 0 < (s.threads t).arrivalTime then
      sleep fuel s t (s.threads t).arrivalTime
    else enterByPriority fuel s t

/-- `SchedulerCfd->computePriority`. -/
def computePriority (cfg : SchedulerCfd) (s : Kernel τ) (t : τ) : Kernel τ :=
  match cfg with
  | .roundRobin _ => s
  | .rateMonotonic => s.setThread t (s.threads t).computePriorityRM
  | .earliestDeadlineFirst => s.setThread t (s.threads t).computePriorityEDF

section GetNextTimerEvent

/-- The priority of the thread at the head of the scheduler's queue. -/
def headPriority (s : Kernel τ) : Nat :=
  match getHead s.heap .ready with
  | some t => (s.threads t).effectivePriority
  | none => 0

/-- A thread whose time has come gets ready. -/
def awake (s : Kernel τ) (t : τ) : Kernel τ :=
  s.setThread t (((s.threads t).setReady true).setSleepTime 0)

/-- The body of the loop of `RoundRobinThreadScheduler::getNextTimerEvent`, with
the shortest sleep time so far. -/
def visitRoundRobin (rrTimeSlice fuel currentTime : Nat) (s : Kernel τ × Nat) (t : τ) :
    Option (Visit (Kernel τ × Nat)) :=
  if (s.1.threads t).sleepTime ≤ currentTime then
    (enter (.roundRobin rrTimeSlice) fuel (s.1.awake t) t).map fun entered => .next (entered, s.2)
  else if (s.1.threads t).sleepTime < s.2 then
    some (.next (s.1, (s.1.threads t).sleepTime))
  else some (.next s)

/-- The body of the loop of `RateMonotonicThreadScheduler::getNextTimerEvent`,
with `nextPriority` and the time to be returned. The list item is removed
before it is entered. -/
def visitRateMonotonic (fuel currentTime : Nat) (s : Kernel τ × Nat × Nat) (t : τ) :
    Option (Visit (Kernel τ × Nat × Nat)) :=
  if (s.1.threads t).sleepTime ≤ currentTime then
    let removed := { s.1.awake t with heap := removeFromHost s.1.heap t }
    (enter .rateMonotonic fuel removed t).map fun entered =>
      .next (entered, headPriority entered, s.2.2)
  else if (s.1.threads t).sleepTime ≤ s.2.2 ∧ s.2.1 ≤ (s.1.threads t).effectivePriority then
    some (.stop (s.1, s.2.1, (s.1.threads t).sleepTime))
  else some (.next s)

/-- The body of the first loop of
`EarliestDeadlineFirstThreadScheduler::getNextTimerEvent`. -/
def visitEarliestDeadline (fuel currentTime : Nat) (s : Kernel τ) (t : τ) :
    Option (Visit (Kernel τ)) :=
  if (s.threads t).sleepTime ≤ currentTime then
    (enter .earliestDeadlineFirst fuel (s.awake t) t).map .next
  else some (.next s)

/-- The body of the second loop, with `nextPriority` and the time so far. -/
def visitSleeping (s : Kernel τ) (nextPriority : Nat) (sleeptime : Nat) (t : τ) :
    Option (Visit Nat) :=
  if (s.threads t).sleepTime < sleeptime ∧ nextPriority < (s.threads t).effectivePriority then
    some (.next (s.threads t).sleepTime)
  else some (.next sleeptime)

/-- `SchedulerCfd->getNextTimerEvent` on the sleep list of the dispatcher. -/
def getNextTimerEvent (cfg : SchedulerCfd) (fuel : Nat) (s : Kernel τ) (currentTime : Nat) :
    Option (Kernel τ × Nat) :=
  match cfg with
  | .roundRobin rrTimeSlice =>
    (walk (fun s t => s.1.heap.succ t) (visitRoundRobin rrTimeSlice fuel currentTime) fuel
      (s, 0x0fffffffffffffff) (getHead s.heap .sleep)).map fun walked =>
        (walked.1, if isEmpty walked.1.heap .ready then walked.2 else rrTimeSlice)
  | .rateMonotonic =>
    (walk (fun s t => s.1.heap.succ t) (visitRateMonotonic fuel currentTime) fuel
      (s, headPriority s, maxUint8) (getHead s.heap .sleep)).map fun walked =>
        (walked.1, walked.2.2)
  | .earliestDeadlineFirst =>
    if isEmpty s.heap .sleep then some (s, maxUint8)
    else
      (walk (fun s t => s.heap.succ t) (visitEarliestDeadline fuel currentTime) fuel s
        (getHead s.heap .sleep)).bind fun s =>
          (walk (fun _ t => s.heap.succ t) (visitSleeping s (headPriority s)) fuel maxUint8
            (getHead s.heap .sleep)).map fun sleeptime => (s, sleeptime)

end GetNextTimerEvent

section Dispatch

/-- The first part of `dispatch`: the running thread is entered again. -/
def preempt (cfg : SchedulerCfd) (fuel : Nat) (s : Kernel τ) : Option (Kernel τ) :=
  match s.running with
  | some t => enter cfg fuel { s with running := none } t
  | none => some s

/-- The last part of `dispatch`: `SchedulerCfd->getNext()`, and the thread runs.
`callMain` clears the new flag. -/
def runNext (s : Kernel τ) : Kernel τ :=
  match removeHead s.heap .ready with
  | (heap, some t) =>
    setThread { s with heap := heap, running := some t, dispatching := false } t
      { (s.threads t).setNew false with instanceNumber := (s.threads t).instanceNumber + 1 }
  | (heap, none) => { s with heap := heap, running := none, dispatching := false }

/-- `SingleCPUDispatcher::dispatch` at a time. -/
def dispatch (cfg : SchedulerCfd) (fuel : Nat) (s : Kernel τ) (currentTime : Nat) :
    Option (Kernel τ) :=
  (preempt cfg fuel s).bind fun s =>
    (getNextTimerEvent cfg fuel s currentTime).map fun event => runNext event.1

end Dispatch

section Operations

/-- `Thread::run`. -/
def run (cfg : SchedulerCfd) (fuel : Nat) (s : Kernel τ) (t : τ) : Option (Kernel τ) :=
  enter cfg fuel (s.setThread t ((s.threads t).setReady true)) t

/-- `SingleCPUDispatcher::block`. -/
def dispatcherBlock (s : Kernel τ) (t : τ) : Kernel τ :=
  leave { s with heap := (addTail s.heap .blocked t).1 } t

/-- `Thread::block`. -/
def block (s : Kernel τ) (t : τ) : Kernel τ :=
  dispatcherBlock (s.setThread t (((s.threads t).setReady false).setBlocked true)) t

/-- `SingleCPUDispatcher::unblock`. -/
def dispatcherUnblock (cfg : SchedulerCfd) (fuel : Nat) (s : Kernel τ) (t : τ) :
    Option (Kernel τ) :=
  let s := { s with heap := removeFromHost s.heap t }
  if 0 < (s.threads t).sleepTime then some { s with heap := (addTail s.heap .sleep t).1 }
  else enter cfg fuel s t

/-- `Thread::unblock`. -/
def unblock (cfg : SchedulerCfd) (fuel : Nat) (s : Kernel τ) (t : τ) : Option (Kernel τ) :=
  if !(s.threads t).isBlocked then some s
  else
    let s := s.setThread t ((s.threads t).setBlocked false)
    if !(s.threads t).isStopped then
      dispatcherUnblock cfg fuel (s.setThread t ((s.threads t).setReady true)) t
    else some s

/-- `Thread::stop`. -/
def stop (s : Kernel τ) (t : τ) : Kernel τ :=
  let s := s.setThread t ((s.threads t).setStopped true)
  if !(s.threads t).isBlocked then dispatcherBlock s t else s

/-- `Thread::resume`. -/
def resume (cfg : SchedulerCfd) (fuel : Nat) (s : Kernel τ) (t : τ) : Option (Kernel τ) :=
  let s := s.setThread t ((s.threads t).setStopped false)
  if !(s.threads t).isBlocked then
    dispatcherUnblock cfg fuel (s.setThread t ((s.threads t).setReady true)) t
  else some s

/-- `Thread::sigwait` and `SingleCPUDispatcher::sigwait`. -/
def sigwait (s : Kernel τ) (signaltype : SignalType) (t : τ) (sig : Nat) : Kernel τ :=
  let waiting := (({ s.threads t with signal := sig }).setReady false).setSignal true
  let s := s.setThread t waiting
  leave { s with heap := (addTail s.heap signaltype.list t).1 } t

/-- The body of the loop of `SingleCPUDispatcher::signal`. A thread on the list
is not the running one, so that `enter` does not dispatch here. -/
def visitWaiting (cfg : SchedulerCfd) (fuel sig : Nat) (sigvalue : Int) (s : Kernel τ) (t : τ) :
    Option (Visit (Kernel τ)) :=
  if (s.threads t).signal = sig then
    let s := s.setThread t { (s.threads t).setSignal false with signalvalue := sigvalue }
    if !(s.threads t).isStopped then
      if (s.threads t).isBlocked then
        some (.next { s with heap := (addTail s.heap .blocked t).1 })
      else if 0 < (s.threads t).sleepTime then
        some (.next { s with heap := (addTail s.heap .sleep t).1 })
      else (enter cfg fuel s t).map .next
    else some (.next s)
  else some (.next s)

/-- `SingleCPUDispatcher::signal` and `signalCond`. -/
def signal (cfg : SchedulerCfd) (fuel : Nat) (s : Kernel τ) (signaltype : SignalType) (sig : Nat)
    (sigvalue : Int) : Option (Kernel τ) :=
  walk (fun s t => s.heap.succ t) (visitWaiting cfg fuel sig sigvalue) fuel s
    (getHead s.heap signaltype.list)

/-- `PriorityThread::pushPriority`. -/
def pushPriority (cfg : SchedulerCfd) (fuel : Nat) (s : Kernel τ) (t : τ) (newPriority m : Nat) :
    Option (Kernel τ) :=
  let (priority, entered) := (s.threads t).priority.pushPriority newPriority m
  let s := s.setThread t { s.threads t with priority := priority }
  if entered then enter cfg fuel { s with heap := removeFromHost s.heap t } t else some s

/-- `PriorityThread::popPriority`. -/
def popPriority (s : Kernel τ) (t : τ) (m : Nat) : Kernel τ :=
  s.setThread t { s.threads t with priority := ((s.threads t).priority.popPriority m).1 }

/-- `sc_thread_terminate` with `TERM_SOFT`. -/
def softTerminate (s : Kernel τ) (t : τ) : Kernel τ :=
  s.setThread t { s.threads t with status := { (s.threads t).status with doTerm := true } }

/-- `SIGNAL_SPACE_TASK(owner) | SIG_CHILD_TERMINATED`. -/
def childTerminated (owner : Nat) : Nat := (owner &&& 0xff) <<< 16 ||| 1

/-- `SingleCPUDispatcher::terminate_thread`. -/
def dispatcherTerminateThread (s : Kernel τ) (t : τ) : Kernel τ :=
  leave { s with heap := removeFromHost s.heap t } t

/-- `Thread::terminate`. -/
def terminate (cfg : SchedulerCfd) (fuel : Nat) (s : Kernel τ) (t : τ) : Option (Kernel τ) :=
  let s := s.setThread t { s.threads t with status := { Status.clear with term := true } }
  signal cfg fuel { s with heap := removeFromHost s.heap t } .generic
    (childTerminated (s.threads t).owner) cOk

/-- `RealTimeThread::terminate`: a periodic thread sleeps until its next instance. -/
def realTimeTerminate (cfg : SchedulerCfd) (fuel : Nat) (s : Kernel τ) (t : τ) :
    Option (Kernel τ) :=
  if 0 < (s.threads t).period ∧ (s.threads t).status.doTerm = false then
    let s := computePriority cfg (s.setThread t (s.threads t).renew) t
    sleep fuel s t (s.threads t).arrivalTime
  else terminate cfg fuel s t

/-- `TaskManager::terminateThread`. When the running thread has put itself to
sleep, the rest of the function is not reached. -/
def terminateThread (cfg : SchedulerCfd) (fuel : Nat) (s : Kernel τ) (t : τ) :
    Option (Kernel τ) :=
  (realTimeTerminate cfg fuel s t).map fun s =>
    if s.dispatching then s else dispatcherTerminateThread s t

end Operations

/-- What can happen to the threads, in any order. -/
inductive Event (τ : Type)
  | run (t : τ)
  | computePriority (t : τ)
  | sleep (t : τ) (timePoint : Nat)
  | block (t : τ)
  | unblock (t : τ)
  | stop (t : τ)
  | resume (t : τ)
  | sigwait (signaltype : SignalType) (t : τ) (sig : Nat)
  | signal (signaltype : SignalType) (sig : Nat) (sigvalue : Int)
  | pushPriority (t : τ) (newPriority m : Nat)
  | popPriority (t : τ) (m : Nat)
  | softTerminate (t : τ)
  | terminateThread (t : τ)
  | dispatch (currentTime : Nat)

def perform (cfg : SchedulerCfd) (fuel : Nat) (s : Kernel τ) : Event τ → Option (Kernel τ)
  | .run t => run cfg fuel s t
  | .computePriority t => some (computePriority cfg s t)
  | .sleep t timePoint => sleep fuel s t timePoint
  | .block t => some (block s t)
  | .unblock t => unblock cfg fuel s t
  | .stop t => some (stop s t)
  | .resume t => resume cfg fuel s t
  | .sigwait signaltype t sig => some (sigwait s signaltype t sig)
  | .signal signaltype sig sigvalue => signal cfg fuel s signaltype sig sigvalue
  | .pushPriority t newPriority m => pushPriority cfg fuel s t newPriority m
  | .popPriority t m => some (popPriority s t m)
  | .softTerminate t => some (softTerminate s t)
  | .terminateThread t => terminateThread cfg fuel s t
  | .dispatch currentTime => dispatch cfg fuel s currentTime

def Event.isDispatch : Event τ → Bool
  | .dispatch _ => true
  | _ => false

/-- The thread an event is addressed to. -/
def Event.thread : Event τ → Option τ
  | .run t | .computePriority t | .sleep t _ | .block t | .unblock t | .stop t | .resume t
  | .sigwait _ t _ | .pushPriority t _ _ | .popPriority t _ | .softTerminate t
  | .terminateThread t => some t
  | .signal .. | .dispatch _ => none

/-- One step; while a dispatch is due nothing else happens. -/
def step (cfg : SchedulerCfd) (fuel : Nat) (s : Kernel τ) (event : Event τ) :
    Option (Kernel τ) :=
  if s.dispatching && !event.isDispatch then some s else perform cfg fuel s event

section Runs

variable [Fintype τ]

/-- A run, with enough fuel to visit every thread in each loop. -/
def exec (cfg : SchedulerCfd) (s : Kernel τ) (events : List (Event τ)) : Option (Kernel τ) :=
  events.foldlM (step cfg (Fintype.card τ)) s

/-- The threads on a list in the order of the links. -/
def list (s : Kernel τ) (q : QueueName) : List τ :=
  follow s.heap.succ (Fintype.card τ) (getHead s.heap q)

end Runs

end Kernel

end Orcos.Source

/-! ## Time-outs of blocked threads

Source: src/source/kernel/KernelServiceThread.cc, the loop over the blocked list in
`callbackFunc`; src/source/process/Thread.hh, `blockTimeout`.

The link of an item is read after its visit, when `unblock` may have moved it to another
list. The loop takes as many rounds as it is given and answers `none` when they do not suffice.
-/
namespace Orcos.Source
open Orcos.Source.LinkedList

/-- The kernel and the time-out of each thread, 0 when none is set. -/
structure Timeouts (τ : Type) where
  kernel : Kernel τ
  blockTimeout : τ → Nat

namespace Timeouts

variable {τ : Type} [DecidableEq τ]

/-- The two tests of the loop. -/
def isDue (s : Timeouts τ) (now : Nat) (t : τ) : Bool :=
  ((s.kernel.threads t).isBlocked && decide (0 < s.blockTimeout t)) &&
    decide (s.blockTimeout t ≤ now)

/-- The body of the loop. -/
def visit (cfg : SchedulerCfd) (fuel now : Nat) (s : Timeouts τ) (t : τ) : Option (Timeouts τ) :=
  if s.isDue now t then
    (s.kernel.unblock cfg fuel t).map fun kernel =>
      ⟨kernel, Function.update s.blockTimeout t 0⟩
  else some s

/-- The loop from an item on, with the threads it visits. -/
def loop (cfg : SchedulerCfd) (fuel now : Nat) :
    Nat → Timeouts τ → Option τ → Option (Timeouts τ × List τ)
  | _, s, none => some (s, [])
  | 0, _, some _ => none
  | rounds + 1, s, some t =>
    (visit cfg fuel now s t).bind fun s =>
      (loop cfg fuel now rounds s (s.kernel.heap.succ t)).map fun (s, visited) => (s, t :: visited)

/-- The part of `callbackFunc` between `lock` and `unlock`. -/
def serve [Fintype τ] (cfg : SchedulerCfd) (rounds : Nat) (s : Timeouts τ) (now : Nat) :
    Option (Timeouts τ × List τ) :=
  loop cfg (Fintype.card τ) now rounds s (getHead s.kernel.heap .blocked)

end Timeouts

end Orcos.Source
