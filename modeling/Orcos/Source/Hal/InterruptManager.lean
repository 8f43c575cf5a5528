import Mathlib.Data.BitVec
import Mathlib.Data.Fintype.Card
import Mathlib.Data.Fintype.List
import Orcos.Source.DispatcherSteps

/-!
# Interrupts and the threads that wait for them

Source: src/source/hal/InterruptManager.cc, InterruptManager.hh; `sc_waitirq` of
src/source/syscalls/sc_process.cc; `getIRQThread` of src/source/process/KernelTask.cc and the
part of `callMain` of KernelThread.cc that is about interrupts; `block` and `unblock` of
Thread.cc and SingleCPUDispatcher.cc.

A thread has one linked list item, for the lists of the dispatcher as for those of the
interrupt table. Blocking and unblocking are those of the kernel, over one heap for the lists of
both. Whose turn it is to run, what drivers and the interrupt controller do with
the hardware, names and traces are left out. What lies behind the table is at index 256 and
beyond; worker threads are in use.
-/
namespace Orcos.Source.Hal
open Orcos.Lib.Walk Orcos.Source.LinkedList

abbrev irqMax : Nat := 256

/-- `IRQ_NOTHREAD`. -/
def irqNoThread : BitVec 32 := 2

/-- A list of the dispatcher, or that of an entry of the interrupt table. -/
inductive ThreadList
  | queue (q : QueueName)
  | waitingThreads (irq : Nat)
  deriving DecidableEq

/-- The other members of an entry, for drivers `δ` and threads `τ`. -/
structure IrqHandler (τ δ : Type) where
  driver : Option δ
  priority : Nat
  triggerCount : BitVec 32
  flags : BitVec 32
  pWThread : Option τ

/-- All zero. -/
def IrqHandler.clear {τ δ : Type} : IrqHandler τ δ := ⟨none, 0, 0, 0, none⟩

/-- The members of a driver that the interrupt manager uses. -/
structure Driver where
  hasAssignedWorkerThread : Bool
  interruptPending : Bool

structure Interrupts (τ δ : Type) where
  heap : Heap τ τ ThreadList
  threads : τ → Thread
  irqTable : Nat → IrqHandler τ δ
  drivers : δ → Driver
  nonWorkingThreads : List τ
  job : τ → Option δ

/-- What becomes of an interrupt. -/
inductive Handling (τ δ : Type)
  | outOfRange
  | unknown
  | direct (driver : δ)
  | late (driver : δ)
  | worker (thread : τ)
  | nullThread

namespace Interrupts

variable {τ δ : Type} [DecidableEq τ] [DecidableEq δ]

def setThread (s : Interrupts τ δ) (t : τ) (thread : Thread) : Interrupts τ δ :=
  { s with threads := Function.update s.threads t thread }

def setDriver (s : Interrupts τ δ) (d : δ) (driver : Driver) : Interrupts τ δ :=
  { s with drivers := Function.update s.drivers d driver }

def setHandler (s : Interrupts τ δ) (irq : Nat) (handler : IrqHandler τ δ) : Interrupts τ δ :=
  { s with irqTable := Function.update s.irqTable irq handler }

section Threads

/-- The thread goes behind the last one on the list that meets the condition. -/
def placeBehind (fuel : Nat) (s : Interrupts τ δ) (list : ThreadList) (t : τ) (p : τ → Bool) :
    Option (Interrupts τ δ) :=
  (search s.heap.pred p fuel (getTail s.heap list)).map fun found =>
    match found with
    | some sItem => { s with heap := (insertAfter s.heap list t sItem).1 }
    | none => { s with heap := (addHead s.heap list t).1 }

/-- `Thread::sleep`. -/
def sleep (fuel : Nat) (s : Interrupts τ δ) (t : τ) (timePoint : Nat) : Option (Interrupts τ δ) :=
  let s := s.setThread t (((s.threads t).setSleepTime timePoint).setReady false)
  s.placeBehind fuel (.queue .sleep) t fun u => (s.threads u).sleepTime ≤ (s.threads t).sleepTime

/-- `PriorityThreadScheduler::enter`. -/
def enterByPriority (fuel : Nat) (s : Interrupts τ δ) (t : τ) : Option (Interrupts τ δ) :=
  s.placeBehind fuel (.queue .ready) t fun u =>
    (s.threads t).effectivePriority ≤ (s.threads u).effectivePriority

/-- `SchedulerCfd->enter`. -/
def enter (cfg : SchedulerCfd) (fuel : Nat) (s : Interrupts τ δ) (t : τ) :
    Option (Interrupts τ δ) :=
  match cfg with
  | .roundRobin _ => some { s with heap := (addTail s.heap (.queue .ready) t).1 }
  | .rateMonotonic =>
    if (s.threads t).instanceNumber = 1 then
      let s := s.setThread t (s.threads t).computePriorityRM
      if 0 < (s.threads t).sleepTime then s.sleep fuel t (s.threads t).sleepTime
      else s.enterByPriority fuel t
    else s.enterByPriority fuel t
  | .earliestDeadlineFirst =>
    if (s.threads t).instanceNumber = 1 ∧ 0 < (s.threads t).arrivalTime then
      s.sleep fuel t (s.threads t).arrivalTime
    else s.enterByPriority fuel t

/-- `Thread::block` and `SingleCPUDispatcher::block`. -/
def block (s : Interrupts τ δ) (t : τ) : Interrupts τ δ :=
  let s := s.setThread t (((s.threads t).setReady false).setBlocked true)
  { s with heap := (addTail s.heap (.queue .blocked) t).1 }

/-- `SingleCPUDispatcher::unblock`. -/
def dispatcherUnblock (cfg : SchedulerCfd) (fuel : Nat) (s : Interrupts τ δ) (t : τ) :
    Option (Interrupts τ δ) :=
  let s := { s with heap := removeFromHost s.heap t }
  if 0 < (s.threads t).sleepTime then
    some { s with heap := (addTail s.heap (.queue .sleep) t).1 }
  else s.enter cfg fuel t

/-- `Thread::unblock`. -/
def unblock (cfg : SchedulerCfd) (fuel : Nat) (s : Interrupts τ δ) (t : τ) :
    Option (Interrupts τ δ) :=
  if !(s.threads t).isBlocked then some s
  else
    let s := s.setThread t ((s.threads t).setBlocked false)
    if !(s.threads t).isStopped then
      (s.setThread t ((s.threads t).setReady true)).dispatcherUnblock cfg fuel t
    else some s

end Threads

section Handler

/-- The loop of `handleInterruptIRQ`; the link is read after the thread was unblocked. -/
def unblockWaiting (cfg : SchedulerCfd) (fuel : Nat) :
    Nat → Interrupts τ δ → Option τ → Option (Interrupts τ δ)
  | _, s, none => some s
  | 0, _, some _ => none
  | n + 1, s, some t =>
    (s.unblock cfg fuel t).bind fun s => unblockWaiting cfg fuel n s (s.heap.succ t)

/-- `handleInterruptIRQ` after the loop. -/
def callHandler (cfg : SchedulerCfd) (fuel : Nat) (s : Interrupts τ δ) (irq : Nat) :
    Option (Interrupts τ δ × Handling τ δ) :=
  match (s.irqTable irq).driver with
  | none => some (s, .unknown)
  | some driver =>
    if (s.irqTable irq).flags &&& irqNoThread ≠ 0 then some (s, .direct driver)
    else if (s.drivers driver).hasAssignedWorkerThread then some (s, .late driver)
    else
      match (s.irqTable irq).pWThread with
      | none => some (s, .nullThread)
      | some thread =>
        (s.unblock cfg fuel thread).map fun s => (s.setDriver driver ⟨true, true⟩, .worker thread)

/-- `InterruptManager::handleInterruptIRQ`. -/
def handleInterruptIRQ (cfg : SchedulerCfd) (fuel : Nat) (s : Interrupts τ δ) (irq : BitVec 32) :
    Option (Interrupts τ δ × Handling τ δ) :=
  if irqMax ≤ irq.toNat then some (s, .outOfRange)
  else
    let handler := s.irqTable irq.toNat
    let s := s.setHandler irq.toNat { handler with triggerCount := handler.triggerCount + 1 }
    (unblockWaiting cfg fuel fuel s (getHead s.heap (.waitingThreads irq.toNat))).bind fun s =>
      s.callHandler cfg fuel irq.toNat

/-- The error code of `handleInterruptIRQ`. -/
def Handling.code : Handling τ δ → ErrorT
  | .outOfRange | .unknown | .late _ => cError
  | .direct _ | .worker _ | .nullThread => cOk

end Handler

section Registration

/-- The arguments of `registerIRQ`. -/
structure Registration (δ : Type) where
  irq : BitVec 32
  driver : δ
  priority : Nat
  flags : BitVec 32

/-- The statements of `registerIRQ` after its check, in their order. -/
inductive Statement
  | setDriver
  | setPriority
  | resetCount
  | setFlags
  | resetAssigned
  | chooseWorker
  | checkWorker
  deriving DecidableEq

def Statement.all : List Statement :=
  [.setDriver, .setPriority, .resetCount, .setFlags, .resetAssigned, .chooseWorker, .checkWorker]

/-- `KernelTask::getIRQThread`. -/
def getIRQThread (s : Interrupts τ δ) (driver : δ) (priority : Nat) :
    Interrupts τ δ × Option τ :=
  match s.nonWorkingThreads with
  | [] => (s, none)
  | t :: rest =>
    ({ s.setThread t { (s.threads t).setPriority priority priority with
          arrivalTime := 0
          sleepTime := 0
          period := 0
          instanceNumber := 1 } with
        nonWorkingThreads := rest
        job := Function.update s.job t (some driver) }, some t)

/-- One statement of `registerIRQ`. -/
def perform (s : Interrupts τ δ) (r : Registration δ) : Statement → Interrupts τ δ
  | .setDriver => s.setHandler r.irq.toNat { s.irqTable r.irq.toNat with driver := some r.driver }
  | .setPriority => s.setHandler r.irq.toNat { s.irqTable r.irq.toNat with priority := r.priority }
  | .resetCount => s.setHandler r.irq.toNat { s.irqTable r.irq.toNat with triggerCount := 0 }
  | .setFlags => s.setHandler r.irq.toNat { s.irqTable r.irq.toNat with flags := r.flags }
  | .resetAssigned =>
    match (s.irqTable r.irq.toNat).driver with
    | some driver => s.setDriver driver { s.drivers driver with hasAssignedWorkerThread := false }
    | none => s
  | .chooseWorker =>
    if r.flags &&& irqNoThread = 0 then
      let (s, thread) := s.getIRQThread r.driver r.priority
      s.setHandler r.irq.toNat { s.irqTable r.irq.toNat with pWThread := thread }
    else s
  | .checkWorker =>
    if r.flags &&& irqNoThread = 0 then
      match (s.irqTable r.irq.toNat).pWThread with
      | none =>
        let handler := s.irqTable r.irq.toNat
        s.setHandler r.irq.toNat { handler with flags := handler.flags &&& ~~~irqNoThread }
      | some thread => s.block thread
    else s

/-- `InterruptManager::registerIRQ`. -/
def registerIRQ (s : Interrupts τ δ) (r : Registration δ) : Interrupts τ δ × ErrorT :=
  if irqMax < r.irq.toNat then (s, cError)
  else (Statement.all.foldl (fun s => s.perform r) s, cOk)

/-- `InterruptManager::waitIRQ`. -/
def waitIRQ (s : Interrupts τ δ) (irq : BitVec 32) (t : τ) : Interrupts τ δ × ErrorT :=
  if irqMax < irq.toNat then (s, cError)
  else
    let (heap, ret) := addTail s.heap (.waitingThreads irq.toNat) t
    ({ s with heap := heap }, ret)

/-- `InterruptManager::unregisterIRQ`. -/
def unregisterIRQ (s : Interrupts τ δ) (irq : BitVec 32) : Interrupts τ δ × ErrorT :=
  if irqMax < irq.toNat then (s, cError) else (s.setHandler irq.toNat .clear, cOk)

/-- `sc_waitirq` until it calls `block`; the result of `waitIRQ` is ignored. -/
def startWaiting (s : Interrupts τ δ) (t : τ) (irq : BitVec 32) : Interrupts τ δ × Option ErrorT :=
  if 256 < irq.toInt then (s, some cInvalidArgument) else ((s.waitIRQ irq t).1, none)

/-- The end of a worker thread's job: it goes back to wait for the next interrupt. -/
def finish (s : Interrupts τ δ) (t : τ) : Interrupts τ δ :=
  match s.job t with
  | some driver =>
    (s.setDriver driver { s.drivers driver with hasAssignedWorkerThread := false }).block t
  | none => s

end Registration

end Interrupts

/-- The interrupt manager with calls that are under way: threads between `waitIRQ` and `block`,
threads that `sc_waitirq` has blocked, and what is left of a registration. -/
structure InterruptRun (τ δ : Type) where
  interrupts : Interrupts τ δ
  called : τ → Option (BitVec 32)
  waiting : τ → Option (BitVec 32)
  registering : Option (Interrupts.Registration δ × List Interrupts.Statement)

namespace InterruptRun

variable {τ δ : Type} [DecidableEq τ] [DecidableEq δ]

/-- The table is empty, and the worker threads wait for jobs. -/
def start (threads : τ → Thread) (drivers : δ → Driver) (workers : List τ) : InterruptRun τ δ where
  interrupts := workers.foldl Interrupts.block
    ⟨Heap.fresh id, threads, fun _ => .clear, drivers, workers, fun _ => none⟩
  called _ := none
  waiting _ := none
  registering := none

inductive Op (τ δ : Type)
  | startWaiting (t : τ) (irq : BitVec 32)
  | block (t : τ)
  | register (r : Interrupts.Registration δ)
  | proceed
  | unregister (irq : BitVec 32)
  | arrive (irq : BitVec 32)
  | finish (t : τ)

/-- One step. A thread that calls `sc_waitirq` runs and is no worker thread, one that finishes
a job is; registrations do not overlap. -/
def step (cfg : SchedulerCfd) (fuel : Nat) (worker : τ → Bool) (s : InterruptRun τ δ) :
    Op τ δ → Option (InterruptRun τ δ)
  | .startWaiting t irq =>
    if worker t || (s.interrupts.threads t).isBlocked || (s.called t).isSome then some s
    else
      match s.interrupts.startWaiting t irq with
      | (interrupts, none) =>
        some { s with interrupts := interrupts, called := Function.update s.called t (some irq) }
      | (interrupts, some _) => some { s with interrupts := interrupts }
  | .block t =>
    match s.called t with
    | some irq => some { s with
        interrupts := s.interrupts.block t
        called := Function.update s.called t none
        waiting := Function.update s.waiting t (some irq) }
    | none => some s
  | .register r =>
    if s.registering.isSome || irqMax < r.irq.toNat then some s
    else some { s with registering := some (r, Interrupts.Statement.all) }
  | .proceed =>
    match s.registering with
    | some (r, statement :: rest) => some { s with
        interrupts := s.interrupts.perform r statement
        registering := if rest = [] then none else some (r, rest) }
    | _ => some s
  | .unregister irq =>
    if s.registering.isSome then some s
    else some { s with interrupts := (s.interrupts.unregisterIRQ irq).1 }
  | .arrive irq =>
    (s.interrupts.handleInterruptIRQ cfg fuel irq).map fun handled =>
      { s with interrupts := handled.1 }
  | .finish t =>
    if worker t && !(s.interrupts.threads t).isBlocked then
      some { s with interrupts := s.interrupts.finish t }
    else some s

end InterruptRun

end Orcos.Source.Hal

/-!
What blocking and unblocking one thread does to the lists of threads: the thread is elsewhere,
all others are where they were.
-/
namespace Orcos.Source.Hal
open Orcos.Lib.Walk Orcos.Source.LinkedList

section Lists

variable {ι κ δ : Type} [DecidableEq ι] [DecidableEq κ] {h : Heap δ ι κ} {seq seq' : κ → List ι}
  {i j : ι} {l : κ}

/-- The item is on this list only, and the others are where they were. -/
def Placed (i : ι) (l : κ) (seq seq' : κ → List ι) : Prop :=
  ∀ j k, j ∈ seq' k ↔ (j = i ∧ k = l) ∨ (j ≠ i ∧ j ∈ seq k)

omit [DecidableEq κ] in
theorem mem_detach (rep : Represents h seq) {k : κ} : j ∈ detach seq i k ↔ j ≠ i ∧ j ∈ seq k := by
  rw [detach, (rep.nodup k).mem_erase_iff]

theorem placed_of_perm (rep : Represents h seq) {list : List ι}
    (perm : list.Perm (i :: detach seq i l)) :
    Placed i l seq (Function.update (detach seq i) l list) := by
  intro j k
  by_cases same : k = l
  · rw [same, Function.update_self, perm.mem_iff, List.mem_cons, mem_detach rep]
    simp
  · rw [Function.update_of_ne same, mem_detach rep]
    simp [same]

theorem addTail_placed (rep : Represents h seq) (l : κ) (i : ι) :
    ∃ seq', Represents (addTail h l i).1 seq' ∧ Placed i l seq seq' := by
  refine ⟨_, addTail_represents rep l i, placed_of_perm rep ?_⟩
  exact (List.perm_append_singleton i _)

theorem addHead_placed (rep : Represents h seq) (l : κ) (i : ι) :
    ∃ seq', Represents (addHead h l i).1 seq' ∧ Placed i l seq seq' :=
  ⟨_, addHead_represents rep l i, placed_of_perm rep (List.Perm.refl _)⟩

theorem insertAfter_placed (rep : Represents h seq) {x : ι} (member : x ∈ seq l) (differ : x ≠ i) :
    ∃ seq', Represents (insertAfter h l i x).1 seq' ∧ Placed i l seq seq' := by
  refine ⟨_, insertAfter_represents rep ((rep.host l x).mpr member) differ,
    placed_of_perm rep (Lib.Sequences.insertAfter_perm ?_)⟩
  exact (mem_detach rep).mpr ⟨differ, member⟩

end Lists

namespace Interrupts

variable {τ δ : Type} [DecidableEq τ] {s s' s'' : Interrupts τ δ}
  {seq seq' seq'' : ThreadList → List τ} {t u : τ}

/-- At most one thread is elsewhere or has other data, and is no waiting thread of an
interrupt unless it was; the tables are as before. -/
structure Moved (t : τ) (s : Interrupts τ δ) (seq : ThreadList → List τ) (s' : Interrupts τ δ)
    (seq' : ThreadList → List τ) : Prop where
  represents : Represents s'.heap seq'
  threads : ∀ u, u ≠ t → s'.threads u = s.threads u
  lists : ∀ u, u ≠ t → ∀ l, u ∈ seq' l ↔ u ∈ seq l
  own : ∀ irq, t ∈ seq' (.waitingThreads irq) → t ∈ seq (.waitingThreads irq)
  irqTable : s'.irqTable = s.irqTable
  drivers : s'.drivers = s.drivers
  nonWorkingThreads : s'.nonWorkingThreads = s.nonWorkingThreads

omit [DecidableEq τ] in
theorem Moved.trans (first : Moved t s seq s' seq') (second : Moved t s' seq' s'' seq'') :
    Moved t s seq s'' seq'' where
  represents := second.represents
  threads u other := (second.threads u other).trans (first.threads u other)
  lists u other l := (second.lists u other l).trans (first.lists u other l)
  own irq member := first.own irq (second.own irq member)
  irqTable := second.irqTable.trans first.irqTable
  drivers := second.drivers.trans first.drivers
  nonWorkingThreads := second.nonWorkingThreads.trans first.nonWorkingThreads

omit [DecidableEq τ] in
theorem moved_refl (rep : Represents s.heap seq) (t : τ) : Moved t s seq s seq :=
  ⟨rep, fun _ _ => rfl, fun _ _ _ => Iff.rfl, fun _ => id, rfl, rfl, rfl⟩

theorem setThread_self (s : Interrupts τ δ) (t : τ) (thread : Thread) :
    (s.setThread t thread).threads t = thread := Function.update_self ..

theorem moved_setThread (rep : Represents s.heap seq) (t : τ) (thread : Thread) :
    Moved t s seq (s.setThread t thread) seq :=
  ⟨rep, fun _ other => Function.update_of_ne other .., fun _ _ _ => Iff.rfl, fun _ => id, rfl,
    rfl, rfl⟩

omit [DecidableEq τ] in
/-- The thread was moved to a list of the dispatcher. -/
theorem moved_placed {q : QueueName} {heap : Heap τ τ ThreadList} (rep : Represents heap seq')
    (placed : Placed t (.queue q) seq seq') : Moved t s seq { s with heap := heap } seq' where
  represents := rep
  threads _ _ := rfl
  lists u other l := by simp [placed u l, other]
  own irq member := by
    have := (placed t (.waitingThreads irq)).mp member
    simp at this
  irqTable := rfl
  drivers := rfl
  nonWorkingThreads := rfl

theorem removeFromHost_moved (rep : Represents s.heap seq) (t : τ) :
    Moved t s seq { s with heap := removeFromHost s.heap t } (detach seq t) where
  represents := (removeFromHost_represents rep t).1
  threads _ _ := rfl
  lists u other l := by simp [mem_detach rep, other]
  own irq member := ((mem_detach rep).mp member).2
  irqTable := rfl
  drivers := rfl
  nonWorkingThreads := rfl

theorem block_moved (rep : Represents s.heap seq) (t : τ) :
    ∃ seq', Moved t s seq (s.block t) seq' ∧ t ∈ seq' (.queue .blocked) ∧
      ((s.block t).threads t).isBlocked = true := by
  obtain ⟨seq', rep', placed⟩ := addTail_placed rep (.queue .blocked) t
  refine ⟨seq', (moved_setThread rep t _).trans (moved_placed rep' placed), ?_, ?_⟩
  · exact (placed t _).mpr (.inl ⟨rfl, rfl⟩)
  · simp [block, setThread, Thread.setBlocked, Thread.isBlocked]

section Entering

variable [Fintype τ] {cfg : SchedulerCfd} {fuel : Nat} (enough : Fintype.card τ ≤ fuel)

include enough

omit [DecidableEq τ] in
theorem length_le (rep : Represents s.heap seq) (l : ThreadList) : (seq l).length ≤ fuel :=
  (rep.nodup l).length_le_card.trans enough

/-- A thread that is on no list gets its place. -/
theorem placeBehind_moved (rep : Represents s.heap seq) {q : QueueName}
    (absent : t ∉ seq (.queue q)) (p : τ → Bool) :
    ∃ s' seq', s.placeBehind fuel (.queue q) t p = some s' ∧ Moved t s seq s' seq' ∧
      s'.threads = s.threads ∧ t ∈ seq' (.queue q) := by
  have found := search_eq_find (p := p) (rep.chain (.queue q)) (length_le enough rep (.queue q))
  rw [← rep.tail (.queue q)] at found
  rw [placeBehind, getTail, found]
  cases last : (seq (.queue q)).reverse.find? p with
  | none =>
    obtain ⟨seq', rep', placed⟩ := addHead_placed rep (.queue q) t
    exact ⟨_, seq', rfl, moved_placed rep' placed, rfl, (placed t _).mpr (.inl ⟨rfl, rfl⟩)⟩
  | some x =>
    have member : x ∈ seq (.queue q) := List.mem_reverse.mp (List.mem_of_find?_eq_some last)
    obtain ⟨seq', rep', placed⟩ := insertAfter_placed rep (i := t) member
      fun same => absent (same ▸ member)
    exact ⟨_, seq', rfl, moved_placed rep' placed, rfl, (placed t _).mpr (.inl ⟨rfl, rfl⟩)⟩

theorem sleep_moved (rep : Represents s.heap seq) (absent : t ∉ seq (.queue .sleep))
    (timePoint : Nat) : ∃ s' seq', s.sleep fuel t timePoint = some s' ∧ Moved t s seq s' seq' ∧
      (s'.threads t).isBlocked = (s.threads t).isBlocked := by
  have stored := moved_setThread rep t (((s.threads t).setSleepTime timePoint).setReady false)
  obtain ⟨s', seq', ran, moved, data, _⟩ := placeBehind_moved enough stored.represents absent
    fun u => ((s.setThread t (((s.threads t).setSleepTime timePoint).setReady false)).threads
      u).sleepTime ≤ ((s.setThread t (((s.threads t).setSleepTime timePoint).setReady
        false)).threads t).sleepTime
  refine ⟨s', seq', ran, stored.trans moved, ?_⟩
  rw [data, setThread_self]
  rfl

variable (cfg) in
theorem enter_moved (rep : Represents s.heap seq) (absent : ∀ l, t ∉ seq l) :
    ∃ s' seq', s.enter cfg fuel t = some s' ∧ Moved t s seq s' seq' ∧
      (s'.threads t).isBlocked = (s.threads t).isBlocked := by
  have byPriority : ∀ {s : Interrupts τ δ}, Represents s.heap seq → ∃ s' seq',
      s.enterByPriority fuel t = some s' ∧ Moved t s seq s' seq' ∧
        (s'.threads t).isBlocked = (s.threads t).isBlocked := by
    intro s rep
    obtain ⟨s', seq', ran, moved, data, _⟩ := placeBehind_moved enough rep (absent (.queue .ready))
      fun u => (s.threads t).effectivePriority ≤ (s.threads u).effectivePriority
    exact ⟨s', seq', ran, moved, by rw [data]⟩
  cases cfg with
  | roundRobin _ =>
    obtain ⟨seq', rep', placed⟩ := addTail_placed rep (.queue .ready) t
    exact ⟨_, seq', rfl, moved_placed rep' placed, rfl⟩
  | rateMonotonic =>
    unfold enter
    dsimp only
    by_cases first : (s.threads t).instanceNumber = 1
    · have computed := moved_setThread rep t (s.threads t).computePriorityRM
      have flag : ((s.setThread t (s.threads t).computePriorityRM).threads t).isBlocked =
          (s.threads t).isBlocked := by
        rw [setThread_self]
        rfl
      rw [if_pos first]
      split
      · obtain ⟨s', seq', ran, moved, same⟩ := sleep_moved enough computed.represents
          (absent (.queue .sleep))
          ((s.setThread t (s.threads t).computePriorityRM).threads t).sleepTime
        exact ⟨s', seq', ran, computed.trans moved, same.trans flag⟩
      · obtain ⟨s', seq', ran, moved, same⟩ := byPriority computed.represents
        exact ⟨s', seq', ran, computed.trans moved, same.trans flag⟩
    · rw [if_neg first]
      exact byPriority rep
  | earliestDeadlineFirst =>
    unfold enter
    dsimp only
    split
    · exact sleep_moved enough rep (absent (.queue .sleep)) _
    · exact byPriority rep

variable (cfg) in
/-- `unblock` moves no other thread, and the thread is not blocked afterwards. -/
theorem unblock_moved (rep : Represents s.heap seq) (t : τ) :
    ∃ s' seq', s.unblock cfg fuel t = some s' ∧ Moved t s seq s' seq' ∧
      (s'.threads t).isBlocked = false := by
  unfold unblock
  cases blocked : (s.threads t).isBlocked with
  | false => exact ⟨s, seq, rfl, moved_refl rep t, blocked⟩
  | true =>
    have cleared := moved_setThread rep t ((s.threads t).setBlocked false)
    simp only [Bool.not_true, Bool.false_eq_true, if_false]
    split
    · have stored := cleared.trans (moved_setThread cleared.represents t
        (((s.setThread t ((s.threads t).setBlocked false)).threads t).setReady true))
      have removed := stored.trans (removeFromHost_moved stored.represents t)
      have flag : ((((s.setThread t ((s.threads t).setBlocked false))).setThread t
          (((s.setThread t ((s.threads t).setBlocked false)).threads t).setReady true)).threads
            t).isBlocked = false := by
        rw [setThread_self, setThread_self]
        rfl
      unfold dispatcherUnblock
      dsimp only
      split
      · obtain ⟨seq', rep', placed⟩ := addTail_placed removed.represents (.queue .sleep) t
        exact ⟨_, seq', rfl, removed.trans (moved_placed rep' placed), flag⟩
      · obtain ⟨s', seq', ran, moved, same⟩ := enter_moved cfg enough removed.represents
          fun l member => ((mem_detach rep).mp member).1 rfl
        exact ⟨s', seq', ran, removed.trans moved, same.trans flag⟩
    · refine ⟨_, seq, rfl, cleared, ?_⟩
      rw [setThread_self]
      rfl

end Entering

/-! ### The lists of the dispatcher -/

/-- Of all lists, those of the dispatcher are these queues. -/
def Queued (s : Interrupts τ δ) (a : Queues τ) : Prop :=
  s.threads = a.threads ∧ ∃ seq, Represents s.heap seq ∧ ∀ q, seq (.queue q) = a.queue q

namespace Queued

variable {a : Queues τ} {q : QueueName}

theorem setThread (queued : Queued s a) (t : τ) (thread : Thread) :
    Queued (s.setThread t thread) (a.setThread t thread) :=
  ⟨by rw [Interrupts.setThread, Queues.setThread, queued.1], queued.2⟩

theorem leave (queued : Queued s a) (t : τ) : Queued s (a.leave t) := by
  rw [Queues.leave]
  split
  · exact queued
  · exact queued

theorem detached {seq : ThreadList → List τ} (rep : Represents s.heap seq)
    (same : ∀ q, seq (.queue q) = a.queue q) (t : τ) (q : QueueName) :
    detach seq t (.queue q) = (a.remove t).queue q := by
  rw [detach_eq_filter rep, same]
  rfl

theorem remove (queued : Queued s a) (t : τ) :
    Queued { s with heap := removeFromHost s.heap t } (a.remove t) := by
  obtain ⟨threads, seq, rep, same⟩ := queued
  exact ⟨threads, detach seq t, (removeFromHost_represents rep t).1, detached rep same t⟩

/-- The thread gets the same place among the lists of both. -/
theorem place {p : τ → Bool} {heap : Heap τ τ ThreadList} {seq : ThreadList → List τ}
    (threads : s.threads = a.threads) (rep : Represents s.heap seq)
    (same : ∀ q, seq (.queue q) = a.queue q)
    (placed : Represents heap (Function.update (detach seq t) (.queue q)
      (Lib.Sequences.insertBehind p t (detach seq t (.queue q))))) :
    Queued { s with heap := heap } (a.move t q p) := by
  refine ⟨threads, _, placed, fun k => ?_⟩
  by_cases here : k = q
  · subst here
    simp only [Queues.move, Function.update_self, detached rep same]
  · rw [Function.update_of_ne fun other => here (ThreadList.queue.inj other), detached rep same,
      Queues.move_queue_of_ne _ _ _ _ _ here]
    rfl

theorem addTail (queued : Queued s a) (t : τ) (q : QueueName) :
    Queued { s with heap := (LinkedList.addTail s.heap (.queue q) t).1 } (a.addTail t q) := by
  obtain ⟨threads, seq, rep, same⟩ := queued
  refine place threads rep same ?_
  rw [Lib.Sequences.insertBehind_all fun _ _ => rfl]
  exact addTail_represents rep (.queue q) t

/-- A thread blocks as in the kernel. -/
theorem block (queued : Queued s a) (t : τ) : Queued (s.block t) (a.block t) := by
  rw [Interrupts.block, Queues.block, queued.1]
  exact ((queued.setThread t _).addTail t .blocked).leave t

variable [Fintype τ] {cfg : SchedulerCfd} {fuel : Nat} (enough : Fintype.card τ ≤ fuel)

include enough

theorem placeBehind (queued : Queued s a) {p : τ → Bool}
    (unlinked : (a.queue q).reverse.find? p ≠ some t) :
    ∃ s', s.placeBehind fuel (.queue q) t p = some s' ∧ Queued s' (a.move t q p) := by
  obtain ⟨threads, seq, rep, same⟩ := queued
  have found := search_eq_find (p := p) (rep.chain (.queue q)) (length_le enough rep (.queue q))
  rw [← rep.tail (.queue q)] at found
  rw [← same] at unlinked
  have placed := linked_represents rep unlinked
  rw [Interrupts.placeBehind, getTail, found]
  cases last : (seq (.queue q)).reverse.find? p with
  | none =>
    rw [last] at placed
    exact ⟨_, rfl, place threads rep same placed⟩
  | some x =>
    rw [last] at placed
    exact ⟨_, rfl, place threads rep same placed⟩

theorem sleep (queued : Queued s a) {timePoint : Nat}
    (unlinked : (a.putOff t timePoint).FreeToSleep t) :
    ∃ s', s.sleep fuel t timePoint = some s' ∧ Queued s' (a.sleep t timePoint) := by
  have stored := queued.setThread t (((a.threads t).setSleepTime timePoint).setReady false)
  obtain ⟨s', ran, placed⟩ := stored.placeBehind enough unlinked
  rw [Interrupts.sleep, Queues.sleep, queued.1, stored.1]
  exact ⟨s', ran, placed.leave t⟩

theorem enter (queued : Queued s a) (free : a.CanEnter cfg t) :
    ∃ s', s.enter cfg fuel t = some s' ∧ Queued s' (a.enter cfg t) := by
  have same : a.setThread t (a.threads t) = a := a.setThread_self t
  have byPriority : ∀ {s : Interrupts τ δ} {a : Queues τ}, Queued s a → a.FreeToEnter t →
      ∃ s', s.enterByPriority fuel t = some s' ∧ Queued s' (a.move t .ready fun u =>
        (a.threads t).effectivePriority ≤ (a.threads u).effectivePriority) := by
    intro s a queued free
    rw [enterByPriority, queued.1]
    exact queued.placeBehind enough free
  cases cfg with
  | roundRobin _ =>
    refine ⟨_, rfl, ?_⟩
    simp only [Queues.enter, SchedulerCfd.entered, SchedulerCfd.sleepsUntil, same]
    exact queued.addTail t .ready
  | rateMonotonic =>
    simp only [Queues.CanEnter, Interrupts.enter, Queues.enter, SchedulerCfd.entered,
      SchedulerCfd.sleepsUntil, queued.1] at free ⊢
    by_cases first : (a.threads t).instanceNumber = 1
    · have computed := queued.setThread t (a.threads t).computePriorityRM
      have time : (a.threads t).computePriorityRM.sleepTime = (a.threads t).sleepTime := rfl
      simp only [first, if_true, true_and, Interrupts.setThread, Function.update_self, time]
        at free ⊢
      by_cases asleep : 0 < (a.threads t).sleepTime
      · simp only [asleep, if_true] at free ⊢
        exact computed.sleep enough free
      · simp only [asleep, if_false] at free ⊢
        exact byPriority computed free
    · simp only [first, if_false, false_and, same] at free ⊢
      exact byPriority queued free
  | earliestDeadlineFirst =>
    simp only [Queues.CanEnter, Interrupts.enter, Queues.enter, SchedulerCfd.entered,
      SchedulerCfd.sleepsUntil, same, queued.1] at free ⊢
    by_cases fresh : (a.threads t).instanceNumber = 1 ∧ 0 < (a.threads t).arrivalTime
    · simp only [fresh, and_self, if_true] at free ⊢
      exact queued.sleep enough free
    · simp only [fresh, if_false] at free ⊢
      exact byPriority queued free

theorem dispatcherUnblock (queued : Queued s a) (t : τ) :
    ∃ s', s.dispatcherUnblock cfg fuel t = some s' ∧ Queued s' (a.dispatcherUnblock cfg t) := by
  have absent : ∀ q, t ∉ (a.remove t).queue q := fun q => by simp
  rw [Interrupts.dispatcherUnblock, Queues.dispatcherUnblock]
  dsimp only
  rw [congrFun queued.1 t]
  split
  · have moved := (queued.remove t).addTail t .sleep
    rw [Queues.addTail, Queues.move_remove] at moved
    exact ⟨_, rfl, moved⟩
  · exact (queued.remove t).enter enough
      (Queues.canEnter_of_notMem cfg _ _ (absent .ready) fun _ => absent .sleep)

theorem unblock (queued : Queued s a) (t : τ) :
    ∃ s', s.unblock cfg fuel t = some s' ∧ Queued s' (a.unblock cfg t) := by
  have cleared := queued.setThread t ((a.threads t).setBlocked false)
  rw [Interrupts.unblock, Queues.unblock, queued.1]
  cases (a.threads t).isBlocked with
  | false => exact ⟨s, rfl, queued⟩
  | true =>
    simp only [Bool.not_true, Bool.false_eq_true, if_false, if_true, cleared.1]
    cases ((a.setThread t ((a.threads t).setBlocked false)).threads t).isStopped with
    | true => exact ⟨_, rfl, cleared⟩
    | false => exact (cleared.setThread t _).dispatcherUnblock enough t

/-- What the kernel does to its lists when it blocks and unblocks a thread is done to those of
the dispatcher here. -/
theorem as_kernel {k : Kernel τ} (queued : Queued s a) (refines : Refines k a) (cfg : SchedulerCfd)
    (t : τ) :
    (Refines (k.block t) (a.block t) ∧ Queued (s.block t) (a.block t)) ∧
      ∃ s' k', s.unblock cfg fuel t = some s' ∧ k.unblock cfg fuel t = some k' ∧
        Refines k' (a.unblock cfg t) ∧ Queued s' (a.unblock cfg t) := by
  obtain ⟨s', ran, queued'⟩ := queued.unblock enough t
  obtain ⟨k', ran', refines'⟩ := refines.unblock enough t
  exact ⟨⟨refines.block t, queued.block t⟩, s', k', ran, ran', refines', queued'⟩

end Queued

end Interrupts

end Orcos.Source.Hal
