import Orcos.Lib.Runs
import Orcos.Source.Hal.InterruptManager

/-!
# Threads that wait for interrupts

Source: src/source/hal/InterruptManager.cc, `handleInterruptIRQ`, `registerIRQ`, `waitIRQ`,
`unregisterIRQ`; src/source/syscalls/sc_process.cc, `sc_waitirq`;
src/source/scheduler/SingleCPUDispatcher.cc, `block`.

`block` takes the item of a thread off the list that `waitIRQ` has put it on, so that no
interrupt finds anybody blocked. And the number behind the last one is accepted everywhere.
-/
namespace Orcos.Guarantees.InterruptWaiters
open Lib.Chain Lib.Runs Lib.Walk Source Source.LinkedList Source.Hal Source.Hal.Interrupts

variable {τ δ : Type}

/-- The threads on a list in the order of the links. -/
def members [Fintype τ] (s : Interrupts τ δ) (list : ThreadList) : List τ :=
  follow s.heap.succ (Fintype.card τ) (getHead s.heap list)

/-- The threads that `sc_waitirq` has blocked for this interrupt are ready, and the others
blocked. -/
def Exactly [Fintype τ] (s : InterruptRun τ δ) (s' : Interrupts τ δ) (irq : BitVec 32) : Prop :=
  ∀ t n, s.waiting t = some n →
    if n = irq then t ∈ members s' (.queue .ready) ∧ (s'.threads t).isBlocked = false
    else t ∈ members s' (.queue .blocked) ∧ (s'.threads t).isBlocked = true

/-- What the lists hold: nobody who is blocked waits on the list of an interrupt. -/
def Lists (s : Interrupts τ δ) (waiting : τ → Option (BitVec 32)) : Prop :=
  ∃ seq, Represents s.heap seq ∧
    (∀ irq, ∀ t ∈ seq (.waitingThreads irq), (s.threads t).isBlocked = false) ∧
      ∀ t irq, waiting t = some irq →
        t ∈ seq (.queue .blocked) ∧ (s.threads t).isBlocked = true

/-- Those who wait are no worker threads, and jobs are done by worker threads. -/
structure Roles (worker : τ → Bool) (s : Interrupts τ δ) (called waiting : τ → Option (BitVec 32)) :
    Prop where
  callers : ∀ t, (called t).isSome → worker t = false
  users : ∀ t, (waiting t).isSome → worker t = false
  pool : ∀ t ∈ s.nonWorkingThreads, worker t = true
  assigned : ∀ irq t, (s.irqTable irq).pWThread = some t → worker t = true

structure Sound (worker : τ → Bool) (s : InterruptRun τ δ) : Prop where
  lists : Lists s.interrupts s.waiting
  roles : Roles worker s.interrupts s.called s.waiting

variable {worker : τ → Bool} {s s' : Interrupts τ δ} {called waiting : τ → Option (BitVec 32)}
  {t : τ} {cfg : SchedulerCfd}

/-- Other tables, the same threads on the same lists. -/
theorem Lists.same (lists : Lists s waiting) (heap : s'.heap = s.heap)
    (threads : s'.threads = s.threads) : Lists s' waiting := by
  obtain ⟨seq, rep, idle, blocked⟩ := lists
  refine ⟨seq, ?_, ?_, ?_⟩
  · rw [heap]
    exact rep
  · rw [threads]
    exact idle
  · rw [threads]
    exact blocked

theorem Roles.same (roles : Roles worker s called waiting)
    (pool : s'.nonWorkingThreads = s.nonWorkingThreads) (table : s'.irqTable = s.irqTable) :
    Roles worker s' called waiting where
  callers := roles.callers
  users := roles.users
  pool := by
    rw [pool]
    exact roles.pool
  assigned := by
    rw [table]
    exact roles.assigned

variable [DecidableEq τ] [DecidableEq δ]

omit [DecidableEq τ] [DecidableEq δ] in
/-- A thread that does not wait is moved. -/
theorem Lists.moved {seq seq' : ThreadList → List τ}
    (idle : ∀ irq, ∀ u ∈ seq (.waitingThreads irq), (s.threads u).isBlocked = false)
    (blocked : ∀ u irq, waiting u = some irq →
      u ∈ seq (.queue .blocked) ∧ (s.threads u).isBlocked = true)
    (moved : Moved t s seq s' seq') (free : waiting t = none)
    (own : ∀ irq, t ∈ seq' (.waitingThreads irq) → (s'.threads t).isBlocked = false) :
    Lists s' waiting := by
  refine ⟨seq', moved.represents, fun irq u member => ?_, fun u irq waits => ?_⟩
  · by_cases same : u = t
    · subst same
      exact own irq member
    · rw [moved.threads u same]
      exact idle irq u ((moved.lists u same _).mp member)
  · have other : u ≠ t := fun same => by
      rw [same, free] at waits
      cases waits
    rw [moved.threads u other, moved.lists u other]
    exact blocked u irq waits

omit [DecidableEq δ] in
theorem Lists.block (lists : Lists s waiting) (free : waiting t = none) :
    Lists (s.block t) waiting := by
  obtain ⟨seq, rep, idle, blocked⟩ := lists
  obtain ⟨seq', moved, there, _⟩ := block_moved rep t
  refine Lists.moved idle blocked moved free fun irq member => ?_
  cases moved.represents.host_unique there member

omit [DecidableEq δ] in
/-- The thread that blocks waits from now on. -/
theorem Lists.blockWaiting (lists : Lists s waiting) (irq : BitVec 32) :
    Lists (s.block t) (Function.update waiting t (some irq)) := by
  obtain ⟨seq, rep, idle, blocked⟩ := lists
  obtain ⟨seq', moved, there, flag⟩ := block_moved rep t
  refine ⟨seq', moved.represents, fun irq u member => ?_, fun u irq waits => ?_⟩
  · by_cases same : u = t
    · subst same
      cases moved.represents.host_unique there member
    · rw [moved.threads u same]
      exact idle irq u ((moved.lists u same _).mp member)
  · by_cases same : u = t
    · subst same
      exact ⟨there, flag⟩
    · rw [Function.update_of_ne same] at waits
      rw [moved.threads u same, moved.lists u same]
      exact blocked u irq waits

omit [DecidableEq δ] in
theorem Lists.waitIRQ (lists : Lists s waiting) (running : (s.threads t).isBlocked = false)
    (irq : BitVec 32) : Lists (s.waitIRQ irq t).1 waiting := by
  obtain ⟨seq, rep, idle, blocked⟩ := lists
  unfold Interrupts.waitIRQ
  split
  · exact ⟨seq, rep, idle, blocked⟩
  · obtain ⟨seq', rep', placed⟩ := addTail_placed rep (.waitingThreads irq.toNat) t
    refine ⟨seq', rep', fun n u member => ?_, fun u n waits => ?_⟩
    · rcases (placed u _).mp member with ⟨rfl, _⟩ | ⟨_, before⟩
      · exact running
      · exact idle n u before
    · have other : u ≠ t := fun same => by
        rw [same] at waits
        rw [(blocked t n waits).2] at running
        cases running
      refine ⟨(placed u _).mpr (.inr ⟨other, (blocked u n waits).1⟩), (blocked u n waits).2⟩

omit [DecidableEq δ] in
variable (cfg) in
theorem Lists.unblock [Fintype τ] (lists : Lists s waiting) (free : waiting t = none) :
    ∃ s', s.unblock cfg (Fintype.card τ) t = some s' ∧ Lists s' waiting ∧
      s'.irqTable = s.irqTable ∧ s'.nonWorkingThreads = s.nonWorkingThreads := by
  obtain ⟨seq, rep, idle, blocked⟩ := lists
  obtain ⟨s', seq', ran, moved, flag⟩ := unblock_moved cfg le_rfl rep t
  exact ⟨s', ran, Lists.moved idle blocked moved free fun _ _ => flag, moved.irqTable,
    moved.nonWorkingThreads⟩

omit [DecidableEq δ] in
/-- The loop finds nobody to wake. -/
theorem unblockWaiting_idle (fuel : Nat) {list : List τ} {before : Option τ} {n : Nat}
    (chain : Segment s.heap.pred s.heap.succ before list none)
    (idle : ∀ t ∈ list, (s.threads t).isBlocked = false) (enough : list.length ≤ n) :
    unblockWaiting cfg fuel n s list.head? = some s := by
  induction list generalizing before n with
  | nil => cases n <;> rfl
  | cons t list ih =>
    cases n with
    | zero => simp at enough
    | succ n =>
      obtain ⟨_, next, rest⟩ := chain
      rw [Option.or_none] at next
      have still : s.unblock cfg fuel t = some s := by
        rw [Interrupts.unblock, idle t List.mem_cons_self]
        rfl
      rw [List.head?_cons, unblockWaiting, still, Option.bind_some, next]
      exact ih rest (fun u later => idle u (List.mem_cons_of_mem t later)) (by simpa using enough)

/-- The interrupt is counted. -/
def count (s : Interrupts τ δ) (irq : BitVec 32) : Interrupts τ δ :=
  s.setHandler irq.toNat { s.irqTable irq.toNat with
    triggerCount := (s.irqTable irq.toNat).triggerCount + 1 }

omit [DecidableEq τ] [DecidableEq δ] in
theorem Roles.count (roles : Roles worker s called waiting) (irq : BitVec 32) :
    Roles worker (count s irq) called waiting := by
  refine ⟨roles.callers, roles.users, roles.pool, fun n t assigned => ?_⟩
  unfold InterruptWaiters.count setHandler at assigned
  dsimp only at assigned
  rw [Function.update_apply] at assigned
  split at assigned
  · exact roles.assigned irq.toNat t assigned
  · exact roles.assigned n t assigned

/-- Nobody is woken before the handler is called. -/
theorem handleInterruptIRQ_eq [Fintype τ] (lists : Lists s waiting) {irq : BitVec 32}
    (inside : irq.toNat < irqMax) : s.handleInterruptIRQ cfg (Fintype.card τ) irq =
      (count s irq).callHandler cfg (Fintype.card τ) irq.toNat := by
  obtain ⟨seq, rep, idle, _⟩ := lists
  have quiet : unblockWaiting cfg (Fintype.card τ) (Fintype.card τ) (count s irq)
      (getHead (count s irq).heap (.waitingThreads irq.toNat)) = some (count s irq) := by
    rw [getHead, count, setHandler, rep.head]
    exact unblockWaiting_idle _ (rep.chain _) (idle irq.toNat) (length_le le_rfl rep _)
  rw [Interrupts.handleInterruptIRQ, if_neg (Nat.not_le.mpr inside)]
  exact (congrArg (Option.bind · _) quiet).trans rfl

variable (cfg) in
/-- The handler moves at most a worker thread. -/
theorem callHandler_sound [Fintype τ] (lists : Lists s waiting)
    (roles : Roles worker s called waiting) (irq : Nat) :
    ∃ handled, s.callHandler cfg (Fintype.card τ) irq = some handled ∧
      Lists handled.1 waiting ∧ Roles worker handled.1 called waiting ∧
        handled.1.irqTable = s.irqTable := by
  unfold callHandler
  split
  case h_1 => exact ⟨_, rfl, lists, roles, rfl⟩
  case h_2 driver _ =>
    split
    · exact ⟨_, rfl, lists, roles, rfl⟩
    · split
      · exact ⟨_, rfl, lists, roles, rfl⟩
      · split
        case h_1 => exact ⟨_, rfl, lists, roles, rfl⟩
        case h_2 w assigned =>
          have free : waiting w = none := by
            cases waits : waiting w with
            | none => rfl
            | some n =>
              have user := roles.users w (by rw [waits]; rfl)
              rw [roles.assigned _ w assigned] at user
              cases user
          obtain ⟨s', ran, after, table, pool⟩ := lists.unblock cfg free
          rw [ran]
          exact ⟨_, rfl, after.same rfl rfl, (roles.same pool table).same rfl rfl, table⟩

/-- The same driver, flags and worker thread. -/
def SameEntry (handler handler' : IrqHandler τ δ) : Prop :=
  handler'.driver = handler.driver ∧ handler'.flags = handler.flags ∧
    handler'.pWThread = handler.pWThread

omit [DecidableEq τ] [DecidableEq δ] in
theorem count_entry (s : Interrupts τ δ) (irq : BitVec 32) (n : Nat) :
    SameEntry (s.irqTable n) ((count s irq).irqTable n) := by
  unfold count setHandler
  dsimp only
  rw [Function.update_apply]
  split
  case isTrue same =>
    rw [same]
    exact ⟨rfl, rfl, rfl⟩
  case isFalse => exact ⟨rfl, rfl, rfl⟩

variable (cfg) in
/-- An interrupt ends, moves at most a worker thread and keeps what was sound. -/
theorem handleInterruptIRQ_sound [Fintype τ] (lists : Lists s waiting)
    (roles : Roles worker s called waiting) (irq : BitVec 32) :
    ∃ handled, s.handleInterruptIRQ cfg (Fintype.card τ) irq = some handled ∧
      Lists handled.1 waiting ∧ Roles worker handled.1 called waiting ∧
        ∀ n, SameEntry (s.irqTable n) (handled.1.irqTable n) := by
  by_cases inside : irq.toNat < irqMax
  · have counted : Lists (count s irq) waiting := lists.same rfl rfl
    obtain ⟨handled, ran, lists', roles', table⟩ :=
      callHandler_sound cfg counted (roles.count irq) irq.toNat
    refine ⟨handled, ?_, lists', roles', fun n => ?_⟩
    · rw [handleInterruptIRQ_eq lists inside, ran]
    · rw [table]
      exact count_entry s irq n
  · rw [Interrupts.handleInterruptIRQ, if_pos (Nat.not_lt.mp inside)]
    exact ⟨_, rfl, lists, roles, fun _ => ⟨rfl, rfl, rfl⟩⟩

section Steps

omit [DecidableEq τ] [DecidableEq δ] in
theorem Roles.free {u : τ} (roles : Roles worker s called waiting) (job : worker u = true) :
    waiting u = none := by
  cases waits : waiting u with
  | none => rfl
  | some n =>
    have user := roles.users u (by rw [waits]; rfl)
    rw [job] at user
    cases user

omit [DecidableEq τ] [DecidableEq δ] in
/-- An entry gets another worker thread, or none. -/
theorem Roles.setHandler {irq : Nat} {handler : IrqHandler τ δ}
    (roles : Roles worker s called waiting)
    (assigned : ∀ t, handler.pWThread = some t → worker t = true) :
    Roles worker (s.setHandler irq handler) called waiting := by
  refine ⟨roles.callers, roles.users, roles.pool, fun n t entry => ?_⟩
  unfold Interrupts.setHandler at entry
  dsimp only at entry
  rw [Function.update_apply] at entry
  split at entry
  · exact assigned t entry
  · exact roles.assigned n t entry

omit [DecidableEq δ] in
theorem getIRQThread_sound (lists : Lists s waiting) (roles : Roles worker s called waiting)
    (driver : δ) (priority : Nat) : Lists (s.getIRQThread driver priority).1 waiting ∧
      Roles worker (s.getIRQThread driver priority).1 called waiting ∧
        ∀ t, (s.getIRQThread driver priority).2 = some t → worker t = true := by
  unfold getIRQThread
  split
  case h_1 => exact ⟨lists, roles, fun t none => by cases none⟩
  case h_2 u rest pool =>
    have job : worker u = true := roles.pool u (by rw [pool]; exact List.mem_cons_self)
    refine ⟨?_, ⟨roles.callers, roles.users, fun t member => ?_, roles.assigned⟩, fun t same => ?_⟩
    · obtain ⟨seq, rep, idle, blocked⟩ := lists
      have moved := moved_setThread rep u { (s.threads u).setPriority priority priority with
        arrivalTime := 0, sleepTime := 0, period := 0, instanceNumber := 1 }
      refine (Lists.moved idle blocked moved (roles.free job) fun irq member => ?_).same rfl rfl
      rw [setThread_self]
      exact idle irq u member
    · exact roles.pool t (by rw [pool]; exact List.mem_cons_of_mem u member)
    · rw [← Option.some.inj same]
      exact job

/-- A statement of a registration. -/
theorem perform_sound (lists : Lists s waiting) (roles : Roles worker s called waiting)
    (r : Registration δ) (statement : Statement) : Lists (s.perform r statement) waiting ∧
      Roles worker (s.perform r statement) called waiting := by
  have entry : ∀ t, (s.irqTable r.irq.toNat).pWThread = some t → worker t = true :=
    roles.assigned r.irq.toNat
  cases statement with
  | setDriver => exact ⟨lists.same rfl rfl, roles.setHandler entry⟩
  | setPriority => exact ⟨lists.same rfl rfl, roles.setHandler entry⟩
  | resetCount => exact ⟨lists.same rfl rfl, roles.setHandler entry⟩
  | setFlags => exact ⟨lists.same rfl rfl, roles.setHandler entry⟩
  | resetAssigned =>
    unfold perform
    dsimp only
    split
    · exact ⟨lists.same rfl rfl, roles.same rfl rfl⟩
    · exact ⟨lists, roles⟩
  | chooseWorker =>
    unfold perform
    dsimp only
    split
    · obtain ⟨lists, roles, job⟩ := getIRQThread_sound lists roles r.driver r.priority
      exact ⟨lists.same rfl rfl, roles.setHandler job⟩
    · exact ⟨lists, roles⟩
  | checkWorker =>
    unfold perform
    dsimp only
    split
    · split
      · exact ⟨lists.same rfl rfl, roles.setHandler entry⟩
      · rename_i w assigned
        exact ⟨lists.block (roles.free (entry w assigned)), roles.same rfl rfl⟩
    · exact ⟨lists, roles⟩

variable {r : InterruptRun τ δ}

variable (cfg) in
/-- Each step succeeds and keeps what was sound. -/
theorem Sound.step [Fintype τ] (sound : Sound worker r) (op : InterruptRun.Op τ δ) :
    ∃ r', r.step cfg (Fintype.card τ) worker op = some r' ∧ Sound worker r' := by
  obtain ⟨lists, roles⟩ := sound
  cases op with
  | startWaiting t irq =>
    unfold InterruptRun.step
    dsimp only
    split
    case isTrue => exact ⟨r, rfl, lists, roles⟩
    case isFalse runs =>
      simp only [Bool.or_eq_true, not_or, Bool.not_eq_true] at runs
      obtain ⟨⟨user, running⟩, _⟩ := runs
      unfold startWaiting
      split
      case h_1 interrupts started =>
        split at started
        · cases started
        · obtain ⟨rfl, _⟩ := Prod.mk.inj started
          refine ⟨_, rfl, lists.waitIRQ running irq, ?_⟩
          have kept : (r.interrupts.waitIRQ irq t).1.nonWorkingThreads =
              r.interrupts.nonWorkingThreads ∧
              (r.interrupts.waitIRQ irq t).1.irqTable = r.interrupts.irqTable := by
            unfold Interrupts.waitIRQ
            split <;> exact ⟨rfl, rfl⟩
          have after := roles.same kept.1 kept.2
          refine ⟨fun u called => ?_, after.users, after.pool, after.assigned⟩
          by_cases same : u = t
          · rw [same]
            exact user
          · dsimp only at called
            rw [Function.update_of_ne same] at called
            exact roles.callers u called
      case h_2 interrupts code started =>
        split at started
        · obtain ⟨rfl, _⟩ := Prod.mk.inj started
          exact ⟨_, rfl, lists, roles⟩
        · cases started
  | block t =>
    unfold InterruptRun.step
    dsimp only
    cases called : r.called t with
    | none => exact ⟨r, rfl, lists, roles⟩
    | some irq =>
      have user := roles.callers t (by rw [called]; rfl)
      refine ⟨_, rfl, lists.blockWaiting irq, fun u called => ?_, fun u waits => ?_, roles.pool,
        roles.assigned⟩
      · by_cases same : u = t
        · rw [same]
          exact user
        · dsimp only at called
          rw [Function.update_of_ne same] at called
          exact roles.callers u called
      · by_cases same : u = t
        · rw [same]
          exact user
        · dsimp only at waits
          rw [Function.update_of_ne same] at waits
          exact roles.users u waits
  | register registration =>
    unfold InterruptRun.step
    dsimp only
    split
    · exact ⟨r, rfl, lists, roles⟩
    · exact ⟨_, rfl, lists, roles⟩
  | proceed =>
    unfold InterruptRun.step
    dsimp only
    split
    case h_1 registration statement rest _ =>
      obtain ⟨lists, roles⟩ := perform_sound lists roles registration statement
      exact ⟨_, rfl, lists, roles⟩
    case h_2 => exact ⟨r, rfl, lists, roles⟩
  | unregister irq =>
    unfold InterruptRun.step
    dsimp only
    split
    · exact ⟨r, rfl, lists, roles⟩
    · refine ⟨_, rfl, ?_⟩
      unfold unregisterIRQ
      split
      · exact ⟨lists, roles⟩
      · exact ⟨lists.same rfl rfl, roles.setHandler fun t none => by cases none⟩
  | arrive irq =>
    obtain ⟨handled, ran, lists, roles, _⟩ := handleInterruptIRQ_sound cfg lists roles irq
    refine ⟨{ r with interrupts := handled.1 }, ?_, lists, roles⟩
    rw [InterruptRun.step, ran]
    rfl
  | finish t =>
    unfold InterruptRun.step
    dsimp only
    split
    case isTrue runs =>
      simp only [Bool.and_eq_true] at runs
      refine ⟨_, rfl, ?_⟩
      unfold finish
      split
      · rename_i driver _
        have stored : Lists (r.interrupts.setDriver driver
            { r.interrupts.drivers driver with hasAssignedWorkerThread := false }) r.waiting :=
          lists.same rfl rfl
        exact ⟨stored.block (roles.free runs.1), roles.same rfl rfl⟩
      · exact ⟨lists, roles⟩
    case isFalse => exact ⟨r, rfl, lists, roles⟩

omit [DecidableEq δ] in
/-- The worker threads are blocked one after the other. -/
theorem sound_start (threads : τ → Thread) (drivers : δ → Driver) (workers : List τ) :
    Sound (fun t => decide (t ∈ workers)) (InterruptRun.start threads drivers workers) := by
  have kept : ∀ (rest : List τ) (s : Interrupts τ δ), Lists s (fun _ => none) →
      Lists (rest.foldl Interrupts.block s) (fun _ => none) ∧
        (rest.foldl Interrupts.block s).nonWorkingThreads = s.nonWorkingThreads ∧
          (rest.foldl Interrupts.block s).irqTable = s.irqTable := by
    intro rest
    induction rest with
    | nil => exact fun s lists => ⟨lists, rfl, rfl⟩
    | cons t rest ih => exact fun s lists => ih (s.block t) (lists.block rfl)
  obtain ⟨lists, pool, table⟩ := kept workers
    ⟨Heap.fresh id, threads, fun _ => .clear, drivers, workers, fun _ => none⟩
    ⟨fun _ => [], fresh_represents id, fun _ t member => (by cases member),
      fun t irq waits => (by cases waits)⟩
  refine ⟨lists, fun t none => (by cases none), fun t none => (by cases none), fun t member => ?_,
    fun irq t entry => ?_⟩
  · rw [InterruptRun.start, pool] at member
    simpa using member
  · rw [InterruptRun.start, table] at entry
    cases entry

end Steps

section Numbers

/-- The number of an entry of the table. -/
def InTable (irq : BitVec 32) : Prop := irq.toNat < irqMax

theorem inTable_of_checked {irq : BitVec 32} (checked : ¬irqMax < irq.toNat) :
    InTable irq ↔ irq ≠ 256 := by
  have number : irq = 256 ↔ irq.toNat = 256 := BitVec.toNat_inj.symm
  rw [InTable, ne_eq, number]
  unfold irqMax at checked ⊢
  omega

/-- A check lets through what it lets through. -/
theorem accepted_iff {irq : BitVec 32} {code : ErrorT}
    (checked : irqMax < irq.toNat → code = cError)
    (accepted : ¬irqMax < irq.toNat → code = cOk) :
    (code = cOk → InTable irq) ↔ irq ≠ 256 := by
  by_cases outside : irqMax < irq.toNat
  · have other : irq ≠ 256 := by
      rintro rfl
      exact absurd outside (by decide)
    rw [checked outside]
    exact ⟨fun _ => other, fun _ same => absurd same (by decide)⟩
  · rw [accepted outside]
    simp [inTable_of_checked outside]

omit [DecidableEq δ] in
theorem startWaiting_iff (s : Interrupts τ δ) (t : τ) (irq : BitVec 32) :
    ((s.startWaiting t irq).2 = none → InTable irq) ↔ irq ≠ 256 ∧ 0 ≤ irq.toInt := by
  have number : irq = 256 ↔ irq.toNat = 256 := BitVec.toNat_inj.symm
  have word := irq.isLt
  have signed := BitVec.toInt_eq_toNat_cond irq
  rw [ne_eq, number, InTable]
  unfold startWaiting irqMax
  split
  case isTrue large =>
    simp only [reduceCtorEq, false_implies, true_iff]
    split at signed <;> omega
  case isFalse small =>
    simp only [forall_const]
    split at signed <;> omega

end Numbers

section Runs

variable [Fintype τ]

/-- After any run, whichever interrupt arrives is handled, and those who wait for it are made
ready, and no others, exactly when nobody waits for it; and the number behind the last one is
the one that is accepted and has no entry, with the negative ones in `sc_waitirq`. -/
theorem waiters_ready_iff (cfg : SchedulerCfd) (threads : τ → Thread) (drivers : δ → Driver)
    (workers : List τ) (ops : List (InterruptRun.Op τ δ)) :
    (∃ s, ops.foldlM (InterruptRun.step cfg (Fintype.card τ) fun t => decide (t ∈ workers))
        (InterruptRun.start threads drivers workers) = some s ∧
      ∀ irq, ∃ handled, s.interrupts.handleInterruptIRQ cfg (Fintype.card τ) irq = some handled ∧
        (Exactly s handled.1 irq ↔ ∀ t, s.waiting t ≠ some irq)) ∧
      ∀ (s : Interrupts τ δ) (t : τ) (r : Registration δ) (irq : BitVec 32),
        (((s.registerIRQ r).2 = cOk → InTable r.irq) ↔ r.irq ≠ 256) ∧
          (((s.waitIRQ irq t).2 = cOk → InTable irq) ↔ irq ≠ 256) ∧
            (((s.unregisterIRQ irq).2 = cOk → InTable irq) ↔ irq ≠ 256) ∧
              (((s.startWaiting t irq).2 = none → InTable irq) ↔ irq ≠ 256 ∧ 0 ≤ irq.toInt) := by
  constructor
  · have free : AdmissibleM (InterruptRun.step cfg (Fintype.card τ) fun t => decide (t ∈ workers))
        (fun _ _ => True) (InterruptRun.start threads drivers workers) ops :=
      admissibleM_of_forall _ _ ops fun _ _ => trivial
    obtain ⟨s, ran, lists, roles⟩ :=
      foldlM_invariant _ (fun _ op sound _ => sound.step cfg op) ops _
      (sound_start threads drivers workers) free
    refine ⟨s, ran, fun irq => ?_⟩
    obtain ⟨handled, returned, after, _⟩ := handleInterruptIRQ_sound cfg lists roles irq
    obtain ⟨seq, rep, _, blocked⟩ := after
    have onList : ∀ list, members handled.1 list = seq list := fun list => by
      rw [members, getHead, rep.head]
      exact follow_eq (rep.chain list) (length_le le_rfl rep list)
    refine ⟨handled, returned, fun exactly t waits => ?_, fun nobody t n waits => ?_⟩
    · have woken := exactly t irq waits
      rw [if_pos rfl, onList] at woken
      cases rep.host_unique woken.1 (blocked t irq waits).1
    · have other : n ≠ irq := fun same => nobody t (same ▸ waits)
      rw [if_neg other, onList]
      exact blocked t n waits
  · intro s t r irq
    refine ⟨accepted_iff (fun outside => ?_) fun inside => ?_,
      accepted_iff (fun outside => ?_) fun inside => ?_,
      accepted_iff (fun outside => ?_) fun inside => ?_, startWaiting_iff s t irq⟩
    · rw [registerIRQ, if_pos outside]
    · rw [registerIRQ, if_neg inside]
    · rw [Interrupts.waitIRQ, if_pos outside]
    · rw [Interrupts.waitIRQ, if_neg inside]
      rfl
    · rw [unregisterIRQ, if_pos outside]
    · rw [unregisterIRQ, if_neg inside]

/-- Two threads and no worker threads. -/
def twoThreads : InterruptRun (Fin 2) Unit :=
  InterruptRun.start (fun _ => Thread.create 1 0 1 none) (fun _ => ⟨false, false⟩) []

/-- A thread waits for interrupt five, which arrives and finds nobody. -/
theorem waiter_stays_blocked : ∃ s handled,
    [.startWaiting (Fin.last 1) 5, .block (Fin.last 1)].foldlM
        (InterruptRun.step .rateMonotonic 2 fun _ => false) twoThreads = some s ∧
      s.interrupts.handleInterruptIRQ .rateMonotonic 2 5 = some handled ∧
        s.waiting (Fin.last 1) = some 5 ∧ ¬Exactly s handled.1 5 := by
  have missed : (([.startWaiting (Fin.last 1) 5, .block (Fin.last 1)].foldlM
      (InterruptRun.step .rateMonotonic 2 fun _ => false) twoThreads).bind fun s =>
        (s.interrupts.handleInterruptIRQ .rateMonotonic 2 5).map fun handled =>
          decide (s.waiting (Fin.last 1) = some 5 ∧
            Fin.last 1 ∉ members handled.1 (.queue .ready))) = some true := by decide +kernel
  obtain ⟨s, ran, rest⟩ := Option.bind_eq_some_iff.mp missed
  obtain ⟨handled, returned, facts⟩ := Option.map_eq_some_iff.mp rest
  obtain ⟨waits, absent⟩ := of_decide_eq_true facts
  refine ⟨s, handled, ran, returned, waits, fun exactly => ?_⟩
  have woken := exactly (Fin.last 1) 5 waits
  rw [if_pos rfl] at woken
  exact absent woken.1

end Runs

end Orcos.Guarantees.InterruptWaiters
