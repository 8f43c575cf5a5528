import Mathlib.Data.Fintype.Basic
import Orcos.Guarantees.ResourceTables

/-!
# The reference counts of resources

Source: src/source/filesystem/Resource.cc, `acquire`, `release`; src/source/process/Task.cc,
`acquireResource`; src/source/filesystem/SharedMemResource.cc, the constructor;
src/source/syscalls/sc_mem.cc, `sc_shm_map`.

The counter of a resource is the number of slots that hold it, over all tasks, as long
as no call goes wrong in one of three ways: an acquisition takes the mutex and fails
behind it, an acquisition is made where no thread is known, a shared memory area enters
itself into a table without being counted.
-/
namespace Orcos.Guarantees.ReferenceCounts
open Lib.Tallies Lib.WordBits Source Source.Tasks ResourceTables

variable {κ τ ρ : Type} [Fintype κ] [DecidableEq κ] [DecidableEq τ] [DecidableEq ρ]

/-- A call that touches a resource; another thread may run before the next one. -/
inductive Call (κ τ ρ : Type)
  | run (t : Option τ)
  | acquire (r : ρ) (t : Option τ) (blocking : Bool)
  | release (r : ρ) (t : Option τ)
  | acquireResource (k : κ) (r : ρ) (t : Option τ) (blocking : Bool)
  | createSharedMem (r : ρ) (pOwner : Option κ) (myResourceId : Nat) (allocated : Bool)

/-- A new area lies where no resource is. -/
def perform (s : System κ τ ρ) : Call κ τ ρ → Option (System κ τ ρ × ErrorT)
  | .run t => some ({ s with running := t }, cOk)
  | .acquire r t blocking => s.acquire r t blocking
  | .release r t => s.release r t
  | .acquireResource k r t blocking => s.acquireResource k r t blocking
  | .createSharedMem r pOwner myResourceId allocated =>
    if (s.resource r).isNone then
      some (s.createSharedMem r pOwner myResourceId allocated, cOk)
    else none

/-- The system with the successful acquisitions of each resource and the releases that
took it out of a table. -/
structure Observed (κ τ ρ : Type) where
  system : System κ τ ρ
  acquired : ρ → Nat
  released : ρ → Nat

/-- The resource a call acquires when it succeeds; one that the task holds already is
not acquired again. -/
def acquires (s : System κ τ ρ) : Call κ τ ρ → Option ρ
  | .acquire r _ _ => some r
  | .acquireResource k r _ _ =>
    if 0 ≤ (s.task k).getOwnedResourceFileDescriptor r then none else some r
  | _ => none

/-- The resource a call releases when it succeeds; without a thread there is no task to
take it from. -/
def releases (s : System κ τ ρ) : Call κ τ ρ → Option ρ
  | .release r t => if (t.or s.running).isSome then some r else none
  | _ => none

def count (counts : ρ → Nat) (of : Option ρ) : ρ → Nat :=
  match of with
  | some r => Function.update counts r (counts r + 1)
  | none => counts

def observe (o : Observed κ τ ρ) (call : Call κ τ ρ) (s' : System κ τ ρ) (ret : ErrorT) :
    Observed κ τ ρ :=
  match call with
  | .createSharedMem r _ _ _ =>
    ⟨s', Function.update o.acquired r 0, Function.update o.released r 0⟩
  | call =>
    if 0 ≤ ret then
      ⟨s', count o.acquired (acquires o.system call), count o.released (releases o.system call)⟩
    else ⟨s', o.acquired, o.released⟩

/-- A number is left in the table of a task. -/
def HasRoom (task : Task τ ρ) : Prop := ∃ fd, bit task.freeResourceIds.map fd = true

/-- The acquisition is made for a thread, and where it takes the mutex nothing behind it
fails. The mutex of another thread is only asked for by a caller that waits. -/
def AcquiresOrderly (s : System κ τ ρ) (r : ρ) (pThread : Option τ) (blocking : Bool) : Prop :=
  ∀ res, s.resource r = some res →
    ((pThread.or s.running).isSome ∨ res.myResourceId = 0) ∧
    ∀ m, res.accessControl = some m → ¬(s.running ≠ none ∧ m.pThread = s.running) →
      if m.locked then blocking = true
      else res.myResourceId ≠ 0 ∧
        ∀ t k, pThread.or s.running = some t → s.owner t = some k → HasRoom (s.task k)

/-- The call goes wrong in none of the three ways. -/
def Orderly (s : System κ τ ρ) : Call κ τ ρ → Prop
  | .run _ => True
  | .acquire r t blocking => AcquiresOrderly s r t blocking
  | .release _ _ => True
  | .acquireResource k r t blocking =>
    0 ≤ (s.task k).getOwnedResourceFileDescriptor r ∨ AcquiresOrderly s r t blocking
  | .createSharedMem _ pOwner _ allocated =>
    ∀ k, pOwner = some k → allocated = true → ¬HasRoom (s.task k)

/-- New tasks, and resources that none of them holds. -/
structure Started (beyond : BitVec 32) (o : Observed κ τ ρ) : Prop where
  tasks : ∀ k, ∃ threads, o.system.task k = Task.fresh beyond threads
  counters : ∀ r res, o.system.resource r = some res → res.refCounter = 0
  acquired : ∀ r, o.acquired r = 0
  released : ∀ r, o.released r = 0

/-- The states of runs in which every call is orderly. -/
inductive Reached (beyond : BitVec 32) : Observed κ τ ρ → Prop
  | start {o : Observed κ τ ρ} (started : Started beyond o) : Reached beyond o
  | step {o : Observed κ τ ρ} {call : Call κ τ ρ} {s' : System κ τ ρ} {ret : ErrorT}
      (reached : Reached beyond o) (orderly : Orderly o.system call)
      (result : perform o.system call = some (s', ret)) :
      Reached beyond (observe o call s' ret)

/-- The counter is the number of acquisitions that were not released, and not negative. -/
def Balanced (o : Observed κ τ ρ) : Prop :=
  ∀ r res, o.system.resource r = some res →
    res.refCounter = o.acquired r - o.released r ∧ 0 ≤ res.refCounter

section Slots

variable {task : Task τ ρ} {r r' : ρ} {fd : Nat} {beyond : BitVec 32}

/-- The slots of a task that hold a resource. -/
def slotsWith (task : Task τ ρ) (r : ρ) : Nat :=
  ((Finset.range maxTaskResources).filter fun fd => task.acquiredResources fd = some r).card

omit [DecidableEq τ] in
theorem slotsWith_congr {task' : Task τ ρ}
    (same : ∀ fd < maxTaskResources, task'.acquiredResources fd = some r ↔
      task.acquiredResources fd = some r) : slotsWith task' r = slotsWith task r :=
  congrArg Finset.card (Finset.filter_congr fun fd member => same fd (Finset.mem_range.mp member))

omit [DecidableEq τ] in
theorem slotsWith_add {task' : Task τ ρ} (inside : fd < maxTaskResources)
    (vacant : task.acquiredResources fd = none)
    (slots : task'.acquiredResources = Function.update task.acquiredResources fd (some r)) :
    slotsWith task' r = slotsWith task r + 1 ∧
      ∀ r' ≠ r, slotsWith task' r' = slotsWith task r' := by
  constructor
  · refine card_join (Finset.mem_range.mpr inside) (by rw [vacant]; simp) fun x _ => ?_
    rw [slots]
    by_cases here : x = fd
    · simp [here]
    · simp [here]
  · intro r' other
    refine slotsWith_congr fun x _ => ?_
    rw [slots]
    by_cases here : x = fd
    · simp [here, vacant, other.symm]
    · simp [here]

omit [DecidableEq τ] in
theorem slotsWith_remove (task : Task τ ρ) (r : ρ) :
    (task.removeResource r = (task, cResourceNotOwned) ∨
      (task.removeResource r).2 = cOk ∧
        slotsWith task r = slotsWith (task.removeResource r).1 r + 1) ∧
      ∀ r' ≠ r, slotsWith (task.removeResource r).1 r' = slotsWith task r' := by
  unfold Task.removeResource
  cases search : task.slotOf r with
  | none => exact ⟨.inl rfl, fun _ _ => rfl⟩
  | some fd =>
    obtain ⟨inside, held⟩ := Task.slotOf_eq_some search
    refine ⟨.inr ⟨rfl, ?_⟩, fun r' other => slotsWith_congr fun x _ => ?_⟩
    · refine card_join (Finset.mem_range.mpr inside) (by simp [Task.dropSlot]) fun x _ => ?_
      by_cases here : x = fd
      · simp [here, held]
      · simp [here, Task.dropSlot]
    · by_cases here : x = fd
      · simp [here, held, Task.dropSlot, other.symm]
      · simp [here, Task.dropSlot]

omit [DecidableEq τ] [DecidableEq ρ] in
theorem room_of_addResource (number : (task.addResource r).2 = fd) : HasRoom task := by
  rw [Task.addResource_eq, IDMap.getNextID, IDMap.nextFrom_eq] at number
  cases first : firstSet task.freeResourceIds.map with
  | none =>
    rw [first, if_pos rfl] at number
    have answer : (-500 : Int) = fd := number
    omega
  | some j => exact ⟨j, (firstSet_eq_some first).1⟩

omit [DecidableEq τ] [DecidableEq ρ] in
theorem addResource_room (kept : Kept beyond task) (room : HasRoom task) :
    task.addResource r ≠ (task, cDatabaseOverflow) := by
  intro full
  obtain ⟨fd, set⟩ := room
  rcases getNextID_cases kept.ids with ⟨fd', _, _, number, _⟩ | none_
  · rw [Task.addResource_eq, number, if_neg (by omega)] at full
    have answer : (fd' : Int) = -500 := congrArg Prod.snd full
    omega
  · rw [IDMap.getNextID, IDMap.nextFrom_eq] at none_
    cases first : firstSet task.freeResourceIds.map with
    | none =>
      rw [firstSet_eq_none first fd] at set
      cases set
    | some j =>
      rw [first] at none_
      have answer := congrArg Prod.snd none_
      simp only at answer
      omega

end Slots

section Systems

variable {s s' : System κ τ ρ} {k : κ} {r : ρ} {ret : ErrorT} {pThread : Option τ}
  {blocking : Bool} {beyond : BitVec 32} {o : Observed κ τ ρ} {call : Call κ τ ρ}

/-- The slots of all tasks that hold a resource. -/
def holders (s : System κ τ ρ) (r : ρ) : Nat := ∑ k, slotsWith (s.task k) r

omit [DecidableEq τ] in
theorem holders_update {task : Task τ ρ} (tasks : s'.task = Function.update s.task k task)
    (r : ρ) : holders s' r + slotsWith (s.task k) r = holders s r + slotsWith task r := by
  have change_ := sum_change (Finset.mem_univ k) (f := fun k => slotsWith (s.task k) r)
    (g := fun k => slotsWith (s'.task k) r) fun x _ other => by
      rw [tasks, Function.update_of_ne other]
  simpa [holders, tasks] using change_

omit [Fintype κ] [DecidableEq τ] [DecidableEq ρ] in
theorem setTask_self (k : κ) : s.setTask k (s.task k) = s :=
  congrArg (fun task => { s with task := task }) (Function.update_eq_self k s.task)

omit [Fintype κ] [DecidableEq κ] [DecidableEq τ] in
theorem setResource_self {res : Resource κ τ} (known : s.resource r = some res) :
    s.setResource r (some res) = s := by
  rw [System.setResource, ← known, Function.update_eq_self]

omit [Fintype κ] in
/-- An orderly acquisition fails and leaves the system as it was, or it enters the
resource and counts it. -/
theorem acquire_orderly (kept : ∀ k, Kept beyond (s.task k))
    (orderly : AcquiresOrderly s r pThread blocking)
    (result : s.acquire r pThread blocking = some (s', ret)) :
    ret < 0 ∧ s' = s ∨ 0 ≤ ret ∧ ∃ k res res', s.resource r = some res ∧
      s'.task = Function.update s.task k ((s.task k).addResource r).1 ∧
      (s.task k).addResource r ≠ (s.task k, cDatabaseOverflow) ∧
      s'.resource = Function.update s.resource r (some res') ∧
      res'.refCounter = res.refCounter + 1 := by
  unfold System.acquire at result
  obtain ⟨res, known, result⟩ := Option.bind_eq_some_iff.mp result
  obtain ⟨⟨control, entered⟩, entry, result⟩ := Option.bind_eq_some_iff.mp result
  obtain ⟨someone, behind⟩ := orderly res known
  -- the mutex is as before, or it was taken and nothing behind it fails
  have taken : entered = cOk ∧ (control = res.accessControl ∨ res.myResourceId ≠ 0 ∧
      ∀ t k, pThread.or s.running = some t → s.owner t = some k → HasRoom (s.task k)) := by
    cases mutex : res.accessControl with
    | none =>
      rw [mutex] at entry
      cases entry
      exact ⟨rfl, .inl rfl⟩
    | some m =>
      rw [mutex, enter] at entry
      have later := behind m mutex
      split at entry
      · cases entry
        exact ⟨rfl, .inl rfl⟩
      · next other =>
        have orderly' := later other
        split at entry
        · next free =>
          cases entry
          rw [free] at orderly'
          exact ⟨rfl, .inr orderly'⟩
        · next locked =>
          rw [Bool.not_eq_false] at locked
          rw [if_pos locked] at orderly'
          rw [if_pos orderly'] at entry
          cases entry
  obtain ⟨rfl, mutex⟩ := taken
  simp only [ne_eq, not_true_eq_false, if_false] at result
  split at result
  · next deleted =>
    cases result
    rcases mutex with rfl | ⟨alive, _⟩
    · exact .inl ⟨by decide, setResource_self known⟩
    · exact absurd deleted alive
  · next alive =>
    cases thread : pThread.or s.running with
    | none =>
      rw [thread] at someone
      rcases someone with known_ | deleted
      · cases known_
      · exact absurd deleted alive
    | some t =>
      rw [thread] at result
      obtain ⟨k, owner, result⟩ := Option.bind_eq_some_iff.mp result
      have room : control = res.accessControl ∨ HasRoom (s.task k) := by
        rcases mutex with same | ⟨_, room⟩
        · exact .inl same
        · exact .inr (room t k thread owner)
      rcases addResource_cases (kept k) r with ⟨fd, _, _, number, _⟩ | full
      · have proper : (0 : Int) ≤ fd := Int.natCast_nonneg fd
        have fine : ((s.task k).addResource r).2 ≥ 0 := by rw [number]; exact proper
        have noError : ¬isError ((s.task k).addResource r).2 = true := by
          rw [isError, decide_eq_true_eq]
          exact Int.not_lt.mpr fine
        rw [if_neg noError] at result
        cases result
        refine .inr ⟨fine, k, res, _, known, rfl, fun full => ?_, rfl, rfl⟩
        rw [full] at fine
        exact absurd fine (by decide : ¬cDatabaseOverflow ≥ 0)
      · rw [full] at result
        cases result
        rcases room with same | room
        · refine .inl ⟨(by decide : cDatabaseOverflow < 0), ?_⟩
          rw [same, setTask_self]
          exact setResource_self known
        · exact absurd full (addResource_room (kept k) room)

omit [Fintype κ] [DecidableEq τ] in
/-- A release fails and leaves the system as it was, takes nothing out of a table because
there is no thread, or takes the resource out of one and counts it. -/
theorem release_cases (result : s.release r pThread = some (s', ret)) :
    ret < 0 ∧ s' = s ∨ 0 ≤ ret ∧ ∃ res res', s.resource r = some res ∧
      s'.resource = Function.update s.resource r (some res') ∧
      ((pThread.or s.running).isSome = false ∧ s'.task = s.task ∧
          res'.refCounter = res.refCounter ∨
        (pThread.or s.running).isSome = true ∧ ∃ k,
          s'.task = Function.update s.task k ((s.task k).removeResource r).1 ∧
          ((s.task k).removeResource r).2 = cOk ∧ res'.refCounter = res.refCounter - 1) := by
  unfold System.release at result
  obtain ⟨res, known, result⟩ := Option.bind_eq_some_iff.mp result
  cases thread : pThread.or s.running with
  | none =>
    rw [thread] at result
    cases result
    exact .inr ⟨by decide, res, _, known, rfl, .inl ⟨rfl, rfl, rfl⟩⟩
  | some t =>
    rw [thread] at result
    obtain ⟨k, _, result⟩ := Option.bind_eq_some_iff.mp result
    simp only at result
    have answer : ((s.task k).removeResource r).2 = cOk ∨
        ((s.task k).removeResource r).2 = cResourceNotOwned := by
      unfold Task.removeResource
      cases (s.task k).slotOf r with
      | none => exact .inr rfl
      | some fd => exact .inl rfl
    rcases answer with fine | failed
    · rw [fine] at result
      cases result
      exact .inr ⟨by decide, res, _, known, rfl, .inr ⟨rfl, k, rfl, fine, rfl⟩⟩
    · rw [failed] at result
      cases result
      exact .inl ⟨by decide, rfl⟩

/-- The counter of a resource, the slots that hold it and the calls so far agree. -/
structure Invariant (beyond : BitVec 32) (o : Observed κ τ ρ) : Prop where
  kept : ∀ k, Kept beyond (o.system.task k)
  counted : ∀ r res, o.system.resource r = some res → res.refCounter = holders o.system r
  ledger : ∀ r, o.acquired r = o.released r + holders o.system r
  absent : ∀ r, o.system.resource r = none → holders o.system r = 0

omit [DecidableEq κ] [DecidableEq τ] in
theorem invariant_started (started : Started beyond o) : Invariant beyond o := by
  have none_ (r : ρ) : holders o.system r = 0 := by
    refine Finset.sum_eq_zero fun k _ => ?_
    obtain ⟨threads, fresh⟩ := started.tasks k
    rw [fresh]
    exact Finset.card_eq_zero.mpr (Finset.filter_false_of_mem fun fd _ held => by cases held)
  refine ⟨fun k => ?_, fun r res known => ?_, fun r => ?_, fun r _ => none_ r⟩
  · obtain ⟨threads, fresh⟩ := started.tasks k
    rw [fresh]
    exact kept_fresh threads
  · rw [none_ r, started.counters r res known]
    rfl
  · rw [none_ r, started.acquired r, started.released r]

omit [DecidableEq κ] [DecidableEq τ] in
theorem balanced_of_invariant (invariant : Invariant beyond o) : Balanced o := by
  intro r res known
  have counted := invariant.counted r res known
  have ledger := invariant.ledger r
  constructor
  · omega
  · omega

omit [DecidableEq κ] [DecidableEq τ] in
/-- Changes that leave the tables and the counters alone. -/
theorem invariant_same {acquired released : ρ → Nat} (invariant : Invariant beyond o)
    (tasks : s'.task = o.system.task)
    (resources : ∀ r res', s'.resource r = some res' → ∃ res, o.system.resource r = some res ∧
      res'.refCounter = res.refCounter)
    (still : ∀ r, s'.resource r = none → o.system.resource r = none)
    (sameAcquired : acquired = o.acquired) (sameReleased : released = o.released) :
    Invariant beyond ⟨s', acquired, released⟩ := by
  have same (r : ρ) : holders s' r = holders o.system r := by rw [holders, tasks, holders]
  refine ⟨fun k => ?_, fun r res' known => ?_, fun r => ?_, fun r none_ => ?_⟩
  · change Kept beyond (s'.task k)
    rw [tasks]
    exact invariant.kept k
  · obtain ⟨res, before, counter⟩ := resources r res' known
    change res'.refCounter = holders s' r
    rw [same r, counter]
    exact invariant.counted r res before
  · change acquired r = released r + holders s' r
    rw [same r, sameAcquired, sameReleased]
    exact invariant.ledger r
  · change holders s' r = 0
    rw [same r]
    exact invariant.absent r (still r none_)

omit [Fintype κ] [DecidableEq κ] [DecidableEq τ] in
theorem resource_update {res res' : Resource κ τ} (known : s.resource r = some res)
    (resources : s'.resource = Function.update s.resource r (some res')) (r' : ρ) :
    s'.resource r' = (if r' = r then some res' else s.resource r') ∧
      (s'.resource r' = none → s.resource r' = none) := by
  rw [resources]
  by_cases here : r' = r
  · subst here
    simp
  · simp [here]

omit [DecidableEq τ] in
/-- One table, and the counter of one resource with it, change. -/
theorem invariant_moved {task : Task τ ρ} {res res' : Resource κ τ} {acquired released : ρ → Nat}
    (invariant : Invariant beyond o) (known : o.system.resource r = some res)
    (tasks : s'.task = Function.update o.system.task k task) (kept : Kept beyond task)
    (others : ∀ r' ≠ r, slotsWith task r' = slotsWith (o.system.task k) r')
    (resources : s'.resource = Function.update o.system.resource r (some res'))
    (counter : res'.refCounter = holders s' r)
    (ledger : acquired r = released r + holders s' r)
    (rest : ∀ r' ≠ r, acquired r' = o.acquired r' ∧ released r' = o.released r') :
    Invariant beyond ⟨s', acquired, released⟩ := by
  have there (r' : ρ) (other : r' ≠ r) : holders s' r' = holders o.system r' := by
    have total := holders_update tasks r'
    rw [others r' other] at total
    omega
  refine ⟨fun k' => ?_, fun r' res'' found => ?_, fun r' => ?_, fun r' none_ => ?_⟩
  · change Kept beyond (s'.task k')
    rw [tasks]
    by_cases same : k' = k
    · subst same
      rwa [Function.update_self]
    · rw [Function.update_of_ne same]
      exact invariant.kept k'
  · change s'.resource r' = some res'' at found
    change res''.refCounter = holders s' r'
    rw [(resource_update known resources r').1] at found
    split at found
    · next same =>
      subst same
      cases found
      exact counter
    · next other =>
      rw [there r' other]
      exact invariant.counted r' res'' found
  · change acquired r' = released r' + holders s' r'
    by_cases same : r' = r
    · rw [same]
      exact ledger
    · rw [(rest r' same).1, (rest r' same).2, there r' same]
      exact invariant.ledger r'
  · have none' := (resource_update known resources r').2 none_
    have other : r' ≠ r := fun same => by
      rw [same, known] at none'
      cases none'
    change holders s' r' = 0
    rw [there r' other]
    exact invariant.absent r' none'

omit [DecidableEq τ] in
/-- An acquisition that enters the resource. -/
theorem invariant_acquired {res res' : Resource κ τ} (invariant : Invariant beyond o)
    (known : o.system.resource r = some res)
    (tasks : s'.task = Function.update o.system.task k ((o.system.task k).addResource r).1)
    (entered : (o.system.task k).addResource r ≠ (o.system.task k, cDatabaseOverflow))
    (resources : s'.resource = Function.update o.system.resource r (some res'))
    (counter : res'.refCounter = res.refCounter + 1) :
    Invariant beyond ⟨s', count o.acquired (some r), o.released⟩ := by
  rcases addResource_cases (invariant.kept k) r with
    ⟨fd, inside, vacant, _, kept, slots, _⟩ | full
  · obtain ⟨more, others⟩ := slotsWith_add inside vacant slots
    have total := holders_update tasks r
    have counted := invariant.counted r res known
    have ledger := invariant.ledger r
    refine invariant_moved invariant known tasks kept others resources ?_ ?_ fun r' other => ?_
    · omega
    · rw [count, Function.update_self]
      omega
    · exact ⟨Function.update_of_ne other _ _, rfl⟩
  · exact absurd full entered

omit [DecidableEq τ] in
/-- A release that takes the resource out of a table. -/
theorem invariant_released {res res' : Resource κ τ} (invariant : Invariant beyond o)
    (known : o.system.resource r = some res)
    (tasks : s'.task = Function.update o.system.task k ((o.system.task k).removeResource r).1)
    (left : ((o.system.task k).removeResource r).2 = cOk)
    (resources : s'.resource = Function.update o.system.resource r (some res'))
    (counter : res'.refCounter = res.refCounter - 1) :
    Invariant beyond ⟨s', o.acquired, count o.released (some r)⟩ := by
  obtain ⟨failed | ⟨_, less⟩, others⟩ := slotsWith_remove (o.system.task k) r
  · rw [failed] at left
    exact absurd left (by decide : cResourceNotOwned ≠ cOk)
  · have total := holders_update tasks r
    have counted := invariant.counted r res known
    have ledger := invariant.ledger r
    refine invariant_moved invariant known tasks (kept_removeResource (invariant.kept k) r) others
      resources ?_ ?_ fun r' other => ?_
    · omega
    · rw [count, Function.update_self]
      omega
    · exact ⟨rfl, Function.update_of_ne other _ _⟩

omit [DecidableEq τ] in
/-- A new area that is not entered into a table. -/
theorem invariant_created {pOwner : Option κ} {myResourceId : Nat} {allocated : Bool}
    (invariant : Invariant beyond o) (fresh : o.system.resource r = none)
    (orderly : ∀ k, pOwner = some k → allocated = true → ¬HasRoom (o.system.task k)) :
    Invariant beyond ⟨o.system.createSharedMem r pOwner myResourceId allocated,
      Function.update o.acquired r 0, Function.update o.released r 0⟩ := by
  obtain ⟨area, whole⟩ : ∃ area : Resource κ τ, area.refCounter = 0 ∧
      o.system.createSharedMem r pOwner myResourceId allocated =
        o.system.setResource r (some area) := by
    refine ⟨⟨Files.cSharedMem, 0, myResourceId, none, pOwner, []⟩, rfl, ?_⟩
    unfold System.createSharedMem
    cases owner : pOwner with
    | none => rfl
    | some k =>
      cases allocation : allocated with
      | false => rfl
      | true =>
        have full : (o.system.task k).addResource r = (o.system.task k, cDatabaseOverflow) := by
          rcases addResource_cases (invariant.kept k) r with ⟨fd, _, _, number, _⟩ | full
          · exact absurd (room_of_addResource number) (orderly k owner allocation)
          · exact full
        change (o.system.setResource r _).setTask k ((o.system.task k).addResource r).1 = _
        rw [full]
        exact setTask_self k
  obtain ⟨zero, result⟩ := whole
  rw [result]
  have none_ := invariant.absent r fresh
  refine ⟨invariant.kept, fun r' res known => ?_, fun r' => ?_, fun r' missing_ => ?_⟩
  · change Function.update o.system.resource r (some area) r' = some res at known
    change res.refCounter = holders o.system r'
    by_cases here : r' = r
    · rw [here, Function.update_self] at known
      cases known
      rw [here, none_, zero]
      rfl
    · rw [Function.update_of_ne here] at known
      exact invariant.counted r' res known
  · change Function.update o.acquired r 0 r' = Function.update o.released r 0 r' +
      holders o.system r'
    by_cases here : r' = r
    · rw [here, Function.update_self, Function.update_self, none_]
    · rw [Function.update_of_ne here, Function.update_of_ne here]
      exact invariant.ledger r'
  · change Function.update o.system.resource r (some area) r' = none at missing_
    by_cases here : r' = r
    · rw [here]
      exact none_
    · rw [Function.update_of_ne here] at missing_
      exact invariant.absent r' missing_

/-- One orderly call keeps the counters right, and when it fails nothing has changed. -/
theorem perform_orderly (invariant : Invariant beyond o) (orderly : Orderly o.system call)
    (result : perform o.system call = some (s', ret)) :
    Invariant beyond (observe o call s' ret) ∧ (ret < 0 → s' = o.system) := by
  have quiet : Invariant beyond ⟨o.system, o.acquired, o.released⟩ := invariant
  have acquiring (r : ρ) (t : Option τ) (blocking : Bool)
      (orderly : AcquiresOrderly o.system r t blocking)
      (result : o.system.acquire r t blocking = some (s', ret)) :
      (0 ≤ ret → Invariant beyond ⟨s', count o.acquired (some r), o.released⟩) ∧
        (ret < 0 → s' = o.system) := by
    rcases acquire_orderly invariant.kept orderly result with
      ⟨failed, same⟩ | ⟨fine, k, res, res', known, tasks, entered, resources, counter⟩
    · exact ⟨fun fine => absurd fine (Int.not_le.mpr failed), fun _ => same⟩
    · exact ⟨fun _ => invariant_acquired invariant known tasks entered resources counter,
        fun failed => absurd fine (Int.not_le.mpr failed)⟩
  cases call with
  | run t =>
    cases result
    exact ⟨invariant_same invariant rfl (fun r res known => ⟨res, known, rfl⟩)
      (fun _ none_ => none_)
      rfl rfl, fun failed => absurd failed (by decide)⟩
  | acquire r t blocking =>
    obtain ⟨succeeds, fails⟩ := acquiring r t blocking orderly result
    refine ⟨?_, fails⟩
    simp only [observe, acquires, releases]
    split
    · next fine => exact succeeds fine
    · next failed =>
      rw [fails (Int.not_le.mp failed)]
      exact quiet
  | acquireResource k r t blocking =>
    simp only [perform, System.acquireResource] at result
    simp only [observe, acquires, releases]
    split at result
    · next owned =>
      cases result
      refine ⟨?_, fun failed => absurd owned (Int.not_le.mpr failed)⟩
      rw [if_pos owned, if_pos owned]
      exact quiet
    · next missing_ =>
      obtain ⟨succeeds, fails⟩ := acquiring r t blocking (orderly.resolve_left missing_) result
      refine ⟨?_, fails⟩
      rw [if_neg missing_]
      split
      · next fine => exact succeeds fine
      · next failed =>
        rw [fails (Int.not_le.mp failed)]
        exact quiet
  | release r t =>
    simp only [observe, acquires, releases]
    rcases release_cases result with ⟨failed, same⟩ | ⟨fine, res, res', known, resources,
      ⟨noThread, tasks, counter⟩ | ⟨thread, k, tasks, left, counter⟩⟩
    · rw [if_neg (Int.not_le.mpr failed), same]
      exact ⟨quiet, fun _ => rfl⟩
    · rw [if_pos fine, if_neg (by rw [noThread]; decide)]
      refine ⟨invariant_same invariant tasks (fun r' res'' found => ?_) (fun r' none_ =>
        (resource_update known resources r').2 none_) rfl rfl,
        fun failed => absurd fine (Int.not_le.mpr failed)⟩
      rw [(resource_update known resources r').1] at found
      split at found
      · next same =>
        cases found
        exact ⟨res, same ▸ known, counter⟩
      · exact ⟨res'', found, rfl⟩
    · rw [if_pos fine, if_pos thread]
      exact ⟨invariant_released invariant known tasks left resources counter,
        fun failed => absurd fine (Int.not_le.mpr failed)⟩
  | createSharedMem r pOwner myResourceId allocated =>
    simp only [perform] at result
    split at result
    · next fresh =>
      cases result
      exact ⟨invariant_created invariant (Option.isNone_iff_eq_none.mp fresh) orderly,
        fun failed => absurd failed (by decide)⟩
    · cases result

theorem invariant_of_reached (reached : Reached beyond o) : Invariant beyond o := by
  induction reached with
  | start started => exact invariant_started started
  | step _ orderly result ih => exact (perform_orderly ih orderly result).1

/-- In every run of orderly calls the counter of each resource is the number of its
acquisitions that were not released, and an orderly call that fails leaves the counters,
the tables and the mutexes as they were. -/
theorem balanced_of_orderly (beyond : BitVec 32) (o : Observed κ τ ρ) (reached : Reached beyond o) :
    Balanced o ∧ ∀ call s' ret, Orderly o.system call →
      perform o.system call = some (s', ret) → ret < 0 → s' = o.system := by
  have invariant := invariant_of_reached reached
  exact ⟨balanced_of_invariant invariant, fun call s' ret orderly result =>
    (perform_orderly invariant orderly result).2⟩

/-- One task with one thread, and the given resource. -/
def single (res : Option (Resource Unit Unit)) : Observed Unit Unit Unit :=
  ⟨⟨fun _ => Task.fresh 1 [()], [()], fun _ => res, fun _ => some (), some ()⟩,
    fun _ => 0, fun _ => 0⟩

theorem started_single {res : Option (Resource Unit Unit)}
    (zero : ∀ x, res = some x → x.refCounter = 0) : Started 1 (single res) :=
  ⟨fun _ => ⟨[()], rfl⟩, fun _ => zero, fun _ => rfl, fun _ => rfl⟩

/-- A file that nobody holds, with its mutex and its number. -/
def unheld (myResourceId : Nat) : Resource Unit Unit :=
  ⟨Files.cFile, 0, myResourceId, some Mutex.create, none, []⟩

theorem started_unheld (myResourceId : Nat) : Started 1 (single (some (unheld myResourceId))) := by
  refine started_single fun x same => ?_
  cases same
  rfl

/-- The resource is acquired and released. -/
theorem balanced_of_orderly_released : ∃ s₁ ret₁ s₂ ret₂,
    perform (single (some (unheld 1))).system (.acquire () (some ()) true) = some (s₁, ret₁) ∧
      perform s₁ (.release () (some ())) = some (s₂, ret₂) ∧
      Balanced (observe (observe (single (some (unheld 1))) (.acquire () (some ()) true) s₁ ret₁)
        (.release () (some ())) s₂ ret₂) := by
  refine ⟨_, _, _, _, rfl, rfl, (balanced_of_orderly 1 _
    (.step (.step (.start (started_unheld 1)) ?_ rfl)
      (show Orderly _ (.release () (some ())) from trivial) rfl)).1⟩
  intro res known
  cases known
  refine ⟨.inl rfl, fun m mutex other => ?_⟩
  cases mutex
  refine ⟨by decide, fun _ _ _ _ => ⟨0, ?_⟩⟩
  exact (by decide : bit (Task.fresh 1 [()] : Task Unit Unit).freeResourceIds.map 0 = true)

/-- The observed system after calls of any kind. -/
def observeAll : Observed κ τ ρ → List (Call κ τ ρ) → Option (Observed κ τ ρ)
  | o, [] => some o
  | o, call :: calls =>
    (perform o.system call).bind fun result => observeAll (observe o call result.1 result.2) calls

/-- A shared memory area that its creator releases has a counter below zero, and an
acquisition that fails leaves the mutex locked. -/
theorem uncounted_area_and_locked_mutex :
    (¬∀ (beyond : BitVec 32) (o o' : Observed Unit Unit Unit) (calls : List (Call Unit Unit Unit)),
      Started beyond o → observeAll o calls = some o' → Balanced o') ∧
    ¬∀ (beyond : BitVec 32) (o : Observed Unit Unit Unit) (call : Call Unit Unit Unit)
      (s' : System Unit Unit Unit) (ret : ErrorT), Started beyond o →
      perform o.system call = some (s', ret) → ret < 0 → s' = o.system := by
  constructor
  · intro always
    have started : Started 1 (single none) := started_single fun x same => by cases same
    have balanced := always 1 (single none) _
      [.createSharedMem () (some ()) 1 true, .release () (some ())] started rfl
    exact absurd (balanced () ⟨Files.cSharedMem, -1, 1, none, some (), []⟩ rfl).2 (by decide)
  · intro always
    have same := always 1 _ (.acquire () (some ()) true) _ cResourceRemoved (started_unheld 0) rfl
      (by decide)
    have mutex := congrArg (fun s => (s.resource ()).bind (·.accessControl)) same
    exact absurd mutex (by decide)

end Systems

end Orcos.Guarantees.ReferenceCounts
