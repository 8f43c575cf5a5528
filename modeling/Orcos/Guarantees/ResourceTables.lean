import Mathlib.Data.Finset.Card
import Orcos.Guarantees.IdentifierMaps
import Orcos.Lib.Sequences
import Orcos.Source.Tasks.Resources

/-!
# The resource tables of tasks

Source: src/source/process/Task.cc, `acquireResource`, `releaseResource`, `addResource`,
`removeResource`, `removeThread`.

The slots, the map of free numbers and the count of a task stay in step under all calls
of the kernel, except for the numbers that the constructor of the map takes out
of it: they are in use from the beginning, and no resource is ever under them.
-/
namespace Orcos.Guarantees.ResourceTables
open Lib.Tallies Lib.WordBits Source Source.Files Source.Tasks IdentifierMaps

variable {κ τ ρ : Type}

/-- The slots with a resource. -/
def occupied (task : Task τ ρ) : Finset Nat :=
  (Finset.range maxTaskResources).filter fun fd => (task.acquiredResources fd).isSome

/-- The three records of a task agree. -/
structure Consistent (task : Task τ ρ) : Prop where
  inUse : ∀ fd < maxTaskResources,
    task.acquiredResources fd ≠ none ↔ bit task.freeResourceIds.map fd = false
  count : task.numResources = (occupied task).card

/-- What holds of a task when the map is made with the numbers of `missing` in use. -/
structure Kept (beyond : BitVec 32) (task : Task τ ρ) : Prop where
  ids : Tracks maxTaskResources (missing beyond maxTaskResources ∪ occupied task)
    task.freeResourceIds
  apart : ∀ fd ∈ missing beyond maxTaskResources, task.acquiredResources fd = none
  count : task.numResources = (occupied task).card

variable {beyond : BitVec 32} {task : Task τ ρ} {res : ρ} {fd : Nat}

theorem mem_occupied : fd ∈ occupied task ↔
    fd < maxTaskResources ∧ (task.acquiredResources fd).isSome := by
  rw [occupied, Finset.mem_filter, Finset.mem_range]

theorem kept_fresh (threads : List τ) : Kept beyond (Task.fresh beyond threads : Task τ ρ) := by
  have empty : occupied (Task.fresh beyond threads : Task τ ρ) = ∅ := by
    simp [occupied, Task.fresh]
  refine ⟨?_, fun _ _ => rfl, by rw [empty]; rfl⟩
  rw [empty, Finset.union_empty]
  exact fresh_tracks beyond (by decide)

/-- With the map as it is meant to be the records agree, and with no other one. -/
theorem Kept.consistent_iff (kept : Kept beyond task) : Consistent task ↔ beyond = 1#32 := by
  have all : missing beyond maxTaskResources = ∅ ↔ beyond = 1#32 := by
    rw [missing_eq_empty_iff beyond (by decide)]
    simp [maxTaskResources]
  rw [← all]
  constructor
  · intro consistent
    refine Finset.eq_empty_of_forall_notMem fun fd member => ?_
    have inside : fd < maxTaskResources :=
      Finset.mem_range.mp (Finset.mem_of_mem_filter fd member)
    refine (consistent.inUse fd inside).mpr ?_ (kept.apart fd member)
    rw [kept.ids.bits]
    simp [member]
  · intro none_
    refine ⟨fun fd inside => ?_, kept.count⟩
    rw [kept.ids.bits, decide_eq_false_iff_not, none_, Finset.empty_union, mem_occupied]
    simp [inside, Option.ne_none_iff_isSome]

/-- The next number is one that is not in use. -/
theorem getNextID_cases {ids : Nat} {used : Finset Nat} {m : IDMap} (tracks : Tracks ids used m) :
    (∃ fd < ids, fd ∉ used ∧ m.getNextID.2 = fd ∧ Tracks ids (insert fd used) m.getNextID.1) ∨
      m.getNextID = (m, -1) := by
  obtain ⟨kept, answer⟩ := perform_simulates used m .getNextID tracks trivial
  cases lowest : lowestFree ids used with
  | some fd =>
    obtain ⟨free, inside, _⟩ := List.find?_range_eq_some.mp lowest
    simp only [performOn, lowest, perform, Prod.map_fst, Prod.map_snd, id_eq] at kept answer
    exact .inl ⟨fd, List.mem_range.mp inside, by simpa using free, (Answer.id.inj answer).symm,
      kept⟩
  | none =>
    rw [lowestFree_eq_firstSet tracks] at lowest
    exact .inr (IDMap.getNextID_none lowest)

/-- A resource is entered under a free number, or not at all. -/
theorem addResource_cases (kept : Kept beyond task) (res : ρ) :
    (∃ fd < maxTaskResources, task.acquiredResources fd = none ∧
      (task.addResource res).2 = fd ∧ Kept beyond (task.addResource res).1 ∧
      (task.addResource res).1.acquiredResources =
        Function.update task.acquiredResources fd (some res) ∧
      (task.addResource res).1.threadDb = task.threadDb) ∨
    task.addResource res = (task, cDatabaseOverflow) := by
  rcases getNextID_cases kept.ids with ⟨fd, inside, free, number, tracks⟩ | full
  · obtain ⟨known, empty⟩ := not_or.mp (Finset.mem_union.not.mp free)
    have vacant : task.acquiredResources fd = none := by
      by_contra held
      exact empty (mem_occupied.mpr ⟨inside, Option.ne_none_iff_isSome.mp held⟩)
    have proper : ¬(fd : Int) = -1 := by omega
    have result : task.addResource res = ({ task with
        acquiredResources := Function.update task.acquiredResources fd (some res)
        numResources := task.numResources + 1
        freeResourceIds := task.freeResourceIds.getNextID.1 }, (fd : Int)) := by
      rw [Task.addResource_eq, number, if_neg proper, Int.toNat_natCast]
    have joined (x : Nat) (_ : x ∈ Finset.range maxTaskResources) :
        ((task.addResource res).1.acquiredResources x).isSome ↔
          (task.acquiredResources x).isSome ∨ x = fd := by
      rw [result]
      by_cases here : x = fd
      · simp [here]
      · simp [here]
    have more : occupied (task.addResource res).1 = insert fd (occupied task) := by
      ext x
      rw [Finset.mem_insert, mem_occupied, mem_occupied]
      constructor
      · rintro ⟨low, held⟩
        rcases (joined x (Finset.mem_range.mpr low)).mp held with old | here
        · exact .inr ⟨low, old⟩
        · exact .inl here
      · rintro (rfl | ⟨low, old⟩)
        · exact ⟨inside, (joined x (Finset.mem_range.mpr inside)).mpr (.inr rfl)⟩
        · exact ⟨low, (joined x (Finset.mem_range.mpr low)).mpr (.inl old)⟩
    have size : (occupied (task.addResource res).1).card = (occupied task).card + 1 := by
      rw [more, Finset.card_insert_of_notMem empty]
    refine .inl ⟨fd, inside, vacant, by rw [result], ⟨?_, ?_, ?_⟩, by rw [result], by rw [result]⟩
    · rw [more, Finset.union_insert, result]
      exact tracks
    · intro x member
      have other : x ≠ fd := fun here => known (here ▸ member)
      rw [result]
      exact (Function.update_of_ne other _ _).trans (kept.apart x member)
    · rw [size, result]
      have count := kept.count
      push_cast
      omega
  · refine .inr ?_
    rw [Task.addResource_eq, full]
    rfl

/-- A slot that holds a resource is emptied. -/
theorem kept_dropSlot (kept : Kept beyond task) (inside : fd < maxTaskResources)
    (held : (task.acquiredResources fd).isSome) : Kept beyond (task.dropSlot fd) := by
  have member : fd ∈ occupied task := mem_occupied.mpr ⟨inside, held⟩
  have known : fd ∉ missing beyond maxTaskResources := fun lost => by
    rw [kept.apart fd lost] at held
    cases held
  have less : occupied (task.dropSlot fd) = (occupied task).erase fd := by
    ext x
    rw [Finset.mem_erase, mem_occupied, mem_occupied]
    by_cases here : x = fd
    · simp [here, Task.dropSlot]
    · simp [here, Task.dropSlot]
  obtain ⟨tracks, _⟩ := perform_simulates _ _ (.freeID fd) kept.ids (by exact Int.natCast_nonneg fd)
  have freed : task.freeResourceIds.freeID fd =
      some { task.freeResourceIds with map := setBit task.freeResourceIds.map fd } :=
    IDMap.freeID_eq _ (kept.ids.count ▸ inside)
  have low : (fd : Int) < (maxTaskResources : Nat) := by exact_mod_cast inside
  simp only [perform, freed, performOn, low, if_true, Int.toNat_natCast] at tracks
  refine ⟨?_, fun x lost => ?_, ?_⟩
  · have erased : missing beyond maxTaskResources ∪ (occupied task).erase fd =
        (missing beyond maxTaskResources ∪ occupied task).erase fd := by
      rw [Finset.erase_union_distrib, Finset.erase_eq_of_notMem known]
    have ids : (task.dropSlot fd).freeResourceIds =
        { task.freeResourceIds with map := setBit task.freeResourceIds.map fd } := by
      rw [Task.dropSlot, freed]
      rfl
    rw [less, erased, ids]
    exact tracks
  · by_cases here : x = fd
    · rw [here]
      exact Function.update_self ..
    · exact (Function.update_of_ne here _ _).trans (kept.apart x lost)
  · have size := Finset.card_erase_add_one member
    have count := kept.count
    rw [less]
    change task.numResources - 1 = _
    omega

theorem kept_removeResource [DecidableEq ρ] (kept : Kept beyond task) (res : ρ) :
    Kept beyond (task.removeResource res).1 := by
  unfold Task.removeResource
  cases search : task.slotOf res with
  | none => exact kept
  | some fd =>
    obtain ⟨inside, held⟩ := Task.slotOf_eq_some search
    exact kept_dropSlot kept inside (by rw [held]; rfl)

theorem slots_removeResource [DecidableEq ρ] (res : ρ) (fd : Nat) :
    (task.removeResource res).1.acquiredResources fd = task.acquiredResources fd ∨
      (task.removeResource res).1.acquiredResources fd = none := by
  unfold Task.removeResource
  cases task.slotOf res with
  | none => exact .inl rfl
  | some i =>
    by_cases here : fd = i
    · exact .inr (by rw [here]; exact Function.update_self ..)
    · exact .inl (Function.update_of_ne here _ _)

theorem threadDb_removeResource [DecidableEq ρ] (res : ρ) :
    (task.removeResource res).1.threadDb = task.threadDb := by
  unfold Task.removeResource
  cases task.slotOf res <;> rfl

section Systems

variable {s s' s'' : System κ τ ρ} {k : κ} {t : τ} {r : ρ} {ret : ErrorT} {pThread : Option τ}
  {blocking : Bool}

/-- Resources are at most taken out of the tables. -/
structure Trims (beyond : BitVec 32) (s s' : System κ τ ρ) : Prop where
  kept : ∀ k, Kept beyond (s.task k) → Kept beyond (s'.task k)
  slots : ∀ k fd, (s'.task k).acquiredResources fd = (s.task k).acquiredResources fd ∨
    (s'.task k).acquiredResources fd = none
  threads : ∀ k, (s'.task k).threadDb = (s.task k).threadDb
  owner : s'.owner = s.owner

theorem Trims.same (tasks : s'.task = s.task) (owner : s'.owner = s.owner) : Trims beyond s s' := by
  refine ⟨fun k kept => ?_, fun k fd => .inl ?_, fun k => ?_, owner⟩
  · rwa [tasks]
  · rw [tasks]
  · rw [tasks]

theorem Trims.trans (first : Trims beyond s s') (second : Trims beyond s' s'') :
    Trims beyond s s'' := by
  refine ⟨fun k kept => second.kept k (first.kept k kept), fun k fd => ?_,
    fun k => (second.threads k).trans (first.threads k), second.owner.trans first.owner⟩
  rcases second.slots k fd with same | none_
  · rw [same]
    exact first.slots k fd
  · exact .inr none_

/-- The threads in a task's list are its own, and each is there once. -/
structure Wired (s : System κ τ ρ) : Prop where
  owner : ∀ k, ∀ t ∈ (s.task k).threadDb, s.owner t = some k
  once : ∀ k, (s.task k).threadDb.Nodup

theorem Trims.wired (trims : Trims beyond s s') (wired : Wired s) : Wired s' := by
  refine ⟨fun k t member => ?_, fun k => ?_⟩
  · rw [trims.threads k] at member
    rw [trims.owner]
    exact wired.owner k t member
  · rw [trims.threads k]
    exact wired.once k

/-- The system, and for each number of a task the resource it was given for last. -/
structure Observed (κ τ ρ : Type) where
  system : System κ τ ρ
  given : κ → Nat → Option ρ

/-- New tasks with their threads; nothing was given out so far. -/
structure Started (beyond : BitVec 32) (o : Observed κ τ ρ) : Prop where
  tasks : ∀ k, ∃ threads, o.system.task k = Task.fresh beyond threads
  wired : Wired o.system

/-- What is found under a number was given that number last. -/
def Named (o : Observed κ τ ρ) (k : κ) : Prop :=
  ∀ fd r, (o.system.task k).getOwnedResourceByFileDescriptor fd = some r → o.given k fd = some r

structure Invariant (beyond : BitVec 32) (o : Observed κ τ ρ) : Prop where
  kept : ∀ k, Kept beyond (o.system.task k)
  wired : Wired o.system
  named : ∀ k, Named o k

variable {o o' : Observed κ τ ρ}

theorem invariant_started (started : Started beyond o) : Invariant beyond o := by
  refine ⟨fun k => ?_, started.wired, fun k fd r found => ?_⟩
  · obtain ⟨threads, fresh⟩ := started.tasks k
    rw [fresh]
    exact kept_fresh threads
  · obtain ⟨threads, fresh⟩ := started.tasks k
    rw [fresh] at found
    unfold Task.getOwnedResourceByFileDescriptor at found
    split at found <;> cases found

variable [DecidableEq κ]

/-- A number that is not an error is given for the resource. -/
def note (given : κ → Nat → Option ρ) (place : Option (κ × ρ)) (answer : ErrorT) :
    κ → Nat → Option ρ :=
  match place with
  | some (k, r) =>
    if 0 ≤ answer then Function.update given k (Function.update (given k) answer.toNat (some r))
    else given
  | none => given

theorem setTask_self {i : Nat} (empty : (s.task k).acquiredResources i = none) :
    s.setTask k { s.task k with
      acquiredResources := Function.update (s.task k).acquiredResources i none } = s := by
  have same : Function.update (s.task k).acquiredResources i none =
      (s.task k).acquiredResources := by
    rw [← empty, Function.update_eq_self]
  rw [same]
  exact congrArg (fun task => { s with task := task }) (Function.update_eq_self k s.task)

/-- A thread is taken off the list of its task. -/
theorem wired_erase [DecidableEq τ] (wired : Wired s) (owner : s.owner t = some k)
    (tasks : ∀ k', (s'.task k').threadDb =
      if k' = k then (s.task k).threadDb.erase t else (s.task k').threadDb)
    (owners : s'.owner = Function.update s.owner t none) : Wired s' := by
  refine ⟨fun k' t' member => ?_, fun k' => ?_⟩
  · rw [tasks k'] at member
    have other : t' ≠ t ∧ s.owner t' = some k' := by
      split at member
      · next here =>
        subst here
        have kept := ((wired.once k').mem_erase_iff).mp member
        exact ⟨kept.1, wired.owner k' t' kept.2⟩
      · next different =>
        have own := wired.owner k' t' member
        refine ⟨fun same => different ?_, own⟩
        rw [same, owner] at own
        exact (Option.some.inj own).symm
    rw [owners, Function.update_of_ne other.1]
    exact other.2
  · rw [tasks k']
    split
    · exact (wired.once k).erase t
    · exact wired.once k'

/-- Taking resources out keeps the names of those that stay. -/
theorem named_shrink {p : Option (κ × ρ)} {answer : ErrorT}
    (slots : ∀ k fd, (s'.task k).acquiredResources fd = (o.system.task k).acquiredResources fd ∨
      (s'.task k).acquiredResources fd = none)
    (named : ∀ k, Named o k) (quiet : note o.given p answer = o.given) (k : κ) :
    Named ⟨s', note o.given p answer⟩ k := by
  intro fd r found
  rw [quiet]
  refine named k fd r ?_
  unfold Task.getOwnedResourceByFileDescriptor at found ⊢
  split at found
  · cases found
  · next inside =>
    rw [if_neg inside]
    rcases slots k fd with same | none_
    · rw [← same]
      exact found
    · rw [none_] at found
      cases found

/-- Entering a resource keeps the records in step and names it. -/
theorem invariant_add (invariant : Invariant beyond o)
    (tasks : s'.task = Function.update o.system.task k ((o.system.task k).addResource r).1)
    (owner : s'.owner = o.system.owner) :
    Invariant beyond ⟨s', note o.given (some (k, r)) ((o.system.task k).addResource r).2⟩ := by
  rcases addResource_cases (invariant.kept k) r with
    ⟨fd, inside, vacant, number, kept, slots, threads⟩ | full
  · refine ⟨fun k' => ?_, ⟨fun k' t member => ?_, fun k' => ?_⟩, fun k' fd' r' found => ?_⟩
    · change Kept beyond (s'.task k')
      rw [tasks]
      by_cases here : k' = k
      · subst here
        rwa [Function.update_self]
      · rw [Function.update_of_ne here]
        exact invariant.kept k'
    · change s'.owner t = some k'
      change t ∈ (s'.task k').threadDb at member
      rw [owner]
      rw [tasks] at member
      refine invariant.wired.owner k' t ?_
      by_cases here : k' = k
      · subst here
        rwa [Function.update_self, threads] at member
      · rwa [Function.update_of_ne here] at member
    · change (s'.task k').threadDb.Nodup
      rw [tasks]
      by_cases here : k' = k
      · subst here
        rw [Function.update_self, threads]
        exact invariant.wired.once k'
      · rw [Function.update_of_ne here]
        exact invariant.wired.once k'
    · change (s'.task k').getOwnedResourceByFileDescriptor fd' = some r' at found
      change note o.given (some (k, r)) _ k' fd' = some r'
      have proper : (0 : Int) ≤ fd := Int.natCast_nonneg fd
      rw [number, note]
      simp only [proper, if_true, Int.toNat_natCast]
      rw [tasks] at found
      by_cases here : k' = k
      · subst here
        rw [Function.update_self] at found ⊢
        unfold Task.getOwnedResourceByFileDescriptor at found
        split at found
        · cases found
        · next low =>
          rw [slots] at found
          by_cases new : fd' = fd
          · rw [new, Function.update_self] at found ⊢
            exact found
          · rw [Function.update_of_ne new] at found ⊢
            refine invariant.named k' fd' r' ?_
            rw [Task.getOwnedResourceByFileDescriptor, if_neg low]
            exact found
      · rw [Function.update_of_ne here] at found ⊢
        exact invariant.named k' fd' r' found
  · have same : s'.task = o.system.task := by
      rw [tasks, full, Function.update_eq_self]
    have trims : Trims beyond o.system s' := .same same owner
    refine ⟨fun k' => trims.kept k' (invariant.kept k'), trims.wired invariant.wired, ?_⟩
    refine named_shrink trims.slots invariant.named ?_
    rw [full, note]
    exact if_neg (by decide : ¬(0 : Int) ≤ cDatabaseOverflow)

theorem invariant_trims {p : Option (κ × ρ)} {answer : ErrorT} (invariant : Invariant beyond o)
    (trims : Trims beyond o.system s') (quiet : note o.given p answer = o.given) :
    Invariant beyond ⟨s', note o.given p answer⟩ :=
  ⟨fun k => trims.kept k (invariant.kept k), trims.wired invariant.wired,
    named_shrink trims.slots invariant.named quiet⟩

variable [DecidableEq ρ]

theorem trims_removeResource (tasks : s'.task =
      Function.update s.task k ((s.task k).removeResource r).1) (owner : s'.owner = s.owner) :
    Trims beyond s s' := by
  refine ⟨fun k' kept => ?_, fun k' fd => ?_, fun k' => ?_, owner⟩
  all_goals rw [tasks]
  all_goals by_cases here : k' = k
  · subst here
    rw [Function.update_self]
    exact kept_removeResource kept r
  · rwa [Function.update_of_ne here]
  · subst here
    rw [Function.update_self]
    exact slots_removeResource r fd
  · rw [Function.update_of_ne here]
    exact .inl rfl
  · subst here
    rw [Function.update_self]
    exact threadDb_removeResource r
  · rw [Function.update_of_ne here]

/-- A release takes a resource out of the table of the thread's task, or leaves the
tables alone. -/
theorem release_cases (result : s.release r pThread = some (s', ret)) :
    s'.owner = s.owner ∧ (s'.task = s.task ∧ pThread.or s.running = none ∨
      ∃ t k, pThread.or s.running = some t ∧ s.owner t = some k ∧
        s'.task = Function.update s.task k ((s.task k).removeResource r).1) := by
  unfold System.release at result
  obtain ⟨res, _, result⟩ := Option.bind_eq_some_iff.mp result
  cases thread : pThread.or s.running with
  | none =>
    rw [thread] at result
    cases result
    exact ⟨rfl, .inl ⟨rfl, rfl⟩⟩
  | some t =>
    rw [thread] at result
    obtain ⟨k, task, result⟩ := Option.bind_eq_some_iff.mp result
    simp only at result
    split at result
    · next failed =>
      cases result
      refine ⟨rfl, .inr ⟨t, k, rfl, task, ?_⟩⟩
      have same : ((s.task k).removeResource r).1 = s.task k := by
        unfold Task.removeResource at failed ⊢
        cases search : (s.task k).slotOf r with
        | none => rfl
        | some fd =>
          rw [search] at failed
          cases failed
      rw [same, Function.update_eq_self]
    · cases result
      exact ⟨rfl, .inr ⟨t, k, rfl, task, rfl⟩⟩

theorem trims_release (result : s.release r pThread = some (s', ret)) : Trims beyond s s' := by
  obtain ⟨owner, ⟨tasks, _⟩ | ⟨_, _, _, _, tasks⟩⟩ := release_cases result
  · exact .same tasks owner
  · exact trims_removeResource tasks owner

theorem trims_destroy (result : s.destroy r = some s') : Trims beyond s s' := by
  have all (tasks : List κ) (s : System κ τ ρ) : Trims beyond s
      (tasks.foldl (fun s k => s.setTask k ((s.task k).removeResource r).1) s) := by
    induction tasks generalizing s with
    | nil => exact .same rfl rfl
    | cons k tasks ih =>
      have first : Trims beyond s (s.setTask k ((s.task k).removeResource r).1) :=
        trims_removeResource rfl rfl
      exact first.trans (ih _)
  unfold System.destroy at result
  obtain ⟨res, _, result⟩ := Option.bind_eq_some_iff.mp result
  cases result
  exact (all _ s).trans (.same rfl rfl)

/-- A thread's release of a resource takes it out of the table of its task, and everything
else that happens takes more out. -/
theorem releaseResource_cases (beyond : BitVec 32)
    (result : s.releaseResource r pThread = some (s', ret)) :
    ∃ (s₁ s₂ : System κ τ ρ) (ret' : ErrorT), s₁.task = s.task ∧ s₁.owner = s.owner ∧
      s₁.release r pThread = some (s₂, ret') ∧ Trims beyond s₂ s' := by
  unfold System.releaseResource at result
  obtain ⟨res, _, result⟩ := Option.bind_eq_some_iff.mp result
  split at result
  · obtain ⟨⟨s₂, ret'⟩, released, result⟩ := Option.bind_eq_some_iff.mp result
    obtain ⟨s₃, destroyed, result⟩ := Option.bind_eq_some_iff.mp result
    cases result
    exact ⟨s, s₂, ret', rfl, rfl, released, trims_destroy destroyed⟩
  · split at result
    · obtain ⟨t, thread, result⟩ := Option.bind_eq_some_iff.mp result
      obtain ⟨k, _, result⟩ := Option.bind_eq_some_iff.mp result
      obtain ⟨⟨s₂, ret'⟩, released, result⟩ := Option.bind_eq_some_iff.mp result
      obtain ⟨res', _, result⟩ := Option.bind_eq_some_iff.mp result
      refine ⟨s.unmapFromTask r k, s₂, ret', rfl, rfl, thread ▸ released, ?_⟩
      split at result
      · obtain ⟨s₃, destroyed, result⟩ := Option.bind_eq_some_iff.mp result
        cases result
        exact trims_destroy destroyed
      · cases result
        exact .same rfl rfl
    · exact ⟨s, s', ret, rfl, rfl, result, .same rfl rfl⟩

theorem trims_releaseResource (result : s.releaseResource r pThread = some (s', ret)) :
    Trims beyond s s' := by
  obtain ⟨s₁, s₂, ret', tasks, owner, released, later⟩ := releaseResource_cases beyond result
  exact ((Trims.same tasks owner).trans (trims_release released)).trans later

/-- What the loop of `removeThread` finds in a slot it releases from that slot: the slots
before it are empty already. -/
theorem slot_releaseResource {i : Nat} (inside : i < maxTaskResources)
    (owner : s.owner t = some k) (before : ∀ j < i, (s.task k).acquiredResources j = none)
    (held : (s.task k).acquiredResources i = some r)
    (result : s.releaseResource r (some t) = some (s', ret)) :
    (s'.task k).acquiredResources i = none := by
  obtain ⟨s₁, s₂, ret', tasks, owners, released, later⟩ := releaseResource_cases 0 result
  obtain ⟨_, ⟨_, noThread⟩ | ⟨t', k', thread, owner', tasks'⟩⟩ := release_cases released
  · cases noThread
  · cases thread
    rw [owners, owner] at owner'
    cases owner'
    have first : (s.task k).slotOf r = some i := Task.slotOf_first inside held fun j less => by
      rw [before j less]
      exact Option.some_ne_none r |>.symm
    have emptied : (s₂.task k).acquiredResources i = none := by
      rw [tasks', Function.update_self, tasks, Task.removeResource, first]
      exact Function.update_self ..
    rcases later.slots k i with same | none_
    · rw [same, emptied]
    · exact none_

theorem trims_releaseSlots (n i : Nat) (inside : i + n ≤ maxTaskResources)
    (owner : s.owner t = some k) (before : ∀ j < i, (s.task k).acquiredResources j = none)
    (result : System.releaseSlots k t (List.range' i n) s = some s') : Trims beyond s s' := by
  induction n generalizing i s with
  | zero =>
    cases result
    exact .same rfl rfl
  | succ n ih =>
    rw [List.range'_succ] at result
    unfold System.releaseSlots at result
    cases held : (s.task k).acquiredResources i with
    | none =>
      rw [held] at result
      refine ih (i + 1) (by omega) owner (fun j less => ?_) result
      by_cases here : j = i
      · rw [here, held]
      · exact before j (by omega)
    | some r =>
      rw [held] at result
      obtain ⟨⟨s₁, ret⟩, released, result⟩ := Option.bind_eq_some_iff.mp result
      have trims : Trims beyond s s₁ := trims_releaseResource released
      have emptied := slot_releaseResource (by omega) owner before held released
      simp only at result
      rw [setTask_self emptied] at result
      refine trims.trans (ih (i + 1) (by omega) (by rw [trims.owner, owner])
        (fun j less => ?_) result)
      by_cases here : j = i
      · rw [here, emptied]
      · rcases trims.slots k j with same | none_
        · rw [same]
          exact before j (by omega)
        · exact none_

variable [DecidableEq τ]

/-- Removing the last thread of a task leaves its records in step. -/
theorem removeThread_cases (beyond : BitVec 32) (wired : Wired s)
    (result : s.removeThread k t = some s') :
    (∀ k', Kept beyond (s.task k') → Kept beyond (s'.task k')) ∧ Wired s' ∧
      ∀ k' fd, (s'.task k').acquiredResources fd = (s.task k').acquiredResources fd ∨
        (s'.task k').acquiredResources fd = none := by
  unfold System.removeThread at result
  split at result
  · next member =>
    obtain ⟨s₂, loop, result⟩ := Option.map_eq_some_iff.mp result
    subst result
    have owner := wired.owner k t member
    have tasks (k' : κ) : (s.dropThread k t).task k' = { s.task k' with threadDb :=
        (if k' = k then (s.task k).threadDb.erase t else (s.task k').threadDb) } := by
      by_cases here : k' = k
      · subst here
        simp [System.dropThread, System.setTask]
      · simp [System.dropThread, System.setTask, here]
    have trims : Trims beyond (s.dropThread k t) s₂ := by
      split at loop
      · rw [List.range_eq_range'] at loop
        exact trims_releaseSlots maxTaskResources 0 le_rfl owner
          (fun j less => absurd less (Nat.not_lt_zero j)) loop
      · cases loop
        exact .same rfl rfl
    refine ⟨fun k' kept => trims.kept k' ?_, ?_, fun k' fd => ?_⟩
    · rw [tasks k']
      exact ⟨kept.ids, kept.apart, kept.count⟩
    · refine wired_erase wired owner (fun k' => ?_) ?_
      · rw [trims.threads k', tasks k']
      · rw [trims.owner]
        rfl
    · have same := trims.slots k' fd
      rwa [tasks k'] at same
  · cases result
    exact ⟨fun _ kept => kept, wired, fun _ _ => .inl rfl⟩

/-- An acquisition enters the resource into the table of the thread's task, or leaves the
tables alone and fails. -/
theorem acquire_cases (result : s.acquire r pThread blocking = some (s', ret)) :
    s'.owner = s.owner ∧ (s'.task = s.task ∧ ret < 0 ∨
      ∃ t k, pThread.or s.running = some t ∧ s.owner t = some k ∧
        s'.task = Function.update s.task k ((s.task k).addResource r).1 ∧
        ret = ((s.task k).addResource r).2) := by
  unfold System.acquire at result
  obtain ⟨res, _, result⟩ := Option.bind_eq_some_iff.mp result
  obtain ⟨⟨control, entered⟩, _, result⟩ := Option.bind_eq_some_iff.mp result
  simp only at result
  split at result
  · cases result
    exact ⟨rfl, .inl ⟨rfl, by decide⟩⟩
  · split at result
    · cases result
      exact ⟨rfl, .inl ⟨rfl, by decide⟩⟩
    · cases thread : pThread.or s.running with
      | none =>
        rw [thread] at result
        cases result
        exact ⟨rfl, .inl ⟨rfl, by decide⟩⟩
      | some t =>
        rw [thread] at result
        obtain ⟨k, task, result⟩ := Option.bind_eq_some_iff.mp result
        split at result
        · cases result
          exact ⟨rfl, .inr ⟨t, k, rfl, task, rfl, rfl⟩⟩
        · cases result
          exact ⟨rfl, .inr ⟨t, k, rfl, task, rfl, rfl⟩⟩

/-- A call on the table of a task. -/
inductive Call (κ τ ρ : Type)
  | addResource (k : κ) (r : ρ)
  | removeResource (k : κ) (r : ρ)
  | acquireResource (k : κ) (r : ρ) (t : Option τ) (blocking : Bool)
  | releaseResource (r : ρ) (t : Option τ)
  | removeThread (k : κ) (t : τ)

def perform (s : System κ τ ρ) : Call κ τ ρ → Option (System κ τ ρ × ErrorT)
  | .addResource k r =>
    some (s.setTask k ((s.task k).addResource r).1, ((s.task k).addResource r).2)
  | .removeResource k r =>
    some (s.setTask k ((s.task k).removeResource r).1, ((s.task k).removeResource r).2)
  | .acquireResource k r t blocking => s.acquireResource k r t blocking
  | .releaseResource r t => s.releaseResource r t
  | .removeThread k t => (s.removeThread k t).map fun s => (s, cOk)

/-- The task whose number a call answers, and the resource it is given for. -/
def place (s : System κ τ ρ) : Call κ τ ρ → Option (κ × ρ)
  | .addResource k r => some (k, r)
  | .acquireResource k r t _ =>
    if 0 ≤ (s.task k).getOwnedResourceFileDescriptor r then some (k, r)
    else ((t.or s.running).bind s.owner).map fun k' => (k', r)
  | _ => none

/-- The observed system after the calls, when each of them returns. -/
def performAll : Observed κ τ ρ → List (Call κ τ ρ) → Option (Observed κ τ ρ)
  | o, [] => some o
  | o, call :: calls =>
    (perform o.system call).bind fun result =>
      performAll ⟨result.1, note o.given (place o.system call) result.2⟩ calls

variable {call : Call κ τ ρ} {calls : List (Call κ τ ρ)}

/-- One call keeps the records in step. -/
theorem invariant_perform (invariant : Invariant beyond o)
    (result : perform o.system call = some (s', ret)) :
    Invariant beyond ⟨s', note o.given (place o.system call) ret⟩ := by
  cases call with
  | addResource k r =>
    cases result
    exact invariant_add invariant rfl rfl
  | removeResource k r =>
    cases result
    exact invariant_trims invariant (trims_removeResource rfl rfl) rfl
  | acquireResource k r t blocking =>
    simp only [perform, System.acquireResource] at result
    simp only [place]
    split at result
    · next owned =>
      cases result
      rw [if_pos owned, note]
      simp only [owned, if_true]
      refine ⟨invariant.kept, invariant.wired, fun k' fd r' found => ?_⟩
      change Function.update o.given k _ k' fd = some r'
      have known := invariant.named k' fd r' found
      by_cases here : k' = k
      · subst here
        rw [Function.update_self]
        by_cases new : fd = ((o.system.task k').getOwnedResourceFileDescriptor r).toNat
        · rw [new, Function.update_self]
          unfold Task.getOwnedResourceFileDescriptor at owned new
          cases search : (o.system.task k').slotOf r with
          | none =>
            rw [search] at owned
            exact absurd owned (by decide)
          | some i =>
            obtain ⟨_, held⟩ := Task.slotOf_eq_some search
            rw [search] at new
            simp only [Int.toNat_natCast] at new
            subst new
            unfold Task.getOwnedResourceByFileDescriptor at found
            split at found
            · cases found
            · rw [← held]
              exact found
        · rw [Function.update_of_ne new]
          exact known
      · rw [Function.update_of_ne here]
        exact known
    · next missing_ =>
      rw [if_neg missing_]
      obtain ⟨owner, ⟨tasks, failed⟩ | ⟨t', k', thread, owned, tasks, number⟩⟩ :=
        acquire_cases result
      · refine invariant_trims invariant (.same tasks owner) ?_
        unfold note
        split
        · exact if_neg (Int.not_le.mpr failed)
        · rfl
      · rw [thread, Option.bind_some, owned, Option.map_some, number]
        exact invariant_add invariant tasks owner
  | releaseResource r t =>
    exact invariant_trims invariant (trims_releaseResource result) rfl
  | removeThread k t =>
    obtain ⟨s₁, removed, both⟩ := Option.map_eq_some_iff.mp result
    cases both
    obtain ⟨kept, wired, slots⟩ := removeThread_cases beyond invariant.wired removed
    exact ⟨fun k => kept k (invariant.kept k), wired, named_shrink slots invariant.named rfl⟩

theorem invariant_performAll (invariant : Invariant beyond o)
    (run : performAll o calls = some o') : Invariant beyond o' := by
  induction calls generalizing o with
  | nil =>
    cases run
    exact invariant
  | cons call calls ih =>
    obtain ⟨⟨s', ret⟩, result, later⟩ := Option.bind_eq_some_iff.mp run
    exact ih (invariant_perform invariant result) later

/-- In whatever state calls leave a task, its records agree and what is found under a
number was given that number exactly when the shift in the constructor of the map
gives one. -/
theorem agree_iff (beyond : BitVec 32) (o o' : Observed κ τ ρ) (calls : List (Call κ τ ρ)) (k : κ)
    (started : Started beyond o) (run : performAll o calls = some o') :
    Consistent (o'.system.task k) ∧ Named o' k ↔ beyond = 1#32 := by
  have invariant := invariant_performAll (invariant_started started) run
  rw [and_iff_left (invariant.named k)]
  exact (invariant.kept k).consistent_iff

/-- One task with one thread and no resource. -/
def single (beyond : BitVec 32) : Observed Unit Unit Unit :=
  ⟨⟨fun _ => Task.fresh beyond [()], [()], fun _ => none, fun _ => some (), some ()⟩,
    fun _ _ => none⟩

theorem started_single (beyond : BitVec 32) : Started beyond (single beyond) :=
  ⟨fun _ => ⟨[()], rfl⟩, fun _ _ _ => rfl, fun _ => List.nodup_singleton ()⟩

/-- A resource is entered, taken out and entered again, with the map as it is meant to
be. -/
theorem agree_iff_single : ∃ o', performAll (single 1)
    [.addResource () (), .removeResource () (), .addResource () ()] = some o' ∧
      Consistent (o'.system.task ()) ∧ Named o' () :=
  ⟨_, rfl, (agree_iff 1 (single 1) _
    [.addResource () (), .removeResource () (), .addResource () ()] () (started_single 1)
    rfl).mpr rfl⟩

/-- With a shift that gives zero the upper half of the numbers is in use from the
beginning. -/
theorem upper_half_in_use : ¬∀ (beyond : BitVec 32) (o o' : Observed Unit Unit Unit)
    (calls : List (Call Unit Unit Unit)), Started beyond o → performAll o calls = some o' →
      Consistent (o'.system.task ()) := by
  intro always
  have consistent := always 0 (single 0) (single 0) [] (started_single 0) rfl
  exact (consistent.inUse 32 (by decide)).mpr (by decide) rfl

end Systems

end Orcos.Guarantees.ResourceTables
