import Mathlib.Data.List.Nodup
import Mathlib.Data.List.Perm.Basic
import Orcos.Lib.Runs
import Orcos.Source.DeferredDeletion

/-!
# Deferred deletion: no resource in use is deleted, none twice, none forgotten

The ring window from the service thread's position on is the list of the
pending resources, and at any time the deleted and the pending ones are those
scheduled. All deletions are safe as long as a full ring only meets safe
resources and nobody acquires the resource the service thread is about to
delete.
-/
namespace Orcos.Guarantees.DeferredDeletion
open Orcos.Lib.Runs Orcos.Lib.Ring Orcos.Source.DeferredDeletion

variable {ρ : Type}

/-- What the service thread is about to do. -/
def pendingAction (m : Manager ρ) : Option (Action ρ) := m.service.bind Frame.action

/-- The ring has room for a resource, or deleting it at once is safe. -/
def RoomOrSafe (m : Manager ρ) (res : ρ) : Prop :=
  m.schedDeletionCount < 40 ∨ isDeletionSafe m res = true

/-- What the service thread is about to do is safe in a full ring. -/
def ProperAction (m : Manager ρ) : Option (Action ρ) → Prop
  | some (.reinsert res) => RoomOrSafe m res
  | _ => True

/-- A resource is scheduled once; it is safe when the ring is full, whether it
is scheduled from outside or again by the service thread; the resource found
safe by the service thread stays so until it is deleted. -/
def Proper (m : Manager ρ) : Event ρ → Prop
  | .schedule res => res ∉ m.scheduled ∧ RoomOrSafe m res
  | .setRefCounter res value => pendingAction m = some (.delete res) → value ≤ 0
  | .idle => True
  | .service => ProperAction m (pendingAction m)

instance (m : Manager ρ) (res : ρ) : Decidable (RoomOrSafe m res) :=
  inferInstanceAs (Decidable (_ ∨ _))

instance (m : Manager ρ) : ∀ action, Decidable (ProperAction m action)
  | some (.reinsert res) => inferInstanceAs (Decidable (RoomOrSafe m res))
  | some (.delete _) => .isTrue trivial
  | none => .isTrue trivial

instance [DecidableEq ρ] (m : Manager ρ) : ∀ event, Decidable (Proper m event)
  | .schedule res => inferInstanceAs (Decidable (res ∉ m.scheduled ∧ RoomOrSafe m res))
  | .setRefCounter res value =>
    inferInstanceAs (Decidable (pendingAction m = some (.delete res) → value ≤ 0))
  | .idle => .isTrue trivial
  | .service => inferInstanceAs (Decidable (ProperAction m (pendingAction m)))

/-- The number of entries the service thread is done with. -/
def progress (m : Manager ρ) : Nat := (m.service.map Frame.i).getD 0

/-- The cells of the ring from the entry number `p` on. -/
def cellsFrom (m : Manager ρ) (p : Nat) : List (Option ρ) :=
  window m.scheduledDeletion 40 (modulo (m.schedDeletionStartPos + p) 40) (m.schedDeletionCount - p)

def pendingCells (m : Manager ρ) : List (Option ρ) := cellsFrom m (progress m)

/-- The resources in the ring the service thread has not handled yet. -/
def pending (m : Manager ρ) : List ρ := (pendingCells m).filterMap id

/-- The local variables of the service thread fit the ring. -/
structure FrameInv (start count : Nat) (refCounter : ρ → Int) (xs : List ρ) (frame : Frame ρ) :
    Prop where
  startpos : frame.startpos = start
  freeCount : frame.freeCount ≤ count
  i : frame.i ≤ frame.freeCount
  delete : ∀ res, frame.action = some (.delete res) →
    frame.i < frame.freeCount ∧ xs.head? = some res ∧ refCounter res ≤ 0
  reinsert : ∀ res, frame.action = some (.reinsert res) →
    frame.i < frame.freeCount ∧ xs.head? = some res

/-- The ring holds the pending resources `xs`, and the history is accounted for. -/
structure Inv (m : Manager ρ) (xs : List ρ) : Prop where
  start : m.schedDeletionStartPos < 40
  count : m.schedDeletionCount ≤ 40
  safeNum : m.schedDeletionSafeNum ≤ m.schedDeletionCount
  cells : pendingCells m = xs.map some
  frame : ∀ frame, m.service = some frame →
    FrameInv m.schedDeletionStartPos m.schedDeletionCount m.refCounter xs frame
  perm : (m.deleted.map Deletion.res ++ xs).Perm m.scheduled
  safe : ∀ d ∈ m.deleted, d.refCounter ≤ 0
  once : m.scheduled.Nodup

theorem fresh_inv (myResourceId : ρ → Nat) (refCounter : ρ → Int) :
    Inv (fresh myResourceId refCounter) [] where
  start := by simp [fresh]
  count := by simp [fresh]
  safeNum := by simp [fresh]
  cells := rfl
  frame _ running := by simp [fresh] at running
  perm := List.Perm.nil
  safe := by simp [fresh]
  once := List.nodup_nil

/-- The local variables after the current entry was handled. -/
theorem FrameInv.advance {start count count' : Nat} {refCounter refCounter' : ρ → Int}
    {xs xs' : List ρ} {frame : Frame ρ} (fits : FrameInv start count refCounter xs frame)
    (more : frame.i < frame.freeCount) (enough : count ≤ count') (f : Frame ρ)
    (running : some { frame with i := frame.i + 1, action := none } = some f) :
    FrameInv start count' refCounter' xs' f := by
  obtain rfl := Option.some.inj running
  exact ⟨fits.startpos, Nat.le_trans fits.freeCount enough, more, fun r next => by simp at next,
    fun r next => by simp at next⟩

/-- A further deletion of an unused resource. -/
theorem safe_concat {deleted : List (Deletion ρ)} (safe : ∀ d ∈ deleted, d.refCounter ≤ 0)
    {last : Deletion ρ} (unused : last.refCounter ≤ 0) :
    ∀ d ∈ deleted ++ [last], d.refCounter ≤ 0 := by
  intro d member
  rcases List.mem_append.mp member with old | new
  · exact safe d old
  · rw [List.mem_singleton.mp new]
    exact unused

theorem cellsFrom_succ {m : Manager ρ} (start : m.schedDeletionStartPos < 40)
    (count : m.schedDeletionCount ≤ 40) {p : Nat} (more : p < m.schedDeletionCount) :
    cellsFrom m p = m.scheduledDeletion (modulo (m.schedDeletionStartPos + p) 40) ::
      cellsFrom m (p + 1) := by
  have inside := modulo_lt (k := p) start (by omega)
  have length : m.schedDeletionCount - p = m.schedDeletionCount - (p + 1) + 1 := by omega
  rw [cellsFrom, length, window_cons inside (by omega), modulo_add start (by omega), cellsFrom]

/-- A resource put in the ring is pending behind all others. -/
theorem cellsFrom_store {m : Manager ρ} (start : m.schedDeletionStartPos < 40)
    (room : m.schedDeletionCount < 40) {p : Nat} (before : p ≤ m.schedDeletionCount) (res : ρ)
    (ids : ρ → Nat) :
    cellsFrom { m with
      myResourceId := ids
      scheduledDeletion := Function.update m.scheduledDeletion
        (modulo (m.schedDeletionStartPos + m.schedDeletionCount) 40) (some res)
      schedDeletionCount := m.schedDeletionCount + 1 } p = cellsFrom m p ++ [some res] := by
  have position : modulo (m.schedDeletionStartPos + m.schedDeletionCount) 40 =
      modulo (modulo (m.schedDeletionStartPos + p) 40 + (m.schedDeletionCount - p)) 40 := by
    rw [modulo_add start (by omega), Nat.add_sub_cancel' before]
  have length : m.schedDeletionCount + 1 - p = m.schedDeletionCount - p + 1 := by omega
  simp only [cellsFrom, position, length]
  exact window_update_concat (by omega) (some res)

theorem progress_le {m : Manager ρ} {xs : List ρ} (inv : Inv m xs) :
    progress m ≤ m.schedDeletionCount := by
  cases running : m.service with
  | none => simp [progress, running]
  | some frame =>
    have fits := inv.frame frame running
    have := fits.i
    have := fits.freeCount
    simp only [progress, running, Option.map_some, Option.getD_some]
    omega

/-- The entry at the service thread's position is the first pending resource. -/
theorem current_cell {m : Manager ρ} {xs : List ρ} {frame : Frame ρ} (inv : Inv m xs)
    (running : m.service = some frame)
    (more : frame.i < frame.freeCount) :
    ∃ res rest, xs = res :: rest ∧
      m.scheduledDeletion (modulo (frame.startpos + frame.i) 40) = some res ∧
      cellsFrom m (frame.i + 1) = rest.map some := by
  have fits := inv.frame frame running
  have stored : frame.i < m.schedDeletionCount := Nat.lt_of_lt_of_le more fits.freeCount
  have cells := inv.cells
  rw [pendingCells, show progress m = frame.i by simp [progress, running],
    cellsFrom_succ inv.start inv.count stored] at cells
  cases xs with
  | nil => simp at cells
  | cons res rest =>
    rw [List.map_cons, List.cons.injEq] at cells
    exact ⟨res, rest, rfl, by rw [fits.startpos, cells.1], cells.2⟩

variable [DecidableEq ρ]

theorem scheduleDeletion_room {m : Manager ρ} (room : m.schedDeletionCount < 40) (res : ρ) :
    ∃ ids, scheduleDeletion m res = { m with
      myResourceId := ids
      scheduledDeletion := Function.update m.scheduledDeletion
        (modulo (m.schedDeletionStartPos + m.schedDeletionCount) 40) (some res)
      schedDeletionCount := m.schedDeletionCount + 1 } := by
  by_cases named : m.myResourceId res = 0
  · exact ⟨m.myResourceId, by simp [scheduleDeletion, named, room]⟩
  · exact ⟨_, by simp [scheduleDeletion, named, invalidate, room]; rfl⟩

theorem scheduleDeletion_full {m : Manager ρ} (full : ¬ m.schedDeletionCount < 40) (res : ρ) :
    ∃ ids, scheduleDeletion m res = { m with
      myResourceId := ids
      deleted := m.deleted ++ [⟨res, m.refCounter res⟩] } := by
  by_cases named : m.myResourceId res = 0
  · exact ⟨m.myResourceId, by simp [scheduleDeletion, named, full, deleteResource]⟩
  · exact ⟨_, by simp [scheduleDeletion, named, invalidate, full, deleteResource]; rfl⟩

theorem schedule_preserves {m : Manager ρ} {xs : List ρ} (inv : Inv m xs) {res : ρ}
    (new : res ∉ m.scheduled) (safe : RoomOrSafe m res) :
    ∃ xs', Inv (step m (.schedule res)) xs' := by
  have once : (m.scheduled ++ [res]).Nodup :=
    List.nodup_append.mpr ⟨inv.once, List.nodup_singleton res, by
      rintro old member _ same rfl
      exact new (List.mem_singleton.mp same ▸ member)⟩
  by_cases room : m.schedDeletionCount < 40
  · obtain ⟨ids, stored⟩ := scheduleDeletion_room room res
    refine ⟨xs ++ [res], ?_⟩
    simp only [step, stored]
    refine ⟨inv.start, room, Nat.le_succ_of_le inv.safeNum, ?_, fun frame running => ?_, ?_,
      inv.safe, once⟩
    · have shape := cellsFrom_store inv.start room (progress_le inv) res ids
      have old := inv.cells
      rw [pendingCells] at old
      rw [old] at shape
      rw [List.map_append, List.map_singleton]
      exact shape
    · have fits := inv.frame frame running
      refine ⟨fits.startpos, Nat.le_succ_of_le fits.freeCount, fits.i, fun r next => ?_,
        fun r next => ?_⟩
      · obtain ⟨more, head, unused⟩ := fits.delete r next
        exact ⟨more, by simp [head], unused⟩
      · obtain ⟨more, head⟩ := fits.reinsert r next
        exact ⟨more, by simp [head]⟩
    · rw [← List.append_assoc]
      exact inv.perm.append_right [res]
  · obtain ⟨ids, dropped⟩ := scheduleDeletion_full room res
    have unused : m.refCounter res ≤ 0 := by simpa [RoomOrSafe, room, isDeletionSafe] using safe
    refine ⟨xs, ?_⟩
    simp only [step, dropped]
    refine ⟨inv.start, inv.count, inv.safeNum, inv.cells, inv.frame, ?_,
      safe_concat inv.safe unused, once⟩
    simp only [List.map_append, List.map_singleton]
    have moved : (m.deleted.map Deletion.res ++ [res] ++ xs).Perm
        (m.deleted.map Deletion.res ++ xs ++ [res]) := by
      rw [List.append_assoc, List.append_assoc]
      exact (List.perm_append_comm).append_left _
    exact moved.trans (inv.perm.append_right [res])

theorem setRefCounter_preserves {m : Manager ρ} {xs : List ρ} (inv : Inv m xs) (res : ρ)
    (value : Int) (proper : pendingAction m = some (.delete res) → value ≤ 0) :
    Inv (step m (.setRefCounter res value)) xs := by
  refine ⟨inv.start, inv.count, inv.safeNum, inv.cells, fun frame running => ?_, inv.perm,
    inv.safe, inv.once⟩
  have current : m.service = some frame := running
  have fits := inv.frame frame current
  refine ⟨fits.startpos, fits.freeCount, fits.i, fun r next => ?_, fits.reinsert⟩
  obtain ⟨more, head, unused⟩ := fits.delete r next
  refine ⟨more, head, ?_⟩
  by_cases same : r = res
  · subst same
    have decided : pendingAction m = some (.delete r) := by rw [pendingAction, current]; exact next
    simpa [step] using proper decided
  · simpa [step, same] using unused

theorem idleEnter_preserves {m : Manager ρ} {xs : List ρ} (inv : Inv m xs) :
    Inv (step m .idle) xs where
  start := inv.start
  count := inv.count
  safeNum := Nat.le_refl _
  cells := inv.cells
  frame := inv.frame
  perm := inv.perm
  safe := inv.safe
  once := inv.once

/-! ### The steps of the service thread -/

section Service

variable {m : Manager ρ} {xs : List ρ} {frame : Frame ρ}

theorem begin_preserves (inv : Inv m xs) (stopped : m.service = none) :
    Inv (serviceStep m) xs := by
  simp only [serviceStep, stopped]
  refine ⟨inv.start, inv.count, inv.safeNum, ?_, fun frame running => ?_, inv.perm, inv.safe,
    inv.once⟩
  · have cells := inv.cells
    rw [pendingCells, show progress m = 0 by simp [progress, stopped]] at cells
    exact cells
  · obtain rfl := Option.some.inj running
    exact ⟨rfl, inv.safeNum, Nat.zero_le _, fun r next => by simp at next,
      fun r next => by simp at next⟩

theorem look_preserves (inv : Inv m xs) (running : m.service = some frame)
    (undecided : frame.action = none) (more : frame.i < frame.freeCount) :
    Inv (serviceStep m) xs := by
  obtain ⟨res, rest, split, cell, _⟩ := current_cell inv running more
  have fits := inv.frame frame running
  simp only [serviceStep, running, undecided, more, if_true, cell]
  refine ⟨inv.start, inv.count, inv.safeNum, ?_, fun f running' => ?_, inv.perm, inv.safe,
    inv.once⟩
  · have cells := inv.cells
    rw [pendingCells, show progress m = frame.i by simp [progress, running]] at cells
    exact cells
  · obtain rfl := Option.some.inj running'
    refine ⟨fits.startpos, fits.freeCount, fits.i, fun r next => ?_, fun r next => ?_⟩
    · by_cases unused : isDeletionSafe m res = true
      · have same : res = r := by simpa [unused] using next
        subst same
        exact ⟨more, by simp [split], by simpa [isDeletionSafe] using unused⟩
      · simp [unused] at next
    · by_cases unused : isDeletionSafe m res = true
      · simp [unused] at next
      · have same : res = r := by simpa [unused] using next
        subst same
        exact ⟨more, by simp [split]⟩

theorem delete_preserves (inv : Inv m xs) (running : m.service = some frame) {res : ρ}
    (decided : frame.action = some (.delete res)) : ∃ xs', Inv (serviceStep m) xs' := by
  have fits := inv.frame frame running
  obtain ⟨more, head, unused⟩ := fits.delete res decided
  obtain ⟨first, rest, split, _, cells⟩ := current_cell inv running more
  have same : first = res := by simpa [split] using head
  subst same
  refine ⟨rest, ?_⟩
  simp only [serviceStep, running, decided, deleteResource]
  refine ⟨inv.start, inv.count, inv.safeNum, ?_, fits.advance more (Nat.le_refl _), ?_,
    safe_concat inv.safe unused, inv.once⟩
  · rw [← cells]
    have := fits.freeCount
    have := inv.count
    have inside := modulo_lt (k := frame.i) inv.start (by omega)
    simp only [pendingCells, progress, cellsFrom, Option.map_some, Option.getD_some,
      fits.startpos, ← modulo_add inv.start (show frame.i + 1 ≤ 40 by omega)]
    exact window_update_start inside (by omega) none
  · simpa [split] using inv.perm

theorem reinsert_preserves (inv : Inv m xs) (running : m.service = some frame) {res : ρ}
    (decided : frame.action = some (.reinsert res))
    (safe : RoomOrSafe m res) :
    ∃ xs', Inv (serviceStep m) xs' := by
  have fits := inv.frame frame running
  obtain ⟨more, head⟩ := fits.reinsert res decided
  obtain ⟨first, rest, split, _, cells⟩ := current_cell inv running more
  have same : first = res := by simpa [split] using head
  subst same
  by_cases room : m.schedDeletionCount < 40
  · obtain ⟨ids, stored⟩ := scheduleDeletion_room room first
    refine ⟨rest ++ [first], ?_⟩
    simp only [serviceStep, running, decided, stored]
    refine ⟨inv.start, room, Nat.le_succ_of_le inv.safeNum, ?_,
      fits.advance more (Nat.le_succ _), ?_, inv.safe, inv.once⟩
    · have := fits.freeCount
      have shape := cellsFrom_store inv.start room (p := frame.i + 1) (by omega) first ids
      rw [List.map_append, List.map_singleton, ← cells]
      exact shape
    · refine List.Perm.trans ?_ (split ▸ inv.perm)
      exact (List.perm_append_singleton first rest).append_left _
  · obtain ⟨ids, dropped⟩ := scheduleDeletion_full room first
    have unused : m.refCounter first ≤ 0 := by simpa [RoomOrSafe, room, isDeletionSafe] using safe
    refine ⟨rest, ?_⟩
    simp only [serviceStep, running, decided, dropped]
    refine ⟨inv.start, inv.count, inv.safeNum, cells, fits.advance more (Nat.le_refl _), ?_,
      safe_concat inv.safe unused, inv.once⟩
    simpa [split] using inv.perm

theorem end_preserves (inv : Inv m xs) (running : m.service = some frame)
    (undecided : frame.action = none) (done : ¬ frame.i < frame.freeCount) :
    Inv (serviceStep m) xs := by
  have fits := inv.frame frame running
  have := fits.freeCount
  have := inv.count
  have all : frame.i = frame.freeCount := by have := fits.i; omega
  simp only [serviceStep, running, undecided, done, if_false]
  refine ⟨modulo_lt inv.start (by omega), by simp; omega, Nat.zero_le _, ?_,
    fun f running' => by simp at running', inv.perm, inv.safe,
    inv.once⟩
  have cells := inv.cells
  rw [pendingCells, show progress m = frame.freeCount by simp [progress, running, all]] at cells
  rw [← cells]
  have inside := modulo_lt (k := frame.freeCount) inv.start (by omega)
  simp only [pendingCells, progress, cellsFrom, Option.map_none, Option.getD_none,
    modulo_zero inside, Nat.sub_zero]

end Service

/-- One event of any thread keeps the ring accounted for. -/
theorem step_preserves (m : Manager ρ) (event : Event ρ) (inv : ∃ xs, Inv m xs)
    (proper : Proper m event) : ∃ xs, Inv (step m event) xs := by
  obtain ⟨xs, inv⟩ := inv
  cases event with
  | schedule res => exact schedule_preserves inv proper.1 proper.2
  | setRefCounter res value => exact ⟨xs, setRefCounter_preserves inv res value proper⟩
  | idle => exact ⟨xs, idleEnter_preserves inv⟩
  | service =>
    cases running : m.service with
    | none => exact ⟨xs, begin_preserves inv running⟩
    | some frame =>
      cases decided : frame.action with
      | none =>
        by_cases more : frame.i < frame.freeCount
        · exact ⟨xs, look_preserves inv running decided more⟩
        · exact ⟨xs, end_preserves inv running decided more⟩
      | some action =>
        cases action with
        | delete res => exact delete_preserves inv running decided
        | reinsert res =>
          exact reinsert_preserves inv running decided
            (by simpa [Proper, ProperAction, pendingAction, running, decided] using proper)

/-- After any proper events in any order: every deletion found its resource
unused, no resource was deleted twice, and the scheduled resources are those
deleted and those still pending in the ring. -/
theorem deletions_safe_and_complete (myResourceId : ρ → Nat) (refCounter : ρ → Int)
    (events : List (Event ρ))
    (proper : Admissible step Proper (fresh myResourceId refCounter) events) :
    let m := exec step (fresh myResourceId refCounter) events
    (∀ d ∈ m.deleted, d.refCounter ≤ 0) ∧ (m.deleted.map Deletion.res ++ pending m).Nodup ∧
      (m.deleted.map Deletion.res ++ pending m).Perm m.scheduled := by
  intro m
  obtain ⟨xs, inv⟩ := exec_invariant (fun m : Manager ρ => ∃ xs, Inv m xs) step_preserves events _
    ⟨[], fresh_inv myResourceId refCounter⟩ proper
  have same : pending m = xs := by
    rw [pending, inv.cells]
    simp
  rw [same]
  exact ⟨inv.safe, inv.perm.nodup_iff.mpr inv.once, inv.perm⟩

/-- A resource in use is put back once and deleted when it is released. -/
theorem deletions_safe_and_complete_reinserted :
    let events : List (Event Nat) := [.schedule 7, .schedule 8, .idle, .service, .service,
      .service, .schedule 9, .service, .service, .service, .setRefCounter 7 0, .idle, .service,
      .service, .service]
    let m := exec step (fresh (fun i => i) (fun i => if i = 7 then 1 else 0)) events
    (m.deleted.map Deletion.res ++ pending m).Perm m.scheduled :=
  (deletions_safe_and_complete (fun i => i) (fun i => if i = 7 then 1 else 0) _ (by decide)).2.2

/-- A resource in use that is scheduled as the 41st is deleted on the spot. -/
theorem full_ring_deletes_in_use :
    (exec step (fresh (fun i => i + 1) (fun _ => 1)) ((List.range 41).map Event.schedule)).deleted =
      [⟨40, 1⟩] := by
  decide +kernel

end Orcos.Guarantees.DeferredDeletion
