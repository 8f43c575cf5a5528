import Orcos.Lib.Runs
import Orcos.Source.PriorityThread

/-!
# Priority inheritance

The effective priority should be the highest of the initial priority and of all
priorities pushed for mutexes not popped yet. A row keeps the priority from
before a push, so a pop restores too little as soon as a second mutex has pushed.
-/
namespace Orcos.Guarantees.PriorityInheritance
open Orcos.Lib.Runs Orcos.Source Orcos.Source.PriorityThread

inductive Call where
  | pushPriority (newPriority m : Nat)
  | popPriority (m : Nat)

/-- The thread, and each mutex with a priority pushed for it since its last pop. -/
structure Session where
  thread : PriorityThread
  pushed : List (Nat × Nat)

/-- The null pointer is no mutex: nothing is pushed for it. -/
def step (s : Session) : Call → Session
  | .pushPriority newPriority m =>
    ⟨(pushPriority s.thread newPriority m).1,
      if m = 0 then s.pushed else (m, newPriority) :: s.pushed⟩
  | .popPriority m =>
    ⟨(popPriority s.thread m).1,
      if m = 0 then s.pushed else s.pushed.filter fun push => push.1 ≠ m⟩

def start (attr : Option Nat) : Session := ⟨create attr, []⟩

def highest (initial : Nat) (pushed : List (Nat × Nat)) : Nat :=
  (pushed.map Prod.snd).foldl max initial

/-- The pop of the mutex writes a priority back: the mutex has a row, and what
is left is not zero. -/
def Restores (t : PriorityThread) (m : Nat) : Prop :=
  HasRow t m ∧ (t.initialPriority ≠ 0 ∨
    ∃ slot ∈ t.priorities, slot.ref ≠ m ∧ slot.ref ≠ 0 ∧ slot.priority ≠ 0)

instance (t : PriorityThread) (m : Nat) : Decidable (Restores t m) :=
  inferInstanceAs (Decidable (_ ∧ _))

/-- A pop that writes a priority back finds no push of another mutex above the
initial priority. Any other pop finds each push for its mutex covered by the
initial priority or by the push of another mutex. -/
def Restorable (s : Session) : Call → Prop
  | .pushPriority _ _ => True
  | .popPriority m =>
    m ≠ 0 → if Restores s.thread m then
        ∀ push ∈ s.pushed, push.1 ≠ m → push.2 ≤ s.thread.initialPriority
      else
        ∀ push ∈ s.pushed, push.1 = m → push.2 ≤ s.thread.initialPriority ∨
          ∃ other ∈ s.pushed, other.1 ≠ m ∧ push.2 ≤ other.2

instance (s : Session) : ∀ call, Decidable (Restorable s call)
  | .pushPriority _ _ => .isTrue trivial
  | .popPriority _ => by unfold Restorable; infer_instance

theorem foldl_max_le {xs : List Nat} {initial bound : Nat} :
    xs.foldl max initial ≤ bound ↔ initial ≤ bound ∧ ∀ x ∈ xs, x ≤ bound := by
  induction xs generalizing initial with
  | nil => simp
  | cons x xs ih => simp [ih, and_assoc]

theorem highest_le {initial bound : Nat} {pushed : List (Nat × Nat)} :
    highest initial pushed ≤ bound ↔ initial ≤ bound ∧ ∀ push ∈ pushed, push.2 ≤ bound := by
  rw [highest, foldl_max_le, List.forall_mem_map]

theorem le_highest {initial : Nat} {pushed : List (Nat × Nat)} {push : Nat × Nat}
    (member : push ∈ pushed) : push.2 ≤ highest initial pushed :=
  (highest_le.mp (Nat.le_refl _)).2 push member

theorem initial_le_highest (initial : Nat) (pushed : List (Nat × Nat)) :
    initial ≤ highest initial pushed :=
  (highest_le.mp (Nat.le_refl _)).1

theorem highestOther_le {m initial bound : Nat} {rows : List InheritedPriority} :
    highestOther m rows initial ≤ bound ↔ initial ≤ bound ∧
      ∀ slot ∈ rows, slot.ref ≠ m → slot.ref ≠ 0 → slot.priority ≤ bound := by
  rw [highestOther, foldl_max_le, List.forall_mem_map]
  simp only [List.mem_filter, decide_eq_true_eq, and_imp]

theorem restores_iff {t : PriorityThread} {m : Nat} : Restores t m ↔
    HasRow t m ∧ highestOther m t.priorities t.initialPriority ≠ 0 := by
  have zero : highestOther m t.priorities t.initialPriority = 0 ↔ t.initialPriority = 0 ∧
      ∀ slot ∈ t.priorities, slot.ref ≠ m → slot.ref ≠ 0 → slot.priority = 0 := by
    have bounded := @highestOther_le m t.initialPriority 0 t.priorities
    simpa only [Nat.le_zero] using bounded
  rw [Restores, ne_eq (highestOther m t.priorities t.initialPriority), zero, not_and_or]
  simp only [not_forall, exists_prop, ne_eq]

/-- The effective priority is the highest still pushed. -/
def Inherits (s : Session) : Prop :=
  s.thread.effectivePriority = highest s.thread.initialPriority s.pushed ∧
    (s.pushed = [] → s.thread.effectivePriority = s.thread.initialPriority)

instance (s : Session) : Decidable (Inherits s) := inferInstanceAs (Decidable (_ ∧ _))

theorem inherits_iff {s : Session} :
    Inherits s ↔ s.thread.effectivePriority = highest s.thread.initialPriority s.pushed := by
  refine ⟨And.left, fun same => ⟨same, fun none => ?_⟩⟩
  rw [same, none]
  rfl

/-- Each row in use was written by a push to a higher priority. -/
def Recorded (s : Session) : Prop :=
  ∀ slot ∈ s.thread.priorities, slot.ref ≠ 0 → ∃ push ∈ s.pushed,
    push.1 = slot.ref ∧ slot.priority < push.2

theorem record_mem {m priority : Nat} {rows : List InheritedPriority} {slot : InheritedPriority}
    (member : slot ∈ record m priority rows) : slot = ⟨m, priority⟩ ∨ slot ∈ rows := by
  induction rows with
  | nil => exact .inr member
  | cons row rest ih =>
    rw [record] at member
    split at member
    · rcases List.mem_cons.mp member with new | old
      · exact .inl new
      · exact .inr (List.mem_cons_of_mem row old)
    · rcases List.mem_cons.mp member with here | later
      · exact .inr (here ▸ List.mem_cons_self)
      · rcases ih later with new | old
        · exact .inl new
        · exact .inr (List.mem_cons_of_mem row old)

theorem recorded_step {s : Session} (recorded : Recorded s) (call : Call) :
    Recorded (step s call) := by
  cases call with
  | pushPriority newPriority m =>
    by_cases null : m = 0
    · simpa [step, null] using recorded
    · intro slot member used
      simp only [step, if_neg null, pushPriority] at member ⊢
      by_cases low : newPriority ≤ s.thread.effectivePriority
      · rw [if_pos low] at member
        obtain ⟨push, pushed, same, lower⟩ := recorded slot member used
        exact ⟨push, List.mem_cons_of_mem _ pushed, same, lower⟩
      · rw [if_neg low] at member
        rcases record_mem member with rfl | old
        · exact ⟨(m, newPriority), List.mem_cons_self, rfl, Nat.lt_of_not_le low⟩
        · obtain ⟨push, pushed, same, lower⟩ := recorded slot old used
          exact ⟨push, List.mem_cons_of_mem _ pushed, same, lower⟩
  | popPriority m =>
    by_cases null : m = 0
    · simpa [step, null] using recorded
    · intro slot member used
      simp only [step, if_neg null] at member ⊢
      rw [popPriority_priorities _ null] at member
      obtain ⟨row, old, rfl⟩ := List.mem_map.mp member
      by_cases freed : row.ref = m
      · simp [release, freed] at used
      · rw [release, if_neg freed] at used ⊢
        obtain ⟨push, pushed, same, lower⟩ := recorded row old used
        exact ⟨push, List.mem_filter.mpr ⟨pushed, by simp [same, freed]⟩, same, lower⟩

/-- After a push. -/
theorem push_inherits {s : Session} (inherits : Inherits s) (newPriority m : Nat) :
    Inherits (step s (.pushPriority newPriority m)) := by
  have same := inherits.1
  rw [inherits_iff]
  by_cases null : m = 0
  · simpa [step, null] using same
  · simp only [step, pushPriority_initialPriority, if_neg null]
    rw [pushPriority_effectivePriority _ null, same]
    apply le_antisymm
    · refine max_le (highest_le.mpr ⟨initial_le_highest _ _, fun push member => ?_⟩) ?_
      · exact le_highest (List.mem_cons_of_mem _ member)
      · exact le_highest (List.mem_cons_self (a := (m, newPriority)))
    · refine highest_le.mpr ⟨(initial_le_highest _ _).trans (le_max_left _ _),
        fun push member => ?_⟩
      rcases List.mem_cons.mp member with rfl | old
      · exact le_max_right _ _
      · exact (le_highest old).trans (le_max_left _ _)

section Pop

variable {s : Session} {m : Nat}

/-- The priorities still pushed once the mutex is popped. -/
def remaining (s : Session) (m : Nat) : Nat :=
  highest s.thread.initialPriority (s.pushed.filter fun push => push.1 ≠ m)

theorem remaining_le {bound : Nat} : remaining s m ≤ bound ↔ s.thread.initialPriority ≤ bound ∧
    ∀ push ∈ s.pushed, push.1 ≠ m → push.2 ≤ bound := by
  rw [remaining, highest_le]
  simp only [List.mem_filter, decide_eq_true_eq, and_imp]

/-- With no row of its own a pop changes nothing, which is right when the pushes
for the mutex do not matter. -/
theorem remaining_eq_highest :
    remaining s m = highest s.thread.initialPriority s.pushed ↔
      ∀ push ∈ s.pushed, push.1 = m → push.2 ≤ s.thread.initialPriority ∨
        ∃ other ∈ s.pushed, other.1 ≠ m ∧ push.2 ≤ other.2 := by
  have lower : remaining s m ≤ highest s.thread.initialPriority s.pushed :=
    remaining_le.mpr ⟨initial_le_highest _ _, fun push member _ => le_highest member⟩
  constructor
  · intro same push member _
    by_contra uncovered
    obtain ⟨high, above⟩ := not_or.mp uncovered
    have bound : push.2 ≤ remaining s m := same ▸ le_highest member
    have below : remaining s m ≤ push.2 - 1 := by
      refine remaining_le.mpr ⟨by omega, fun other member' differ => ?_⟩
      have : ¬ push.2 ≤ other.2 := fun le => above ⟨other, member', differ, le⟩
      omega
    omega
  · intro covered
    refine le_antisymm lower
      (highest_le.mpr ⟨(remaining_le.mp (le_refl _)).1, fun push member => ?_⟩)
    have own := remaining_le.mp (le_refl (remaining s m))
    by_cases same : push.1 = m
    · rcases covered push member same with low | ⟨other, member', differ, le⟩
      · exact low.trans own.1
      · exact le.trans (own.2 other member' differ)
    · exact own.2 push member same

/-- With a row the rows of the others decide, which hold too little. -/
theorem restored_eq_remaining (recorded : Recorded s) :
    highestOther m s.thread.priorities s.thread.initialPriority = remaining s m ↔
      ∀ push ∈ s.pushed, push.1 ≠ m → push.2 ≤ s.thread.initialPriority := by
  constructor
  · intro same push member differ
    by_contra high
    -- the highest push of another mutex is above every row that is left
    have below : highestOther m s.thread.priorities s.thread.initialPriority ≤
        remaining s m - 1 := by
      have bound := (remaining_le.mp (le_refl (remaining s m))).2
      have pushBound := bound push member differ
      refine highestOther_le.mpr ⟨by omega, fun slot row other used => ?_⟩
      obtain ⟨push', member', same', lower⟩ := recorded slot row used
      have := bound push' member' (same' ▸ other)
      omega
    have pushBound := (remaining_le.mp (le_refl (remaining s m))).2 push member differ
    omega
  · intro low
    have rest : remaining s m = s.thread.initialPriority :=
      le_antisymm (remaining_le.mpr ⟨le_refl _, low⟩) (initial_le_highest _ _)
    rw [rest]
    refine le_antisymm (highestOther_le.mpr ⟨le_refl _, fun slot row other used => ?_⟩) ?_
    · obtain ⟨push, member, same, lower⟩ := recorded slot row used
      exact lower.le.trans (low push member (same ▸ other))
    · exact (highestOther_le.mp (le_refl _)).1

theorem pop_inherits_iff (inherits : Inherits s) (recorded : Recorded s) (nonnull : m ≠ 0) :
    Inherits (step s (.popPriority m)) ↔ Restorable s (.popPriority m) := by
  rw [inherits_iff]
  simp only [step, Restorable, popPriority_initialPriority, if_neg nonnull]
  rw [popPriority_effectivePriority _ nonnull]
  simp only [← restores_iff, forall_prop_of_true nonnull]
  change _ = remaining s m ↔ _
  split
  · exact restored_eq_remaining recorded
  · rw [inherits.1, eq_comm]
    exact remaining_eq_highest

end Pop

/-- Exactly the pops that restore too little or too much break the rule. -/
theorem step_inherits_iff {s : Session} (inherits : Inherits s) (recorded : Recorded s)
    (call : Call) : Restorable s call ↔ Inherits (step s call) := by
  cases call with
  | pushPriority newPriority m =>
    exact iff_of_true trivial (push_inherits inherits newPriority m)
  | popPriority m =>
    by_cases null : m = 0
    · refine iff_of_true (fun nonnull => absurd null nonnull) ?_
      simpa [step, null] using inherits
    · exact (pop_inherits_iff inherits recorded null).symm

/-- In every state of a run the effective priority is the highest of the initial
priority and the priorities still pushed, if and only if all pops are restorable. -/
theorem effectivePriority_highest_iff (attr : Option Nat) (calls : List Call) :
    Throughout step Inherits (start attr) calls ↔
      Admissible step Restorable (start attr) calls := by
  refine throughout_iff_admissible (fun s => Inherits s ∧ Recorded s) (fun s inv => inv.1)
    (fun s call inv => step_inherits_iff inv.1 inv.2 call)
    (fun s call inv inherits => ⟨inherits, recorded_step inv.2 call⟩) calls _ ?_
  refine ⟨⟨rfl, fun _ => rfl⟩, fun slot member used => ?_⟩
  rw [List.eq_of_mem_replicate member] at used
  exact absurd rfl used

/-- The inner of two nested mutexes takes the priority of the outer one away. -/
theorem nested_release_drops_priority :
    let s := exec step (start (some 1)) [.pushPriority 5 100, .pushPriority 7 200,
      .popPriority 200]
    s.pushed = [(100, 5)] ∧ s.thread.effectivePriority = 1 ∧ ¬ Inherits s := by
  decide +kernel

end Orcos.Guarantees.PriorityInheritance
