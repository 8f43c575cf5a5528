import Mathlib.Algebra.Order.Ring.Int
import Mathlib.Data.Nat.Basic

/-!
Loops over a state. A round either leaves a state for the next round or ends
the loop with a result. A loop need not end, so it is run for a number of
rounds; with more of them its result stays the same.
-/
namespace Orcos.Lib.Loop

/-- What a round leaves. -/
inductive Round (σ ρ : Type*)
  | again (s : σ)
  | done (r : ρ)

variable {σ ρ : Type*}

/-- At most so many rounds; `none` when they do not suffice. -/
def loop (body : σ → Round σ ρ) : Nat → σ → Option ρ
  | 0, _ => none
  | rounds + 1, s =>
    match body s with
    | .again s => loop body rounds s
    | .done r => some r

variable {body : σ → Round σ ρ} {n m : Nat} {s s' : σ} {r r' : ρ}

theorem loop_again (step : body s = .again s') : loop body (n + 1) s = loop body n s' := by
  rw [loop, step]

theorem loop_done (step : body s = .done r) : loop body (n + 1) s = some r := by
  rw [loop, step]

/-- More rounds change nothing once the loop has ended. -/
theorem loop_mono (ended : loop body n s = some r) (more : n ≤ m) : loop body m s = some r := by
  induction n generalizing m s with
  | zero => cases ended
  | succ n ih =>
    obtain ⟨m, rfl⟩ : ∃ k, m = k + 1 := ⟨m - 1, by omega⟩
    cases step : body s with
    | again s' =>
      rw [loop_again step] at ended ⊢
      exact ih ended (by omega)
    | done r' =>
      rw [loop_done step] at ended ⊢
      exact ended

/-- A measure that every round lowers bounds the rounds. -/
theorem loop_ends {inv : σ → Prop} (measure : σ → Nat)
    (lowered : ∀ s s', inv s → body s = .again s' → inv s' ∧ measure s' < measure s)
    (start : inv s) (enough : measure s < n) : ∃ r, loop body n s = some r := by
  induction n generalizing s with
  | zero => omega
  | succ n ih =>
    cases step : body s with
    | again s' =>
      obtain ⟨next, lower⟩ := lowered s s' start step
      rw [loop_again step]
      exact ih next (by omega)
    | done r => exact ⟨r, loop_done step⟩

/-- A loop that finds itself in a set of states no round leaves never ends. -/
theorem loop_never {inv : σ → Prop} (stays : ∀ s, inv s → ∃ s', body s = .again s' ∧ inv s')
    (start : inv s) : loop body n s = none := by
  induction n generalizing s with
  | zero => rfl
  | succ n ih =>
    obtain ⟨s', step, next⟩ := stays s start
    rw [loop_again step]
    exact ih next

/-- The states of `n` rounds that all go on. -/
inductive Rounds (body : σ → Round σ ρ) : Nat → σ → σ → Prop
  | none (s : σ) : Rounds body 0 s s
  | more {n : Nat} {s s' s'' : σ} (step : body s = .again s') (rest : Rounds body n s' s'') :
      Rounds body (n + 1) s s''

/-- The states that a loop which ends goes through, from the first to the last, and its
result. -/
inductive Visits (body : σ → Round σ ρ) : σ → List σ → ρ → Prop
  | done {s : σ} {r : ρ} (step : body s = .done r) : Visits body s [s] r
  | again {s s' : σ} {states : List σ} {r : ρ} (step : body s = .again s')
      (rest : Visits body s' states r) : Visits body s (s :: states) r

variable {states states' : List σ}

/-- A loop ends exactly when it goes through a list of states. -/
theorem exists_loop_iff : (∃ n, loop body n s = some r) ↔ ∃ states, Visits body s states r := by
  constructor
  · rintro ⟨n, ended⟩
    induction n generalizing s with
    | zero => cases ended
    | succ n ih =>
      cases step : body s with
      | again s' =>
        rw [loop_again step] at ended
        obtain ⟨states, rest⟩ := ih ended
        exact ⟨s :: states, .again step rest⟩
      | done r' =>
        rw [loop_done step] at ended
        cases ended
        exact ⟨[s], .done step⟩
  · rintro ⟨states, visits⟩
    induction visits with
    | done step => exact ⟨1, loop_done step⟩
    | again step _ ih =>
      obtain ⟨n, ended⟩ := ih
      exact ⟨n + 1, (loop_again step).trans ended⟩

theorem Visits.first (visits : Visits body s states r) : ∃ later, states = s :: later := by
  cases visits with
  | done step => exact ⟨[], rfl⟩
  | again step rest => exact ⟨_, rfl⟩

/-- The states after the first round. -/
theorem Visits.rest (visits : Visits body s states r) (step : body s = .again s') :
    ∃ later, states = s :: s' :: later := by
  cases visits with
  | done step' =>
    rw [step] at step'
    cases step'
  | again step' rest =>
    rw [step] at step'
    cases step'
    obtain ⟨later, rfl⟩ := rest.first
    exact ⟨later, rfl⟩

theorem Visits.unique (visits : Visits body s states r) (visits' : Visits body s states' r') :
    states = states' ∧ r = r' := by
  induction visits generalizing states' with
  | done step =>
    cases visits' with
    | done step' =>
      rw [step] at step'
      cases step'
      exact ⟨rfl, rfl⟩
    | again step' =>
      rw [step] at step'
      cases step'
  | again step _ ih =>
    cases visits' with
    | done step' =>
      rw [step] at step'
      cases step'
    | again step' rest' =>
      rw [step] at step'
      cases step'
      obtain ⟨same, result⟩ := ih rest'
      exact ⟨by rw [same], result⟩

/-- The way from a state in the middle is a rest of the whole way. -/
theorem Visits.later {x : σ} (visits : Visits body s states r) (visited : x ∈ states) :
    ∃ rest, Visits body x rest r ∧ rest.length ≤ states.length := by
  induction visits with
  | done step =>
    obtain rfl := List.mem_singleton.mp visited
    exact ⟨_, .done step, Nat.le_refl _⟩
  | again step rest ih =>
    rcases List.mem_cons.mp visited with first | later
    · subst first
      exact ⟨_, .again step rest, Nat.le_refl _⟩
    · obtain ⟨rest', visits', shorter⟩ := ih later
      exact ⟨rest', visits', Nat.le_succ_of_le shorter⟩

/-- A loop that ends is in no state twice. -/
theorem Visits.nodup (visits : Visits body s states r) : states.Nodup := by
  induction visits with
  | done step => simp
  | again step rest ih =>
    apply List.nodup_cons.mpr
    refine ⟨fun again_ => ?_, ih⟩
    obtain ⟨later, visits', shorter⟩ := rest.later again_
    have same := (visits'.unique (.again step rest)).1
    rw [same, List.length_cons] at shorter
    omega

end Orcos.Lib.Loop
