import Mathlib.Algebra.Order.Ring.Int
import Mathlib.Data.List.Basic

/-!
Runs of a state machine given by a transition function, and the two induction
rules every run result of the development rests on: an invariant that each
admissible step keeps holds after each admissible run, and two machines whose
steps agree produce the same outputs. Nothing here mentions the kernel.
-/
namespace Orcos.Lib.Runs

variable {σ τ ι ρ : Type*}

/-- The state after performing the operations from left to right. -/
def exec (step : σ → ι → σ) : σ → List ι → σ
  | s, [] => s
  | s, op :: ops => exec step (step s op) ops

/-- Each operation meets `ok` in the state in which it is performed. -/
def Admissible (step : σ → ι → σ) (ok : σ → ι → Prop) : σ → List ι → Prop
  | _, [] => True
  | s, op :: ops => ok s op ∧ Admissible step ok (step s op) ops

/-- A condition on the operations alone. -/
theorem admissible_of_forall (step : σ → ι → σ) {ok : ι → Prop} (s : σ) (ops : List ι)
    (all : ∀ op ∈ ops, ok op) : Admissible step (fun _ op => ok op) s ops := by
  induction ops generalizing s with
  | nil => trivial
  | cons op ops ih =>
    exact ⟨all op (by simp), ih (step s op) fun op later => all op (by simp [later])⟩

theorem Admissible.and {step : σ → ι → σ} {ok ok' : σ → ι → Prop} {s : σ} {ops : List ι}
    (left : Admissible step ok s ops) (right : Admissible step ok' s ops) :
    Admissible step (fun s op => ok s op ∧ ok' s op) s ops := by
  induction ops generalizing s with
  | nil => trivial
  | cons op ops ih => exact ⟨⟨left.1, right.1⟩, ih left.2 right.2⟩

theorem Admissible.imp {step : σ → ι → σ} {ok ok' : σ → ι → Prop} {s : σ} {ops : List ι}
    (weaker : ∀ s op, ok s op → ok' s op) (admissible : Admissible step ok s ops) :
    Admissible step ok' s ops := by
  induction ops generalizing s with
  | nil => trivial
  | cons op ops ih => exact ⟨weaker s op admissible.1, ih admissible.2⟩

instance Admissible.decidable (step : σ → ι → σ) (ok : σ → ι → Prop)
    [∀ s op, Decidable (ok s op)] : ∀ s ops, Decidable (Admissible step ok s ops)
  | _, [] => .isTrue trivial
  | s, op :: ops =>
    have := Admissible.decidable step ok (step s op) ops
    inferInstanceAs (Decidable (ok s op ∧ Admissible step ok (step s op) ops))

/-- The outputs of a machine whose step also answers. -/
def outputs (step : σ → ι → σ × ρ) : σ → List ι → List ρ
  | _, [] => []
  | s, op :: ops => (step s op).2 :: outputs step (step s op).1 ops

theorem exec_append (step : σ → ι → σ) (s : σ) (ops more : List ι) :
    exec step s (ops ++ more) = exec step (exec step s ops) more := by
  induction ops generalizing s with
  | nil => rfl
  | cons op ops ih => exact ih (step s op)

theorem admissible_append (step : σ → ι → σ) (ok : σ → ι → Prop) (s : σ) (ops more : List ι) :
    Admissible step ok s (ops ++ more) ↔
      Admissible step ok s ops ∧ Admissible step ok (exec step s ops) more := by
  induction ops generalizing s with
  | nil => simp [Admissible, exec]
  | cons op ops ih =>
    simp only [List.cons_append, Admissible, exec, ih (step s op)]
    tauto

theorem outputs_length (step : σ → ι → σ × ρ) (s : σ) (ops : List ι) :
    (outputs step s ops).length = ops.length := by
  induction ops generalizing s with
  | nil => rfl
  | cons op ops ih => simp [outputs, ih]

theorem outputs_append (step : σ → ι → σ × ρ) (s : σ) (ops more : List ι) :
    outputs step s (ops ++ more) = outputs step s ops ++
      outputs step (exec (fun s op => (step s op).1) s ops) more := by
  induction ops generalizing s with
  | nil => rfl
  | cons op ops ih => simp [outputs, exec, ih]

/-- An invariant kept by every admissible step holds after every admissible run.
Prefixes of admissible runs are admissible, so it holds in every state reached. -/
theorem exec_invariant {step : σ → ι → σ} {ok : σ → ι → Prop} (inv : σ → Prop)
    (preserved : ∀ s op, inv s → ok s op → inv (step s op)) (ops : List ι) (s : σ)
    (start : inv s) (admissible : Admissible step ok s ops) : inv (exec step s ops) := by
  induction ops generalizing s with
  | nil => exact start
  | cons op ops ih =>
    exact ih (step s op) (preserved s op start admissible.1) admissible.2

/-- What holds of each admissible step from a state with the invariant holds of each step of an
admissible run. -/
theorem steps_of_invariant {step : σ → ι → σ} {ok good : σ → ι → Prop} (inv : σ → Prop)
    (preserved : ∀ s op, inv s → ok s op → good s op ∧ inv (step s op)) (ops : List ι) (s : σ)
    (start : inv s) (admissible : Admissible step ok s ops) :
    ∀ front op back, ops = front ++ op :: back → good (exec step s front) op := by
  intro front op back whole
  rw [whole, admissible_append] at admissible
  have reached := exec_invariant inv (fun s op holds fits => (preserved s op holds fits).2) front s
    start admissible.1
  exact (preserved _ op reached admissible.2.1).1

/-- A quantity that grows by at most one a step stays below its start value
plus the length of the run, so it may be assumed bounded at each step. -/
theorem admissible_bounded {step : σ → ι → σ} {ok : σ → ι → Prop} (measure : σ → Nat)
    (grows : ∀ s op, measure (step s op) ≤ measure s + 1) (bound : Nat) (ops : List ι) (s : σ)
    (fits : measure s + ops.length ≤ bound) (admissible : Admissible step ok s ops) :
    Admissible step (fun s op => ok s op ∧ measure s ≤ bound) s ops := by
  induction ops generalizing s with
  | nil => trivial
  | cons op ops ih =>
    have next := grows s op
    simp only [List.length_cons] at fits
    exact ⟨⟨admissible.1, by omega⟩, ih (step s op) (by omega) admissible.2⟩

/-- Forward simulation: related states stay related and answer alike. -/
theorem outputs_simulation {step : σ → ι → σ × ρ} {spec : τ → ι → τ × ρ}
    {ok : σ → ι → Prop} (rel : σ → τ → Prop)
    (simulates : ∀ s t op, rel s t → ok s op →
      rel (step s op).1 (spec t op).1 ∧ (step s op).2 = (spec t op).2)
    (ops : List ι) (s : σ) (t : τ) (start : rel s t)
    (admissible : Admissible (fun s op => (step s op).1) ok s ops) :
    rel (exec (fun s op => (step s op).1) s ops) (exec (fun t op => (spec t op).1) t ops) ∧
      outputs step s ops = outputs spec t ops := by
  induction ops generalizing s t with
  | nil => exact ⟨start, rfl⟩
  | cons op ops ih =>
    obtain ⟨related, answer⟩ := simulates s t op start admissible.1
    obtain ⟨final, rest⟩ := ih _ _ related admissible.2
    exact ⟨final, by simp only [outputs, answer, rest]⟩

/-- Two machines whose answers agree just in the admissible steps give the same outputs in
just the admissible runs. -/
theorem outputs_eq_iff {step : σ → ι → σ × ρ} {spec : τ → ι → τ × ρ} {ok : τ → ι → Prop}
    (rel : σ → τ → Prop)
    (simulates : ∀ s t op, rel s t → ok t op →
      rel (step s op).1 (spec t op).1 ∧ (step s op).2 = (spec t op).2)
    (differs : ∀ s t op, rel s t → ¬ok t op → (step s op).2 ≠ (spec t op).2)
    (ops : List ι) (s : σ) (t : τ) (start : rel s t) :
    outputs step s ops = outputs spec t ops ↔
      Admissible (fun t op => (spec t op).1) ok t ops := by
  induction ops generalizing s t with
  | nil => simp [outputs, Admissible]
  | cons op ops ih =>
    simp only [outputs, List.cons.injEq, Admissible]
    constructor
    · intro same
      have agrees : ok t op := Classical.byContradiction fun other =>
        differs s t op start other same.1
      exact ⟨agrees, (ih _ _ (simulates s t op start agrees).1).mp same.2⟩
    · intro admissible
      obtain ⟨related, answer⟩ := simulates s t op start admissible.1
      exact ⟨answer, (ih _ _ related).mpr admissible.2⟩

/-- A machine whose steps may fail follows one whose steps do not. -/
theorem foldlM_simulation {step : σ → ι → Option σ} {spec : τ → ι → τ} {ok : τ → ι → Prop}
    (rel : σ → τ → Prop)
    (simulates : ∀ s t op, rel s t → ok t op → ∃ s', step s op = some s' ∧ rel s' (spec t op))
    (ops : List ι) (s : σ) (t : τ) (start : rel s t) (admissible : Admissible spec ok t ops) :
    ∃ s', ops.foldlM step s = some s' ∧ rel s' (exec spec t ops) := by
  induction ops generalizing s t with
  | nil => exact ⟨s, rfl, start⟩
  | cons op ops ih =>
    obtain ⟨s', stepped, related⟩ := simulates s t op start admissible.1
    obtain ⟨final, ran, last⟩ := ih s' _ related admissible.2
    refine ⟨final, ?_, last⟩
    rw [List.foldlM_cons, stepped]
    exact ran

/-- Each operation meets `ok`, as far as the run of a machine gets whose steps may fail. -/
def AdmissibleM (step : σ → ι → Option σ) (ok : σ → ι → Prop) : σ → List ι → Prop
  | _, [] => True
  | s, op :: ops => ok s op ∧
    match step s op with
    | some s' => AdmissibleM step ok s' ops
    | none => True

instance AdmissibleM.decidable (step : σ → ι → Option σ) (ok : σ → ι → Prop)
    [∀ s op, Decidable (ok s op)] : ∀ s ops, Decidable (AdmissibleM step ok s ops)
  | _, [] => .isTrue trivial
  | s, op :: ops =>
    have (s' : Option σ) : Decidable (match s' with
        | some s' => AdmissibleM step ok s' ops
        | none => True) :=
      match s' with
      | some s' => AdmissibleM.decidable step ok s' ops
      | none => .isTrue trivial
    inferInstanceAs (Decidable (ok s op ∧ _))

/-- A condition on the operations alone. -/
theorem admissibleM_of_forall (step : σ → ι → Option σ) {ok : ι → Prop} (s : σ) (ops : List ι)
    (all : ∀ op ∈ ops, ok op) : AdmissibleM step (fun _ op => ok op) s ops := by
  induction ops generalizing s with
  | nil => trivial
  | cons op ops ih =>
    refine ⟨all op List.mem_cons_self, ?_⟩
    split
    · exact ih _ fun op later => all op (List.mem_cons_of_mem _ later)
    · trivial

/-- A machine whose admissible steps succeed and keep an invariant runs to the end. -/
theorem foldlM_invariant {step : σ → ι → Option σ} {ok : σ → ι → Prop} (inv : σ → Prop)
    (preserved : ∀ s op, inv s → ok s op → ∃ s', step s op = some s' ∧ inv s') (ops : List ι)
    (s : σ) (start : inv s) (admissible : AdmissibleM step ok s ops) :
    ∃ s', ops.foldlM step s = some s' ∧ inv s' := by
  induction ops generalizing s with
  | nil => exact ⟨s, rfl, start⟩
  | cons op ops ih =>
    obtain ⟨s', stepped, next⟩ := preserved s op start admissible.1
    have rest := admissible.2
    rw [stepped] at rest
    obtain ⟨final, ran, last⟩ := ih s' next rest
    refine ⟨final, ?_, last⟩
    rw [List.foldlM_cons, stepped]
    exact ran

/-- The property holds in every state the run reaches, the first one included. -/
def Throughout (step : σ → ι → σ) (good : σ → Prop) : σ → List ι → Prop
  | s, [] => good s
  | s, op :: ops => good s ∧ Throughout step good (step s op) ops

/-- A property that follows from an invariant holds throughout each admissible run. -/
theorem throughout_of_invariant {step : σ → ι → σ} {ok : σ → ι → Prop} {good : σ → Prop}
    (inv : σ → Prop) (holds : ∀ s, inv s → good s)
    (preserved : ∀ s op, inv s → ok s op → inv (step s op)) (ops : List ι) (s : σ)
    (start : inv s) (admissible : Admissible step ok s ops) : Throughout step good s ops := by
  induction ops generalizing s with
  | nil => exact holds s start
  | cons op ops ih =>
    exact ⟨holds s start, ih (step s op) (preserved s op start admissible.1) admissible.2⟩

/-- When `ok` says exactly which steps keep the property, it says exactly which runs keep it
throughout, among those whose steps meet `base`. -/
theorem throughout_iff_of_admissible {step : σ → ι → σ} {base ok : σ → ι → Prop} {good : σ → Prop}
    (inv : σ → Prop) (holds : ∀ s, inv s → good s)
    (exact : ∀ s op, inv s → base s op → (ok s op ↔ good (step s op)))
    (kept : ∀ s op, inv s → base s op → good (step s op) → inv (step s op)) (ops : List ι) (s : σ)
    (start : inv s) (admissible : Admissible step base s ops) :
    Throughout step good s ops ↔ Admissible step ok s ops := by
  induction ops generalizing s with
  | nil =>
    simp only [Throughout, Admissible, iff_true]
    exact holds s start
  | cons op ops ih =>
    simp only [Throughout, Admissible, exact s op start admissible.1]
    constructor
    · rintro ⟨_, rest⟩
      have next : good (step s op) := by
        cases ops with
        | nil => exact rest
        | cons _ _ => exact rest.1
      exact ⟨next, (ih _ (kept s op start admissible.1 next) admissible.2).mp rest⟩
    · rintro ⟨next, rest⟩
      exact ⟨holds s start, (ih _ (kept s op start admissible.1 next) admissible.2).mpr rest⟩

theorem throughout_iff_admissible {step : σ → ι → σ} {ok : σ → ι → Prop} {good : σ → Prop}
    (inv : σ → Prop) (holds : ∀ s, inv s → good s)
    (exact : ∀ s op, inv s → (ok s op ↔ good (step s op)))
    (kept : ∀ s op, inv s → good (step s op) → inv (step s op)) (ops : List ι) (s : σ)
    (start : inv s) : Throughout step good s ops ↔ Admissible step ok s ops := by
  have always : Admissible step (fun _ _ => True) s ops :=
    admissible_of_forall step s ops fun _ _ => trivial
  exact throughout_iff_of_admissible inv holds (fun s op inv _ => exact s op inv)
    (fun s op inv _ => kept s op inv) ops s start always

/-- After each operation, an observation of the state and the output. -/
def trace (view : σ → τ) (step : σ → ι → σ × ρ) : σ → List ι → List (τ × ρ)
  | _, [] => []
  | s, op :: ops => (view (step s op).1, (step s op).2) :: trace view step (step s op).1 ops

/-- When `ok` says exactly which steps the specification follows, it says
exactly which runs it follows. -/
theorem trace_eq_iff_admissible {view : σ → τ} {step : σ → ι → σ × ρ} {spec : τ → ι → τ × ρ}
    {ok : σ → ι → Prop} (inv : σ → Prop) (preserved : ∀ s op, inv s → inv (step s op).1)
    (exact : ∀ s op, inv s → (ok s op ↔ (view (step s op).1, (step s op).2) = spec (view s) op))
    (ops : List ι) (s : σ) (start : inv s) :
    trace view step s ops = trace id spec (view s) ops ↔
      Admissible (fun s op => (step s op).1) ok s ops := by
  induction ops generalizing s with
  | nil => simp [trace, Admissible]
  | cons op ops ih =>
    simp only [trace, Admissible, List.cons.injEq, exact s op start]
    refine and_congr_right fun agree => ?_
    rw [← ih (step s op).1 (preserved s op start)]
    have same : (spec (view s) op).1 = view (step s op).1 := (congrArg Prod.fst agree).symm
    rw [same]

end Orcos.Lib.Runs
