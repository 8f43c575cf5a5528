import Orcos.Lib.Runs
import Orcos.Source.UserMutex

/-!
# Threads that use a mutex of the user library

Source: src/library/src/stdlib.c, `mutex_acquire`, `mutex_release`;
src/source/syscalls/sc_synchro.cc, `sc_signal_wait`, `sc_signal_signal`.

The test of the word and the wait for the signal are two system calls apart: a release in
between raises the signal before the thread waits for it.
-/
namespace Orcos.Guarantees.UserMutexes
open Lib.Runs Source

variable {τ : Type}

section Specification

/-- A thread other than this one is about to take the mutex, or about to wake those that wait. -/
def Coming (s : UserMutex τ) (t : τ) : Prop :=
  ∃ u, u ≠ t ∧ ((∃ blocking, s.point u = .testing blocking) ∨ s.point u = .signalling)

/-- At most one thread holds the mutex, and no thread waits for its signal while the mutex is
free, unless another one is about to take it or to raise the signal. -/
structure Served (s : UserMutex τ) : Prop where
  exclusive : ∀ t u, s.holds t = true → s.holds u = true → t = u
  awaited : ∀ t ∈ s.condwaitList, s.counter = 1 → Coming s t

/-- A thread releases only what it has acquired. -/
def Holding (s : UserMutex τ) (op : MutexOp τ) : Prop := ∀ t, op = .release t → s.holds t = true

/-- A `testandset` that fails while the mutex is free is not the last hope of a thread that waits,
and no thread begins to wait for a free mutex that nobody else is about to take. -/
def Fits (s : UserMutex τ) : MutexOp τ → Prop
  | .testandset t stored =>
    (∃ blocking, s.point t = .testing blocking) → s.counter = 1 → stored = false →
      s.condwaitList ≠ [] → Coming s t
  | .signalWait t => s.point t = .failed → s.counter = 1 → Coming s t
  | _ => True

end Specification

section Steps

variable [DecidableEq τ] {s : UserMutex τ} {t u : τ}

/-- The threads on the list are in `signal_wait`. -/
def Listed (s : UserMutex τ) : Prop := ∀ t ∈ s.condwaitList, s.point t = .waiting

omit [DecidableEq τ] in
theorem served_create : Served (UserMutex.create : UserMutex τ) := by
  refine ⟨fun t u holds => ?_, fun t waits => ?_⟩
  · cases holds
  · cases waits

/-- The state after a step, where the thread was. -/
inductive Stepped (s : UserMutex τ) : MutexOp τ → UserMutex τ → Prop
  | idle (op : MutexOp τ) (idle : Fits s op) : Stepped s op s
  | acquire (t : τ) (blocking : Bool) (outside : s.point t = .outside) :
      Stepped s (.acquire t blocking) (s.setPoint t (.testing blocking))
  | take (t : τ) (blocking : Bool) (testing : s.point t = .testing blocking)
      (free : s.counter = 1) :
      Stepped s (.testandset t true) ({ s with counter := 0 }.return_ t cOk true)
  | fail (t : τ) (stored : Bool) (s' : UserMutex τ)
      (testing : ∃ blocking, s.point t = .testing blocking)
      (why : s.counter = 1 → stored = false)
      (counter : s'.counter = s.counter) (list : s'.condwaitList = s.condwaitList)
      (holds : s'.holds = s.holds) (others : ∀ u, u ≠ t → s'.point u = s.point u)
      (left : s'.point t = .failed ∨ s'.point t = .outside) : Stepped s (.testandset t stored) s'
  | wait (t : τ) (failed : s.point t = .failed) : Stepped s (.signalWait t) (s.signalWait t)
  | release (t : τ) (outside : s.point t = .outside) : Stepped s (.release t) (s.release t)
  | signal (t : τ) (signalling : s.point t = .signalling) :
      Stepped s (.signalSignal t) (s.setPoint t .outside).signal

theorem setPoint_self (s : UserMutex τ) (t : τ) (point : MutexPoint) :
    (s.setPoint t point).point t = point := Function.update_self ..

theorem setPoint_other (s : UserMutex τ) (point : MutexPoint) (other : u ≠ t) :
    (s.setPoint t point).point u = s.point u := Function.update_of_ne other ..

theorem testandset_cases (blocking stored : Bool) (testing : s.point t = .testing blocking) :
    Stepped s (.testandset t stored) (s.testandset t blocking stored) := by
  unfold UserMutex.testandset
  by_cases free : s.counter = 1 ∧ stored = true
  · rw [if_pos free]
    obtain ⟨free, rfl⟩ := free
    exact .take t blocking testing free
  · rw [if_neg free]
    have why : s.counter = 1 → stored = false := fun one => by
      cases stored with
      | false => rfl
      | true => exact absurd ⟨one, rfl⟩ free
    cases blocking with
    | true =>
      exact .fail t stored _ ⟨_, testing⟩ why rfl rfl rfl
        (fun u other => setPoint_other s .failed other) (.inl (setPoint_self s t .failed))
    | false =>
      refine .fail t stored _ ⟨_, testing⟩ why rfl rfl ?_
        (fun u other => setPoint_other s .outside other) (.inr (setPoint_self s t .outside))
      exact Function.update_eq_self t s.holds

theorem step_cases (s : UserMutex τ) (op : MutexOp τ) : Stepped s op (s.step op) := by
  cases op with
  | acquire t blocking =>
    dsimp only [UserMutex.step]
    split
    case h_1 outside => exact .acquire t blocking outside
    case h_2 => exact .idle _ trivial
  | testandset t stored =>
    dsimp only [UserMutex.step]
    split
    case h_1 blocking testing => exact testandset_cases blocking stored testing
    case h_2 other => exact .idle _ fun ⟨blocking, testing⟩ => absurd testing (other blocking)
  | signalWait t =>
    dsimp only [UserMutex.step]
    split
    case h_1 failed => exact .wait t failed
    case h_2 other => exact .idle _ fun failed => absurd failed other
  | release t =>
    dsimp only [UserMutex.step]
    split
    case h_1 outside => exact .release t outside
    case h_2 => exact .idle _ trivial
  | signalSignal t =>
    dsimp only [UserMutex.step]
    split
    case h_1 signalling => exact .signal t signalling
    case h_2 => exact .idle _ trivial

theorem Listed.step (listed : Listed s) (op : MutexOp τ) : Listed (s.step op) := by
  have elsewhere : ∀ {t : τ} {point}, s.point t = point → point ≠ .waiting →
      t ∉ s.condwaitList := fun here differs waits => differs (here.symm.trans (listed _ waits))
  have moved : ∀ {t : τ} {point}, t ∉ s.condwaitList → ∀ u ∈ s.condwaitList,
      (s.setPoint t point).point u = .waiting := fun {t} {point} absent u waits => by
    have other : u ≠ t := fun same => absent (same ▸ waits)
    rw [setPoint_other s point other]
    exact listed u waits
  have stepped := step_cases s op
  generalize s.step op = s' at stepped ⊢
  cases stepped with
  | idle => exact listed
  | acquire t blocking outside => exact moved (elsewhere outside (by decide))
  | take t blocking testing =>
    exact moved (elsewhere testing fun same => by cases same)
  | fail t stored s' testing why counter list holds others left =>
    obtain ⟨blocking, testing⟩ := testing
    have absent : t ∉ s.condwaitList := elsewhere testing fun same => by cases same
    intro u waits
    rw [list] at waits
    rw [others u fun same => absent (same ▸ waits)]
    exact listed u waits
  | wait t failed =>
    intro u waits
    by_cases same : u = t
    · rw [same]
      exact setPoint_self s t .waiting
    · have before : u ∈ s.condwaitList := by simpa [UserMutex.signalWait, same] using waits
      exact (setPoint_other s .waiting same).trans (listed u before)
  | release t outside => exact moved (elsewhere outside (by decide))
  | signal t signalling =>
    intro u waits
    cases waits

omit [DecidableEq τ] in
theorem Coming.of_point {s' : UserMutex τ} (coming : Coming s u)
    (kept : ∀ v, ((∃ blocking, s.point v = .testing blocking) ∨ s.point v = .signalling) →
      s'.point v = s.point v) : Coming s' u := by
  obtain ⟨v, other, here⟩ := coming
  refine ⟨v, other, ?_⟩
  rw [kept v here]
  exact here

/-- At most one thread holds the mutex, and none while it is free. -/
structure Owned (s : UserMutex τ) : Prop where
  exclusive : ∀ t u, s.holds t = true → s.holds u = true → t = u
  free : s.counter = 1 → ∀ t, s.holds t = false

theorem Owned.step (owned : Owned s) (op : MutexOp τ) (holding : Holding s op) :
    Owned (s.step op) := by
  have stepped := step_cases s op
  generalize s.step op = s' at stepped ⊢
  cases stepped with
  | idle => exact owned
  | acquire t blocking outside => exact ⟨owned.exclusive, owned.free⟩
  | take t blocking testing free =>
    have none_ := owned.free free
    refine ⟨fun u v first second => ?_, fun taken => by cases taken⟩
    have here : ∀ w, ({ s with counter := 0 }.return_ t cOk true).holds w = true → w = t :=
      fun w held => by
        by_contra other
        simp [UserMutex.return_, other, none_] at held
    exact (here u first).trans (here v second).symm
  | fail t stored s' testing why counter list holds others left =>
    apply Owned.mk
    · rw [holds]
      exact owned.exclusive
    · rw [holds, counter]
      exact owned.free
  | wait t failed => exact ⟨owned.exclusive, owned.free⟩
  | release t outside =>
    have held : s.holds t = true := holding t rfl
    have nobody : ∀ u, (s.release t).holds u = false := fun u => by
      by_cases same : u = t
      · simp [UserMutex.release, same]
      · cases other : s.holds u with
        | true => exact absurd (owned.exclusive u t other held) same
        | false => simpa [UserMutex.release, same] using other
    refine ⟨fun u v first _ => ?_, fun _ => nobody⟩
    rw [nobody u] at first
    cases first
  | signal t signalling => exact ⟨owned.exclusive, owned.free⟩

/-- The condition says exactly which steps keep both properties. -/
theorem fits_iff (owned : Owned s) (served : Served s) (listed : Listed s) (op : MutexOp τ)
    (holding : Holding s op) : Fits s op ↔ Served (s.step op) := by
  have next := owned.step op holding
  have stepped := step_cases s op
  generalize s.step op = s' at stepped next ⊢
  cases stepped with
  | idle op fits => exact iff_of_true fits served
  | acquire t blocking outside =>
    apply iff_of_true trivial
    refine ⟨served.exclusive, fun u waits free => ?_⟩
    apply (served.awaited u waits free).of_point
    intro v here
    apply setPoint_other
    rintro rfl
    simp [outside] at here
  | take t blocking testing free =>
    apply iff_of_true
    · exact fun _ _ failed => by cases failed
    · exact ⟨next.exclusive, fun u _ taken => by cases taken⟩
  | fail t stored s' testing why counter list holds others left =>
    obtain ⟨blocking, testing⟩ := testing
    have gone : ¬((∃ blocking, s'.point t = .testing blocking) ∨ s'.point t = .signalling) := by
      rcases left with left | left
      · simp [left]
      · simp [left]
    constructor
    · intro fits
      refine ⟨fun u v => ?_, fun u waits free => ?_⟩
      · rw [holds]
        exact served.exclusive u v
      · rw [list] at waits
        rw [counter] at free
        obtain ⟨v, other, here⟩ :=
          fits ⟨blocking, testing⟩ free (why free) (List.ne_nil_of_mem waits)
        refine ⟨v, fun same => ?_, ?_⟩
        · rw [same, listed u waits] at here
          simp at here
        · rw [others v other]
          exact here
    · intro after _ free _ nonempty
      obtain ⟨u, waits⟩ := List.exists_mem_of_ne_nil _ nonempty
      obtain ⟨v, _, here⟩ := after.awaited u (list ▸ waits) (counter.trans free)
      have other : v ≠ t := fun same => gone (same ▸ here)
      refine ⟨v, other, ?_⟩
      rw [← others v other]
      exact here
  | wait t failed =>
    have kept : ∀ v, v ≠ t → (s.signalWait t).point v = s.point v := fun v other =>
      setPoint_other s .waiting other
    constructor
    · intro fits
      refine ⟨served.exclusive, fun u waits free => ?_⟩
      have coming : Coming s u := by
        rcases List.mem_append.mp waits with before | new
        · exact served.awaited u before free
        · rw [List.mem_singleton.mp new]
          exact fits failed free
      apply coming.of_point
      intro v here
      apply kept
      rintro rfl
      simp [failed] at here
    · intro after _ free
      have new : t ∈ (s.signalWait t).condwaitList := by simp [UserMutex.signalWait]
      obtain ⟨v, other, here⟩ := after.awaited t new free
      rw [kept v other] at here
      exact ⟨v, other, here⟩
  | release t outside =>
    apply iff_of_true trivial
    have holds : ∀ u, (s.release t).holds u = true → s.holds u = true := fun u held => by
      by_cases same : u = t
      · simp [UserMutex.release, same] at held
      · simpa [UserMutex.release, same] using held
    refine ⟨fun u v first second => served.exclusive u v (holds u first) (holds v second),
      fun u waits _ => ⟨t, fun same => ?_, .inr (setPoint_self s t .signalling)⟩⟩
    have waiting := listed u waits
    rw [← same, outside] at waiting
    cases waiting
  | signal t signalling =>
    apply iff_of_true trivial
    exact ⟨served.exclusive, fun u waits => by cases waits⟩

/-- While only the thread that holds it releases it, the mutex has at most one holder along every
run, and no thread waits for a free mutex in vain exactly when each step meets the condition. -/
theorem mutex_served_iff (ops : List (MutexOp τ))
    (holding : Admissible UserMutex.step Holding UserMutex.create ops) :
    Throughout UserMutex.step Served UserMutex.create ops ↔
      Admissible UserMutex.step Fits UserMutex.create ops := by
  refine throughout_iff_of_admissible (fun s => Owned s ∧ Served s ∧ Listed s)
    (fun s inv => inv.2.1) ?_ ?_ ops _ ?_ holding
  · exact fun s op inv holds => fits_iff inv.1 inv.2.1 inv.2.2 op holds
  · exact fun s op inv holds after => ⟨inv.1.step op holds, after, inv.2.2.step op⟩
  · exact ⟨⟨served_create.exclusive, fun _ _ => rfl⟩, served_create, fun t waits => by cases waits⟩

/-- One thread waits until the other one hands the mutex over. -/
theorem mutex_served_iff_handedOver :
    Throughout UserMutex.step Served (UserMutex.create : UserMutex Bool)
      [.acquire true true, .testandset true true, .acquire false true, .testandset false true,
        .signalWait false, .release true, .signalSignal true, .testandset false true,
        .release false] := by
  refine (mutex_served_iff _ ?_).mpr ?_
  · refine ⟨?_, ?_, ?_, ?_, ?_, ?_, ?_, ?_, ?_, trivial⟩
    all_goals rintro t same; cases same
    · rfl
    · rfl
  · refine ⟨trivial, ?_, trivial, ?_, ?_, trivial, trivial, ?_, trivial, trivial⟩
    · exact fun _ _ failed => by cases failed
    · exact fun _ free => by cases free
    · exact fun _ free => by cases free
    · exact fun _ _ failed => by cases failed

/-- Between the test that fails and the wait of one thread, the holder stores and signals. -/
theorem signal_missed :
    ¬Throughout UserMutex.step Served (UserMutex.create : UserMutex Bool)
      [.acquire true true, .testandset true true, .acquire false true, .testandset false true,
        .release true, .signalSignal true, .signalWait false] := by
  rintro ⟨-, -, -, -, -, -, -, served⟩
  obtain ⟨u, other, here⟩ := served.awaited false (List.mem_singleton.mpr rfl) rfl
  cases u with
  | false => exact other rfl
  | true =>
    obtain ⟨blocking, testing⟩ | signalling := here
    · have outside : MutexPoint.outside = .testing blocking := testing
      cases outside
    · have outside : MutexPoint.outside = .signalling := signalling
      cases outside

end Steps

end Orcos.Guarantees.UserMutexes
