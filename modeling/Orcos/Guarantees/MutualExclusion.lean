import Mathlib.Tactic.Common
import Orcos.Lib.Runs
import Orcos.Source.Mutex

/-!
# Mutual exclusion

At most one thread is between its outermost successful `acquire` and the
matching `release`, as long as no thread releases a mutex it has acquired more
than once: `acquire` lets the holder in again, but `release` does not count.
-/
namespace Orcos.Guarantees.MutualExclusion
open Orcos.Lib.Runs Orcos.Source Orcos.Source.Mutex

variable {τ μ : Type} {s : Threads τ μ} {t : τ} {m : μ}

/-- The thread is between its outermost acquire and the matching release. -/
def Inside (s : Threads τ μ) (t : τ) (m : μ) : Prop := 0 < s.depth t m

instance (s : Threads τ μ) (t : τ) (m : μ) : Decidable (Inside s t m) :=
  inferInstanceAs (Decidable (_ < _))

def Exclusive (s : Threads τ μ) : Prop := ∀ m t u, Inside s t m → Inside s u m → t = u

/-- A thread releases only what it has acquired exactly once. -/
def Unnested (s : Threads τ μ) : Event τ μ → Prop
  | .release t m => s.depth t m = 1
  | _ => True

instance (s : Threads τ μ) : ∀ event, Decidable (Unnested s event)
  | .release _ _ => inferInstanceAs (Decidable (_ = _))
  | .acquire _ _ _ | .attempt _ | .own _ | .unlock _ => .isTrue trivial

/-- The lock is set for this thread: it is inside, about to get in, or has
called `release` without having cleared the lock. -/
def Owns (s : Threads τ μ) (t : τ) (m : μ) : Prop :=
  Inside s t m ∨ s.point t = .won m ∨ s.point t = .releasing m

structure Mutual (s : Threads τ μ) : Prop where
  locked : ∀ m, (s.mutex m).locked = true ↔ ∃ t, Owns s t m
  unique : ∀ m t u, Owns s t m → Owns s u m → t = u
  owner : ∀ m t, (s.mutex m).pThread = some t → Inside s t m
  left : ∀ m t, s.point t = .releasing m → s.depth t m = 0

theorem start_inv : Mutual (start : Threads τ μ) := by
  constructor
  · intro m
    simp [start, create, Owns, Inside]
  · intro m t u owns
    simp [start, Owns, Inside] at owns
  · intro m t owner
    simp [start, create] at owner
  · intro m t _
    rfl

/-- A step that changes neither who owns a mutex nor its lock. -/
theorem Mutual.congr {s' : Threads τ μ} (inv : Mutual s)
    (owns : ∀ t m, Owns s' t m ↔ Owns s t m)
    (locked : ∀ m, (s'.mutex m).locked = (s.mutex m).locked)
    (owner : ∀ m t, (s'.mutex m).pThread = some t → Inside s' t m)
    (left : ∀ m t, s'.point t = .releasing m → s'.depth t m = 0) : Mutual s' := by
  refine ⟨fun m => ?_, fun m t u => ?_, owner, left⟩
  · simp only [locked, owns]
    exact inv.locked m
  · simp only [owns]
    exact inv.unique m t u

variable [DecidableEq τ] [DecidableEq μ]

theorem acquire_preserves (inv : Mutual s) (outside : s.point t = .outside) (blocking : Bool) :
    Mutual (acquire s t m blocking) := by
  unfold acquire
  by_cases holder : (s.mutex m).pThread = some t
  · have inside : 0 < s.depth t m := inv.owner m t holder
    rw [if_pos holder]
    refine inv.congr (fun u k => ?_) (fun k => rfl) (fun k u owner => ?_) (fun k u leaving => ?_)
    · by_cases here : u = t ∧ k = m
      · simp [Owns, Inside, here, inside]
      · simp [Owns, Inside, here]
    · have := inv.owner k u owner
      simp only [Inside, Threads.setDepth_depth] at this ⊢
      split <;> omega
    · have none := inv.left k u leaving
      have differ : ¬ (u = t ∧ k = m) := by
        rintro ⟨rfl, rfl⟩
        omega
      simpa [differ] using none
  · rw [if_neg holder]
    refine inv.congr (fun u k => ?_) (fun k => ?_) (fun k u owner => ?_) (fun k u leaving => ?_)
    · by_cases here : u = t
      · simp [Owns, Inside, here, outside]
      · simp [Owns, Inside, here]
    · by_cases here : k = m <;> simp [here]
    · by_cases here : k = m
      · subst here
        simp only [Threads.setPoint_mutex, Threads.setMutex_mutex, if_true] at owner
        exact inv.owner k u owner
      · simp only [Threads.setPoint_mutex, Threads.setMutex_mutex, if_neg here] at owner
        exact inv.owner k u owner
    · by_cases here : u = t
      · simp [here] at leaving
      · exact inv.left k u (by simpa [here] using leaving)

/-- The lock goes to a thread only when no thread owns the mutex. -/
theorem attempt_preserves (inv : Mutual s) {blocking : Bool}
    (trying : s.point t = .trying m blocking) : Mutual (attempt s t m blocking) := by
  unfold attempt
  by_cases free : (s.mutex m).locked = false
  · have unowned : ∀ u, ¬ Owns s u m := by
      intro u owns
      rw [(inv.locked m).mpr ⟨u, owns⟩] at free
      cases free
    rw [if_pos free]
    have owns : ∀ u k, Owns ((s.setMutex m { s.mutex m with locked := true }).setPoint t (.won m))
        u k ↔ Owns s u k ∨ (u = t ∧ k = m) := by
      intro u k
      by_cases here : u = t
      · subst here
        simp [Owns, Inside, trying, eq_comm]
      · simp [Owns, Inside, here]
    refine ⟨fun k => ?_, fun k u v => ?_, fun k u owner => ?_, fun k u leaving => ?_⟩
    · simp only [owns]
      by_cases here : k = m
      · simp [here]
      · simp [here, inv.locked k]
    · rw [owns, owns]
      rintro (old | ⟨first, here⟩) (old' | ⟨second, here'⟩)
      · exact inv.unique k u v old old'
      · exact absurd (here' ▸ old) (unowned u)
      · exact absurd (here ▸ old') (unowned v)
      · rw [first, second]
    · refine inv.owner k u ?_
      by_cases here : k = m
      · subst here
        simpa using owner
      · simpa [here] using owner
    · by_cases here : u = t
      · simp [here] at leaving
      · exact inv.left k u (by simpa [here] using leaving)
  · rw [if_neg free]
    split
    · exact inv
    · refine inv.congr (fun u k => ?_) (fun k => rfl) inv.owner (fun k u leaving => ?_)
      · by_cases here : u = t
        · simp [Owns, Inside, here, trying]
        · simp [Owns, Inside, here]
      · by_cases here : u = t
        · simp [here] at leaving
        · exact inv.left k u (by simpa [here] using leaving)

theorem own_preserves (inv : Mutual s) (won : s.point t = .won m) : Mutual (own s t m) := by
  unfold own
  have mine : Owns s t m := .inr (.inl won)
  refine inv.congr (fun u k => ?_) (fun k => ?_) (fun k u owner => ?_) (fun k u leaving => ?_)
  · by_cases here : u = t
    · subst here
      by_cases same : k = m
      · subst same
        simp [Owns, Inside, won]
      · simp [Owns, Inside, won, same, Ne.symm same]
    · simp [Owns, Inside, here]
  · by_cases here : k = m <;> simp [here]
  · by_cases here : k = m
    · subst here
      have isOwner : t = u := by simpa using owner
      simp [Inside, isOwner]
    · have inside := inv.owner k u (by simpa [here] using owner)
      simpa [Inside, here] using inside
  · by_cases here : u = t
    · simp [here] at leaving
    · simpa [here] using inv.left k u (by simpa [here] using leaving)

/-- The one release of a mutex acquired once ends the ownership of its thread
only with the lock. -/
theorem release_preserves (inv : Mutual s) (outside : s.point t = .outside)
    (once : s.depth t m = 1) : Mutual (release s t m) := by
  unfold release
  refine inv.congr (fun u k => ?_) (fun k => ?_) (fun k u owner => ?_) (fun k u leaving => ?_)
  · by_cases here : u = t
    · subst here
      by_cases same : k = m
      · subst same
        simp [Owns, Inside, once]
      · simp [Owns, Inside, outside, same, Ne.symm same]
    · simp [Owns, Inside, here]
  · by_cases here : k = m <;> simp [here]
  · by_cases here : k = m
    · simp [here] at owner
    · have inside := inv.owner k u (by simpa [here] using owner)
      simpa [Inside, here] using inside
  · by_cases here : u = t
    · have same : m = k := by simpa [here] using leaving
      subst same
      simp [here, once]
    · simpa [here] using inv.left k u (by simpa [here] using leaving)

theorem unlock_preserves (inv : Mutual s) (releasing : s.point t = .releasing m) :
    Mutual (unlock s t m) := by
  unfold unlock
  have mine : Owns s t m := .inr (.inr releasing)
  have none := inv.left m t releasing
  have owns : ∀ u k, Owns ((s.setMutex m { s.mutex m with locked := false }).setPoint t .outside)
      u k ↔ Owns s u k ∧ ¬ (u = t ∧ k = m) := by
    intro u k
    by_cases here : u = t
    · subst here
      by_cases same : k = m
      · subst same
        simp [Owns, Inside, none]
      · simp [Owns, Inside, releasing, same, Ne.symm same]
    · simp [Owns, Inside, here]
  refine ⟨fun k => ?_, fun k u v first second => ?_, fun k u owner => ?_, fun k u leaving => ?_⟩
  · simp only [owns]
    by_cases here : k = m
    · subst here
      simp only [Threads.setPoint_mutex, Threads.setMutex_mutex, if_true, Bool.false_eq_true,
        false_iff, not_exists, and_true, not_and, not_not]
      exact fun u other => inv.unique k u t other mine
    · simp [here, inv.locked k]
  · exact inv.unique k u v ((owns u k).mp first).1 ((owns v k).mp second).1
  · refine inv.owner k u ?_
    by_cases here : k = m
    · subst here
      simpa using owner
    · simpa [here] using owner
  · by_cases here : u = t
    · simp [here] at leaving
    · exact inv.left k u (by simpa [here] using leaving)

theorem step_preserves (inv : Mutual s) (event : Event τ μ) (unnested : Unnested s event) :
    Mutual (step s event) := by
  cases event with
  | acquire t m blocking =>
    simp only [step]
    split
    · exact acquire_preserves inv ‹_› blocking
    · exact inv
  | attempt t =>
    simp only [step]
    split
    · exact attempt_preserves inv ‹_›
    · exact inv
  | own t =>
    simp only [step]
    split
    · exact own_preserves inv ‹_›
    · exact inv
  | release t m =>
    simp only [step]
    split
    · exact release_preserves inv ‹_› unnested
    · exact inv
  | unlock t =>
    simp only [step]
    split
    · exact unlock_preserves inv ‹_›
    · exact inv

/-- Any number of threads and mutexes, and any interleaving. -/
theorem at_most_one_inside (events : List (Event τ μ))
    (unnested : Admissible step Unnested start events) :
    Exclusive (exec step start events) := by
  have inv : Mutual (exec step start events) :=
    exec_invariant Mutual (fun s event inv ok => step_preserves inv event ok) events _
      start_inv unnested
  exact fun m t u inT inU => inv.unique m t u (.inl inT) (.inl inU)

/-- Two threads take turns: the second one gets in after the first is out. -/
theorem at_most_one_inside_two_threads :
    Exclusive (exec step (start : Threads (Fin 2) Unit)
      [.acquire 0 () true, .attempt 0, .own 0, .acquire 1 () true, .attempt 1, .release 0 (),
        .unlock 0, .attempt 1, .own 1]) :=
  at_most_one_inside _ (by decide +kernel)

/-- A thread that nests two acquires and has released once is still inside when
the other thread gets in. -/
theorem nested_release_lets_two_in :
    let s := exec step (start : Threads (Fin 2) Unit)
      [.acquire 0 () true, .attempt 0, .own 0, .acquire 0 () true, .release 0 (), .unlock 0,
        .acquire 1 () true, .attempt 1, .own 1]
    Inside s 0 () ∧ Inside s 1 () := by
  decide +kernel

end Orcos.Guarantees.MutualExclusion
