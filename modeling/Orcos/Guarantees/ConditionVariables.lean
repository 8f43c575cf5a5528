import Orcos.Lib.Runs
import Orcos.Source.UserMutex

/-!
# Threads that wait for a condition

Source: src/library/src/pthread.c, `pthread_cond_wait`, `pthread_cond_signal`;
src/library/src/stdlib.c, `mutex_acquire`, `mutex_release`;
src/source/syscalls/sc_synchro.cc, `sc_signal_wait`, `sc_signal_signal`.

A thread is on the list of those that wait only some time after it released the mutex; a signal
in between finds nobody and is not remembered.
-/
namespace Orcos.Guarantees.ConditionVariables
open Lib.Runs Source

variable {τ : Type}

section Specification

/-- For each thread, whether it held the mutex when it last called `pthread_cond_wait`, and
whether a thread that held the mutex has sent a signal since. -/
structure Watched (τ : Type) where
  state : PthreadCond τ
  held : τ → Bool
  signalled : τ → Bool

def Watched.create : Watched τ := ⟨.create, fun _ => false, fun _ => false⟩

/-- A waiter that a signal was sent to does not wait any more. -/
def Woken (x : Watched τ) : Prop :=
  ∀ t, x.held t = true → x.signalled t = true →
    x.state.point t = .locking ∨ x.state.point t = .outside

/-- The thread has released the mutex and is not on the list yet. -/
def Between (s : PthreadCond τ) (t : τ) : Prop := s.point t = .unlocking ∨ s.point t = .unlocked

variable [DecidableEq τ]

def watch (x : Watched τ) (op : PthreadOp τ) : Watched τ :=
  match op with
  | .condWait t =>
    if x.state.idle t then
      ⟨x.state.step op, Function.update x.held t (x.state.mutex.holds t),
        Function.update x.signalled t false⟩
    else x
  | .condSignal t =>
    if x.state.idle t && x.state.mutex.holds t then ⟨x.state.step op, x.held, fun _ => true⟩
    else { x with state := x.state.step op }
  | _ => { x with state := x.state.step op }

/-- A thread that holds the mutex sends a signal while every waiter is on the list. -/
def Settled (x : Watched τ) : PthreadOp τ → Prop
  | .condSignal u => x.state.idle u = true → x.state.mutex.holds u = true →
      ∀ t, x.held t = true → ¬Between x.state t
  | _ => True

/-- `pthread_cond_wait` returns. -/
def Returns (s : PthreadCond τ) (op : PthreadOp τ) (t : τ) : Prop :=
  s.point t ≠ .outside ∧ (s.step op).point t = .outside

/-- The thread has the mutex, which is not free. -/
def Held (s : PthreadCond τ) (t : τ) : Prop := s.mutex.holds t = true ∧ s.mutex.counter = 0

end Specification

section Steps

variable [DecidableEq τ] {s : PthreadCond τ} {m : UserMutex τ} {t u : τ}

/-- The thread is in a call of `mutex_acquire` that blocks. -/
def Acquiring (m : UserMutex τ) (t : τ) : Prop :=
  m.point t = .testing true ∨ m.point t = .failed ∨ m.point t = .waiting

/-- The step of another thread leaves this one where it is, or wakes it. -/
theorem point_step (m : UserMutex τ) (op : MutexOp τ) (other : t ≠ op.thread) :
    (m.step op).point t = m.point t ∨ (m.step op).point t = .testing true := by
  cases op with
  | acquire u blocking =>
    dsimp only [UserMutex.step]
    split
    · exact .inl (Function.update_of_ne other ..)
    · exact .inl rfl
  | testandset u stored =>
    dsimp only [UserMutex.step, UserMutex.testandset, UserMutex.return_]
    split
    · split
      · exact .inl (Function.update_of_ne other ..)
      · split
        · exact .inl (Function.update_of_ne other ..)
        · exact .inl (Function.update_of_ne other ..)
    · exact .inl rfl
  | signalWait u =>
    dsimp only [UserMutex.step]
    split
    · exact .inl (Function.update_of_ne other ..)
    · exact .inl rfl
  | release u =>
    dsimp only [UserMutex.step]
    split
    · exact .inl (Function.update_of_ne other ..)
    · exact .inl rfl
  | signalSignal u =>
    dsimp only [UserMutex.step, UserMutex.signal]
    split
    · by_cases waits : t ∈ m.condwaitList
      · exact .inr (if_pos waits)
      · exact .inl ((if_neg waits).trans (Function.update_of_ne other ..))
    · exact .inl rfl

/-- A blocking call of `mutex_acquire` goes on, or returns with the mutex. -/
theorem acquiring_step {op : MutexOp τ} (acquiring : Acquiring m op.thread)
    (inside : op.isCall = false) :
    Acquiring (m.step op) op.thread ∨ ((m.step op).point op.thread = .outside ∧
      (m.step op).holds op.thread = true ∧ (m.step op).counter = 0) := by
  cases op with
  | acquire u blocking => cases inside
  | release u => cases inside
  | testandset u stored =>
    change Acquiring m u at acquiring
    dsimp only [MutexOp.thread, UserMutex.step]
    cases point : m.point u with
    | testing blocking =>
      have blocks : blocking = true := by simpa [Acquiring, point] using acquiring
      subst blocks
      dsimp only [UserMutex.testandset]
      split
      · exact .inr (by simp [UserMutex.return_, UserMutex.setPoint])
      · exact .inl (.inr (.inl (by simp [UserMutex.setPoint])))
    | _ => exact .inl acquiring
  | signalWait u =>
    change Acquiring m u at acquiring
    dsimp only [MutexOp.thread, UserMutex.step]
    split
    · exact .inl (.inr (.inr (by simp [UserMutex.signalWait, UserMutex.setPoint])))
    · exact .inl acquiring
  | signalSignal u =>
    change Acquiring m u at acquiring
    dsimp only [MutexOp.thread, UserMutex.step]
    split
    case h_1 signalling => simp [Acquiring, signalling] at acquiring
    case h_2 => exact .inl acquiring

/-- A thread that locks the mutex in `pthread_cond_wait` is in `mutex_acquire`. -/
def Locks (s : PthreadCond τ) : Prop := ∀ t, s.point t = .locking → Acquiring s.mutex t

/-- The threads that wait are those on the list. -/
def Listed (s : PthreadCond τ) : Prop := ∀ t, s.point t = .waiting ↔ t ∈ s.condwaitList

theorem proceed_other (other : t ≠ u) : (s.proceed u).point t = s.point t := by
  unfold PthreadCond.proceed
  split
  · exact Function.update_of_ne other ..
  · exact Function.update_of_ne other ..
  · rfl

@[simp] theorem proceed_mutex (s : PthreadCond τ) (u : τ) : (s.proceed u).mutex = s.mutex := by
  unfold PthreadCond.proceed
  split <;> rfl

@[simp] theorem proceed_condwaitList (s : PthreadCond τ) (u : τ) :
    (s.proceed u).condwaitList = s.condwaitList := by
  unfold PthreadCond.proceed
  split <;> rfl

/-- What a thread does next in `pthread_cond_wait`. -/
theorem proceed_self (s : PthreadCond τ) (u : τ) :
    (s.proceed u).point u = s.point u ∨
      (s.point u = .unlocking ∧ (s.proceed u).point u = .unlocked) ∨
      (s.point u = .locking ∧ s.mutex.point u = .outside ∧ (s.proceed u).point u = .outside) := by
  unfold PthreadCond.proceed
  split
  case h_1 outside unlocking =>
    exact .inr (.inl ⟨unlocking, Function.update_self ..⟩)
  case h_2 outside locking =>
    exact .inr (.inr ⟨locking, outside, Function.update_self ..⟩)
  case h_3 => exact .inl rfl

theorem proceed_locking (locking : (s.proceed u).point u = .locking) :
    s.point u = .locking ∧ s.mutex.point u ≠ .outside := by
  unfold PthreadCond.proceed at locking
  split at locking
  case h_1 => simp [PthreadCond.setPoint] at locking
  case h_2 => simp [PthreadCond.setPoint] at locking
  case h_3 others => exact ⟨locking, fun outside => others outside locking⟩

theorem Locks.step (locks : Locks s) (op : PthreadOp τ) : Locks (s.step op) := by
  intro t locking
  cases op with
  | mutex op =>
    dsimp only [PthreadCond.step] at locking ⊢
    by_cases call : (op.isCall && s.point op.thread ≠ .outside) = true
    · rw [if_pos call] at locking ⊢
      exact locks t locking
    · rw [if_neg call] at locking ⊢
      rw [proceed_mutex]
      by_cases same : t = op.thread
      · subst same
        obtain ⟨before, still⟩ := proceed_locking locking
        have before : s.point op.thread = .locking := before
        have inside : op.isCall = false := by simpa [before] using call
        obtain acquiring | ⟨outside, -⟩ := acquiring_step (locks _ before) inside
        · exact acquiring
        · exact absurd outside still
      · rw [proceed_other same] at locking
        obtain kept | tests := point_step s.mutex op same
        · unfold Acquiring
          dsimp only
          rw [kept]
          exact locks t locking
        · exact .inl tests
  | condWait u =>
    dsimp only [PthreadCond.step] at locking ⊢
    split at locking
    case isTrue idle =>
      rw [if_pos idle]
      by_cases same : t = u
      · simp [PthreadCond.setPoint, same] at locking
      · have before : s.point t = .locking := by
          simpa [PthreadCond.setPoint, same] using locking
        obtain kept | tests := point_step s.mutex (.release u) same
        · unfold Acquiring PthreadCond.setPoint
          dsimp only
          rw [kept]
          exact locks t before
        · exact .inl tests
    case isFalse idle =>
      rw [if_neg idle]
      exact locks t locking
  | signalWait u =>
    dsimp only [PthreadCond.step] at locking ⊢
    split at locking
    case isTrue unlocked =>
      rw [if_pos unlocked]
      by_cases same : t = u
      · simp [PthreadCond.setPoint, same] at locking
      · exact locks t (by simpa [PthreadCond.setPoint, same] using locking)
    case isFalse unlocked =>
      rw [if_neg unlocked]
      exact locks t locking
  | condSignal u =>
    dsimp only [PthreadCond.step] at locking ⊢
    split at locking
    case isTrue idle =>
      rw [if_pos idle]
      by_cases waits : t ∈ s.condwaitList
      · exact .inl (if_pos waits)
      · have before : s.point t = .locking := (if_neg waits).symm.trans locking
        have kept : s.signal.mutex.point t = s.mutex.point t := if_neg waits
        unfold Acquiring
        rw [kept]
        exact locks t before
    case isFalse idle =>
      rw [if_neg idle]
      exact locks t locking

/-- What a step of the mutex does in `pthread_cond_wait`. -/
theorem mutex_point (s : PthreadCond τ) (op : MutexOp τ) (t : τ) :
    (s.step (.mutex op)).point t = s.point t ∨
      (s.point t = .unlocking ∧ (s.step (.mutex op)).point t = .unlocked) ∨
      (s.point t = .locking ∧ (s.step (.mutex op)).point t = .outside ∧ t = op.thread ∧
        op.isCall = false ∧ (s.mutex.step op).point t = .outside ∧
        (s.step (.mutex op)).mutex = s.mutex.step op) := by
  dsimp only [PthreadCond.step]
  by_cases call : (op.isCall && s.point op.thread ≠ .outside) = true
  · rw [if_pos call]
    exact .inl rfl
  · rw [if_neg call]
    by_cases same : t = op.thread
    · subst same
      obtain kept | unlocked | ⟨locking, outside, returned⟩ :=
        proceed_self { s with mutex := s.mutex.step op } op.thread
      · exact .inl kept
      · exact .inr (.inl unlocked)
      · have before : s.point op.thread = .locking := locking
        exact .inr (.inr ⟨locking, returned, rfl, by simpa [before] using call, outside,
          proceed_mutex ..⟩)
    · exact .inl (proceed_other same)

theorem mutex_condwaitList (s : PthreadCond τ) (op : MutexOp τ) :
    (s.step (.mutex op)).condwaitList = s.condwaitList := by
  dsimp only [PthreadCond.step]
  split
  · rfl
  · rw [proceed_condwaitList]

/-- `pthread_cond_wait` returns with the mutex. -/
theorem Locks.held (locks : Locks s) {op : PthreadOp τ} (returns : Returns s op t) :
    Held (s.step op) t := by
  obtain ⟨inside, outside⟩ := returns
  cases op with
  | mutex op =>
    obtain kept | ⟨-, unlocked⟩ | ⟨locking, -, rfl, call, left, mutex⟩ := mutex_point s op t
    · exact absurd (kept.symm.trans outside) inside
    · rw [unlocked] at outside
      cases outside
    · unfold Held
      rw [mutex]
      obtain acquiring | ⟨-, held⟩ := acquiring_step (locks _ locking) call
      · simp [Acquiring, left] at acquiring
      · exact held
  | condWait u =>
    dsimp only [PthreadCond.step] at outside
    split at outside
    · by_cases same : t = u
      · simp [PthreadCond.setPoint, same] at outside
      · exact absurd (by simpa [PthreadCond.setPoint, same] using outside) inside
    · exact absurd outside inside
  | signalWait u =>
    dsimp only [PthreadCond.step] at outside
    split at outside
    · by_cases same : t = u
      · simp [PthreadCond.setPoint, same] at outside
      · exact absurd (by simpa [PthreadCond.setPoint, same] using outside) inside
    · exact absurd outside inside
  | condSignal u =>
    dsimp only [PthreadCond.step] at outside
    split at outside
    · by_cases waits : t ∈ s.condwaitList
      · simp [PthreadCond.signal, waits] at outside
      · exact absurd (by simpa [PthreadCond.signal, waits] using outside) inside
    · exact absurd outside inside

theorem Listed.step (listed : Listed s) (op : PthreadOp τ) : Listed (s.step op) := by
  intro t
  cases op with
  | mutex op =>
    rw [mutex_condwaitList, ← listed t]
    obtain kept | ⟨unlocking, unlocked⟩ | ⟨locking, outside, -⟩ := mutex_point s op t
    · rw [kept]
    · simp [unlocking, unlocked]
    · simp [locking, outside]
  | condWait u =>
    dsimp only [PthreadCond.step]
    split
    case isTrue idle =>
      by_cases same : t = u
      · have outside : s.point u = .outside := by
          simp only [PthreadCond.idle, decide_eq_true_eq] at idle
          exact idle.1
        have absent : u ∉ s.condwaitList := by simp [← listed u, outside]
        simp [PthreadCond.setPoint, same, absent]
      · simp [PthreadCond.setPoint, same, listed t]
    case isFalse => exact listed t
  | signalWait u =>
    dsimp only [PthreadCond.step]
    split
    · by_cases same : t = u
      · simp [PthreadCond.setPoint, same]
      · simp [PthreadCond.setPoint, same, listed t]
    · exact listed t
  | condSignal u =>
    dsimp only [PthreadCond.step]
    split
    · by_cases waits : t ∈ s.condwaitList
      · simp [PthreadCond.signal, waits]
      · simp [PthreadCond.signal, waits, listed t]
    · exact listed t

variable {x : Watched τ}

/-- A signal takes each thread off the list. -/
theorem signal_point (listed : Listed s) (t : τ) :
    (s.signal.point t = .locking ∨ s.signal.point t = .outside) ↔ ¬Between s t := by
  have waits := listed t
  unfold PthreadCond.signal Between
  dsimp only
  by_cases member : t ∈ s.condwaitList
  · simp [member, waits.mpr member]
  · rw [if_neg member]
    cases point : s.point t with
    | waiting => exact absurd (waits.mp point) member
    | _ => simp

/-- The condition says exactly which steps leave no waiter behind. -/
theorem settled_iff (woken : Woken x) (listed : Listed x.state) (op : PthreadOp τ) :
    Settled x op ↔ Woken (watch x op) := by
  cases op with
  | mutex op =>
    apply iff_of_true trivial
    intro t held signalled
    have before := woken t held signalled
    change (x.state.step (.mutex op)).point t = _ ∨ (x.state.step (.mutex op)).point t = _
    obtain kept | ⟨unlocking, -⟩ | ⟨-, outside, -⟩ := mutex_point x.state op t
    · rw [kept]
      exact before
    · simp [unlocking] at before
    · exact .inr outside
  | condWait u =>
    apply iff_of_true trivial
    dsimp only [watch]
    split
    case isTrue idle =>
      intro t held signalled
      by_cases same : t = u
      · simp [same] at signalled
      · have before := woken t (by simpa [same] using held) (by simpa [same] using signalled)
        simpa [PthreadCond.step, idle, PthreadCond.setPoint, same] using before
    case isFalse => exact woken
  | signalWait u =>
    apply iff_of_true trivial
    intro t held signalled
    have before := woken t held signalled
    dsimp only [watch, PthreadCond.step]
    split
    case isTrue unlocked =>
      have other : t ≠ u := fun same => by simp [same, unlocked] at before
      simpa [PthreadCond.setPoint, other] using before
    case isFalse => exact before
  | condSignal u =>
    dsimp only [watch, Settled, PthreadCond.step]
    cases idle : x.state.idle u with
    | false =>
      simp only [Bool.false_eq_true, Bool.false_and, if_false]
      exact iff_of_true (fun none_ => none_.elim) woken
    | true =>
      cases holds : x.state.mutex.holds u with
      | false =>
        simp only [Bool.true_and, if_true, if_false, Bool.false_eq_true]
        apply iff_of_true (fun _ none_ => none_.elim)
        intro t held signalled
        have before := woken t held signalled
        apply (signal_point listed t).mpr
        simp only [Between]
        cases before with
        | inl locking => simp [locking]
        | inr outside => simp [outside]
      | true =>
        simp only [Bool.and_self, if_true, forall_true_left, Woken]
        exact forall_congr' fun t => forall_congr' fun _ => (signal_point listed t).symm

omit [DecidableEq τ] in
theorem woken_create : Woken (Watched.create : Watched τ) := by
  intro t held
  cases held

omit [DecidableEq τ] in
theorem listed_create : Listed (PthreadCond.create : PthreadCond τ) := by
  intro t
  simp [PthreadCond.create]

omit [DecidableEq τ] in
theorem locks_create : Locks (PthreadCond.create : PthreadCond τ) := by
  intro t locking
  cases locking

theorem watch_state (x : Watched τ) (op : PthreadOp τ) :
    (watch x op).state = x.state.step op := by
  cases op with
  | mutex op => rfl
  | signalWait u => rfl
  | condWait u =>
    dsimp only [watch, PthreadCond.step]
    cases x.state.idle u <;> rfl
  | condSignal u =>
    dsimp only [watch]
    split <;> rfl

theorem throughout_iff (ops : List (PthreadOp τ)) :
    Throughout watch Woken Watched.create ops ↔ Admissible watch Settled Watched.create ops := by
  apply throughout_iff_admissible fun x : Watched τ => Woken x ∧ Listed x.state
  · exact fun x inv => inv.1
  · exact fun x op inv => settled_iff inv.1 inv.2 op
  · intro x op inv after
    rw [watch_state]
    exact ⟨after, inv.2.step op⟩
  · exact ⟨woken_create, listed_create⟩

/-- Along every run no waiter is left behind by a signal that a thread with the mutex sends,
exactly when every such signal finds all waiters on the list; and `pthread_cond_wait` returns
only with the mutex. -/
theorem woken_iff_settled (ops : List (PthreadOp τ)) :
    (Throughout watch Woken Watched.create ops ↔ Admissible watch Settled Watched.create ops) ∧
      ∀ (op : PthreadOp τ) (t : τ), Returns (exec PthreadCond.step .create ops) op t →
        Held ((exec PthreadCond.step .create ops).step op) t := by
  apply And.intro (throughout_iff ops)
  intro op t returns
  have locks : Locks (exec PthreadCond.step .create ops) :=
    exec_invariant Locks (fun s op locks _ => locks.step op) ops _ locks_create
      (admissible_of_forall _ _ ops fun _ _ => trivial)
  exact locks.held returns

/-- Between the release of the mutex and the wait, another thread takes the mutex and signals. -/
theorem waiter_left_behind :
    ¬Throughout watch Woken (Watched.create : Watched Bool)
      [.mutex (.acquire false true), .mutex (.testandset false true), .condWait false,
        .mutex (.signalSignal false), .mutex (.acquire true true),
        .mutex (.testandset true true), .condSignal true, .signalWait false] := by
  rw [throughout_iff]
  rintro ⟨-, -, -, -, -, -, settled, -⟩
  exact settled rfl rfl false rfl (.inr rfl)

end Steps

end Orcos.Guarantees.ConditionVariables
