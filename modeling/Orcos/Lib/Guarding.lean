import Mathlib.Algebra.Order.Ring.Int
import Mathlib.Logic.Function.Basic
import Orcos.Lib.Runs

/-!
Threads that run programs over a shared state with one lock, which its holder may take again
and whose release does not look at who holds it. A program is guarded when it makes each
access and each release with the lock; while all programs are, and give the lock back, only
the holder comes to an access, and no thread ends as the holder. Nothing here mentions the
kernel.
-/
namespace Orcos.Lib.Guarding

/-- What a thread does, one access to the shared state at a time. A program that is `pending`
is followed no further: it has not ended. -/
inductive Prog (σ α : Type)
  | ret (a : α)
  | pending
  | access (f : σ → σ) (next : σ → Prog σ α)
  | acquire (next : Prog σ α)
  | release (next : Prog σ α)

namespace Prog

variable {σ α β : Type}

def bind : Prog σ α → (α → Prog σ β) → Prog σ β
  | ret a, g => g a
  | pending, _ => pending
  | access f next, g => access f fun s => (next s).bind g
  | acquire next, g => acquire (next.bind g)
  | release next, g => release (next.bind g)

instance : Monad (Prog σ) where
  pure := ret
  bind := bind

/-- One access: what it answers, and the state behind it. -/
def act (f : σ → α × σ) : Prog σ α := access (fun s => (f s).2) fun s => ret (f s).1

def lock : Prog σ Unit := acquire (ret ())

def unlock : Prog σ Unit := release (ret ())

end Prog

section Discipline

variable {σ α β : Type}

/-- Each access and each release is made with the lock, and what the program answers, and
whether it has the lock then, meets `post`. -/
def Guarded : Prog σ α → (α → Bool → Prop) → Bool → Prop
  | .ret a, post, held => post a held
  | .pending, _, _ => True
  | .access _ next, post, held => held = true ∧ ∀ s, Guarded (next s) post held
  | .acquire next, post, _ => Guarded next post true
  | .release next, post, held => held = true ∧ Guarded next post false

theorem Guarded.bind {p : Prog σ α} {g : α → Prog σ β} {post : α → Bool → Prop}
    {after : β → Bool → Prop} {held : Bool} (first : Guarded p post held)
    (second : ∀ a held, post a held → Guarded (g a) after held) :
    Guarded (p >>= g) after held := by
  change Guarded (p.bind g) after held
  induction p generalizing held with
  | ret a => exact second a held first
  | pending => trivial
  | access f next ih => exact ⟨first.1, fun s => ih s (first.2 s)⟩
  | acquire next ih => exact ih first
  | release next ih => exact ⟨first.1, ih first.2⟩

theorem Guarded.mono {p : Prog σ α} {post after : α → Bool → Prop} {held : Bool}
    (guarded : Guarded p post held) (weaker : ∀ a held, post a held → after a held) :
    Guarded p after held := by
  induction p generalizing held with
  | ret a => exact weaker a held guarded
  | pending => trivial
  | access f next ih => exact ⟨guarded.1, fun s => ih s (guarded.2 s)⟩
  | acquire next ih => exact ih guarded
  | release next ih => exact ⟨guarded.1, ih guarded.2⟩

variable {g : α → Prog σ β} {post : β → Bool → Prop}

theorem guarded_act {f : σ → α × σ} (rest : ∀ a, Guarded (g a) post true) :
    Guarded (Prog.act f >>= g) post true := ⟨rfl, fun s => rest (f s).1⟩

theorem guarded_lock {g : Unit → Prog σ β} {held : Bool} (rest : Guarded (g ()) post true) :
    Guarded (Prog.lock >>= g) post held := rest

theorem guarded_unlock {g : Unit → Prog σ β} (rest : Guarded (g ()) post false) :
    Guarded (Prog.unlock >>= g) post true := ⟨rfl, rest⟩

/-- The lock is given back. -/
def Released (_ : α) (held : Bool) : Prop := held = false

end Discipline

/-- Threads with what is left of their programs, and who has the lock. -/
structure Machine (τ σ : Type) where
  shared : σ
  holder : Option τ
  program : τ → Prog σ Unit

/-- A thread begins a call, or goes on with the one it is in. -/
inductive Op (τ γ : Type)
  | begin (t : τ) (call : γ)
  | run (t : τ)

/-- The call that an operation begins is one of these. -/
def Op.From {τ γ : Type} (calls : γ → Prop) : Op τ γ → Prop
  | begin _ call => calls call
  | run _ => True

namespace Machine

variable {τ σ γ : Type} [DecidableEq τ]

/-- A thread does the first thing of its program, when it can. -/
def run (m : Machine τ σ) (t : τ) : Machine τ σ :=
  match m.program t with
  | .ret _ => m
  | .pending => m
  | .access f next => { m with
      shared := f m.shared
      program := Function.update m.program t (next m.shared) }
  | .acquire next =>
    match m.holder with
    | none => { m with
        holder := some t
        program := Function.update m.program t next }
    | some u => if u = t then { m with program := Function.update m.program t next } else m
  | .release next => { m with
      holder := none
      program := Function.update m.program t next }

def step (programs : γ → Prog σ Unit) (m : Machine τ σ) : Op τ γ → Machine τ σ
  | .begin t call =>
    match m.program t with
    | .ret _ => { m with program := Function.update m.program t (programs call) }
    | _ => m
  | .run t => m.run t

/-- Nobody has the lock or runs a program. -/
def start (shared : σ) : Machine τ σ := ⟨shared, none, fun _ => .ret ()⟩

/-- A thread that comes to an access has the lock, and one that has ended has not. -/
structure Kept (m : Machine τ σ) : Prop where
  accesses : ∀ t f next, m.program t = .access f next → m.holder = some t
  released : ∀ t, m.program t = .ret () → m.holder ≠ some t

/-- What is left of each program is guarded and gives the lock back. -/
def Sound (m : Machine τ σ) : Prop :=
  ∀ t, ∃ held, Guarded (m.program t) Released held ∧ (m.holder = some t ↔ held = true)

omit [DecidableEq τ] in
theorem Sound.kept {m : Machine τ σ} (sound : m.Sound) : m.Kept := by
  constructor
  · intro t f next program
    obtain ⟨held, guarded, has⟩ := sound t
    rw [program] at guarded
    exact has.mpr guarded.1
  · intro t program has
    obtain ⟨held, guarded, holds⟩ := sound t
    rw [program] at guarded
    have released : held = false := guarded
    rw [holds.mp has] at released
    cases released

omit [DecidableEq τ] in
theorem sound_start (shared : σ) : (start shared : Machine τ σ).Sound := by
  intro t
  refine ⟨false, rfl, ?_⟩
  simp [start]

/-- A thread goes on, and the others are as they were. -/
theorem Sound.update {m : Machine τ σ} (sound : m.Sound) {t : τ} {shared : σ} {holder : Option τ}
    {p : Prog σ Unit} {held : Bool} (guarded : Guarded p Released held)
    (has : holder = some t ↔ held = true)
    (others : ∀ u, u ≠ t → (holder = some u ↔ m.holder = some u)) :
    (⟨shared, holder, Function.update m.program t p⟩ : Machine τ σ).Sound := by
  intro u
  by_cases same : u = t
  · subst same
    dsimp only
    rw [Function.update_self]
    exact ⟨held, guarded, has⟩
  · obtain ⟨held, guarded, has⟩ := sound u
    dsimp only
    rw [Function.update_of_ne same]
    exact ⟨held, guarded, (others u same).trans has⟩

theorem Sound.run {m : Machine τ σ} (sound : m.Sound) (t : τ) : (m.run t).Sound := by
  obtain ⟨held, guarded, has⟩ := sound t
  unfold Machine.run
  cases program : m.program t with
  | ret _ => exact sound
  | pending => exact sound
  | access f next =>
    rw [program] at guarded
    exact sound.update (guarded.2 m.shared) has fun u other => Iff.rfl
  | acquire next =>
    rw [program] at guarded
    have taken : Guarded next Released true := guarded
    dsimp only
    cases holder : m.holder with
    | none =>
      apply sound.update taken (iff_of_true rfl rfl)
      intro u other
      rw [holder]
      exact iff_of_false (fun same => other (Option.some.inj same).symm)
        (Option.some_ne_none u).symm
    | some u =>
      dsimp only
      split
      · next same =>
        rw [← holder]
        exact sound.update taken (iff_of_true (by rw [holder, same]) rfl) fun u other => Iff.rfl
      · exact sound
  | release next =>
    rw [program] at guarded
    have mine := has.mpr guarded.1
    have free : none = some t ↔ false = true := iff_of_false (Option.some_ne_none t).symm
      Bool.false_ne_true
    apply sound.update guarded.2 free
    intro u other
    rw [mine]
    exact iff_of_false (Option.some_ne_none u).symm fun same => other (Option.some.inj same).symm

theorem Sound.step {m : Machine τ σ} {programs : γ → Prog σ Unit} (sound : m.Sound) {op : Op τ γ}
    (calls : op.From fun call => Guarded (programs call) Released false) :
    (m.step programs op).Sound := by
  cases op with
  | run t => exact sound.run t
  | begin t call =>
    unfold Machine.step
    dsimp only
    split
    · next answer program =>
      have free : m.holder = some t ↔ false = true := by
        obtain ⟨held, guarded, has⟩ := sound t
        rw [program] at guarded
        have released : held = false := guarded
        rw [has, released]
      exact sound.update calls free fun u other => Iff.rfl
    · exact sound

/-- While all calls are guarded, the threads keep to the lock in every run. -/
theorem kept_of_guarded {programs : γ → Prog σ Unit} (ops : List (Op τ γ))
    (calls : ∀ op ∈ ops, op.From fun call => Guarded (programs call) Released false) (shared : σ) :
    (Runs.exec (Machine.step programs) (start shared) ops).Kept := by
  apply Sound.kept
  apply Runs.exec_invariant Sound (fun m op sound calls => sound.step calls) ops _
    (sound_start shared)
  exact Runs.admissible_of_forall _ _ ops calls

end Machine

end Orcos.Lib.Guarding
