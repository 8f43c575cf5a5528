import Mathlib.Algebra.Order.Ring.Int
import Mathlib.Logic.Function.Basic
import Mathlib.Logic.Relation

/-!
Threads that run programs over a shared state, with one outer lock, which its holder may
take again and any thread may release, and inner locks, which spin. Programs that hold at
most one inner lock at a time, and ask for the outer lock at most once while they do, wait
for each other in a cycle only as two threads of which one holds an inner lock and asks for
the outer one, and the other the other way round. Nothing here mentions the kernel.
-/
namespace Orcos.Lib.Locking
open Relation

inductive Lock (ι : Type)
  | outer
  | inner (i : ι)
  deriving DecidableEq

/-- What a thread does, one access to the shared state at a time; `ask` takes an answer from
elsewhere. -/
inductive Prog (σ ι α : Type)
  | ret (a : α)
  | access (f : σ → σ) (next : σ → Prog σ ι α)
  | ask (next : Int → Prog σ ι α)
  | acquire (l : Lock ι) (next : Prog σ ι α)
  | release (l : Lock ι) (next : Prog σ ι α)

namespace Prog

variable {σ ι α β : Type}

def bind : Prog σ ι α → (α → Prog σ ι β) → Prog σ ι β
  | ret a, g => g a
  | access f next, g => access f fun s => (next s).bind g
  | ask next, g => ask fun n => (next n).bind g
  | acquire l next, g => acquire l (next.bind g)
  | release l next, g => release l (next.bind g)

instance : Monad (Prog σ ι) where
  pure := ret
  bind := bind

def read (f : σ → α) : Prog σ ι α := access id fun s => ret (f s)

def update (f : σ → σ) : Prog σ ι Unit := access f fun _ => ret ()

def answer : Prog σ ι Int := ask ret

def lock (l : Lock ι) : Prog σ ι Unit := acquire l (ret ())

def unlock (l : Lock ι) : Prog σ ι Unit := release l (ret ())

/-- The program may ask for a lock before it releases the other one. -/
inductive Reaches (l k : Lock ι) : Prog σ ι α → Prop
  | here (next : Prog σ ι α) : Reaches l k (acquire l next)
  | access {f : σ → σ} {next : σ → Prog σ ι α} (s : σ) :
      Reaches l k (next s) → Reaches l k (access f next)
  | ask {next : Int → Prog σ ι α} (n : Int) : Reaches l k (next n) → Reaches l k (ask next)
  | acquire {l' : Lock ι} {next : Prog σ ι α} :
      Reaches l k next → Reaches l k (acquire l' next)
  | release {l' : Lock ι} {next : Prog σ ι α} :
      l' ≠ k → Reaches l k next → Reaches l k (release l' next)

end Prog

/-- What a thread has taken: no inner lock, one, or one after which it asked for the outer
lock. -/
inductive Held (ι : Type)
  | nothing
  | one (i : ι)
  | both (i : ι)

namespace Held

variable {ι : Type} [DecidableEq ι]

/-- The inner lock. -/
def lock : Held ι → Option ι
  | nothing => none
  | one i | both i => some i

def acquire : Lock ι → Held ι → Option (Held ι)
  | .outer, nothing => some nothing
  | .outer, one i => some (both i)
  | .outer, both _ => none
  | .inner i, nothing => some (one i)
  | .inner _, one _ | .inner _, both _ => none

def release : Lock ι → Held ι → Option (Held ι)
  | .outer, nothing => some nothing
  | .outer, one _ => none
  | .outer, both i => some (both i)
  | .inner _, nothing => none
  | .inner i, one j | .inner i, both j => if i = j then some nothing else none

variable {h h' : Held ι} {i : ι}

omit [DecidableEq ι] in
theorem acquire_outer (taken : h.acquire .outer = some h') : h'.lock = h.lock := by
  cases h with
  | nothing => rw [← Option.some.inj taken]
  | one i =>
    rw [← Option.some.inj taken]
    rfl
  | both i => cases taken

omit [DecidableEq ι] in
theorem acquire_inner (taken : h.acquire (.inner i) = some h') : h = nothing ∧ h' = one i := by
  cases h with
  | nothing => exact ⟨rfl, (Option.some.inj taken).symm⟩
  | one j => cases taken
  | both j => cases taken

theorem release_outer (given : h.release .outer = some h') : h'.lock = h.lock := by
  cases h with
  | nothing => rw [← Option.some.inj given]
  | one i => cases given
  | both i => rw [← Option.some.inj given]

theorem release_inner (given : h.release (.inner i) = some h') :
    h.lock = some i ∧ h' = nothing := by
  have same : ∀ j, (if i = j then some (nothing : Held ι) else none) = some h' →
      some j = some i ∧ h' = nothing := by
    intro j given
    split at given
    case isTrue equal => exact ⟨congrArg some equal.symm, (Option.some.inj given).symm⟩
    case isFalse => cases given
  cases h with
  | nothing => cases given
  | one j => exact same j given
  | both j => exact same j given

end Held

section Discipline

variable {σ ι α β : Type} [DecidableEq ι]

/-- Each lock is taken and released in order, whatever the program reads, and what is held in
the end meets `post`. -/
def Disciplined : Prog σ ι α → (α → Held ι → Prop) → Held ι → Prop
  | .ret a, post, h => post a h
  | .access _ next, post, h => ∀ s, Disciplined (next s) post h
  | .ask next, post, h => ∀ n, Disciplined (next n) post h
  | .acquire l next, post, h => ∃ h', h.acquire l = some h' ∧ Disciplined next post h'
  | .release l next, post, h => ∃ h', h.release l = some h' ∧ Disciplined next post h'

theorem Disciplined.bind {p : Prog σ ι α} {g : α → Prog σ ι β} {post : α → Held ι → Prop}
    {after : β → Held ι → Prop} {h : Held ι} (first : Disciplined p post h)
    (second : ∀ a h, post a h → Disciplined (g a) after h) :
    Disciplined (p >>= g) after h := by
  change Disciplined (p.bind g) after h
  induction p generalizing h with
  | ret a => exact second a h first
  | access f next ih => exact fun s => ih s (first s)
  | ask next ih => exact fun n => ih n (first n)
  | acquire l next ih =>
    obtain ⟨h', taken, rest⟩ := first
    exact ⟨h', taken, ih rest⟩
  | release l next ih =>
    obtain ⟨h', given, rest⟩ := first
    exact ⟨h', given, ih rest⟩

/-- No inner lock is held before and after. -/
class Balanced (p : Prog σ ι α) : Prop where
  disciplined : Disciplined p (fun _ h => h = .nothing) .nothing

theorem balanced_bind {p : Prog σ ι α} {g : α → Prog σ ι β} (first : Balanced p)
    (second : ∀ a, Balanced (g a)) : Balanced (p >>= g) := by
  refine ⟨first.disciplined.bind fun a h nothing => ?_⟩
  rw [nothing]
  exact (second a).disciplined

instance (p : Prog σ ι α) (g : α → Prog σ ι β) [first : Balanced p]
    [second : ∀ a, Balanced (g a)] : Balanced (p >>= g) := balanced_bind first second

instance (a : α) : Balanced (pure a : Prog σ ι α) := ⟨rfl⟩

instance (f : σ → α) : Balanced (Prog.read f : Prog σ ι α) := ⟨fun _ => rfl⟩

instance (f : σ → σ) : Balanced (Prog.update f : Prog σ ι Unit) := ⟨fun _ => rfl⟩

instance : Balanced (Prog.answer : Prog σ ι Int) := ⟨fun _ => rfl⟩

instance : Balanced (Prog.lock .outer : Prog σ ι Unit) := ⟨.nothing, rfl, rfl⟩

instance : Balanced (Prog.unlock .outer : Prog σ ι Unit) := ⟨.nothing, rfl, rfl⟩

instance (c : Prop) [Decidable c] (p q : Prog σ ι α) [yes : Balanced p] [no : Balanced q] :
    Balanced (if c then p else q) := by
  split
  · exact yes
  · exact no

/-- A program for each of the list. -/
theorem balanced_forM {γ : Type} (f : γ → Prog σ ι PUnit) (each : ∀ x, Balanced (f x))
    (list : List γ) : Balanced (list.forM f) := by
  induction list with
  | nil => exact inferInstanceAs (Balanced (pure PUnit.unit))
  | cons x list ih => exact balanced_bind (each x) fun _ => ih

theorem disciplined_read {f : σ → α} {g : α → Prog σ ι β} {post : β → Held ι → Prop}
    {h : Held ι} (rest : ∀ a, Disciplined (g a) post h) :
    Disciplined (Prog.read f >>= g) post h := fun s => rest (f s)

theorem disciplined_update {f : σ → σ} {g : Unit → Prog σ ι β} {post : β → Held ι → Prop}
    {h : Held ι} (rest : Disciplined (g ()) post h) :
    Disciplined (Prog.update f >>= g) post h := fun _ => rest

/-- An inner lock is taken. -/
theorem disciplined_lock {i : ι} {g : Unit → Prog σ ι β} {post : β → Held ι → Prop}
    (rest : Disciplined (g ()) post (.one i)) :
    Disciplined (Prog.lock (.inner i) >>= g) post .nothing := ⟨.one i, rfl, rest⟩

/-- An inner lock is released. -/
theorem disciplined_unlock {i : ι} {h : Held ι} {g : Unit → Prog σ ι β}
    {post : β → Held ι → Prop} (held : h.lock = some i)
    (rest : Disciplined (g ()) post .nothing) :
    Disciplined (Prog.unlock (.inner i) >>= g) post h := by
  refine ⟨.nothing, ?_, rest⟩
  cases h with
  | nothing => cases held
  | one j =>
    obtain rfl := Option.some.inj held
    exact if_pos rfl
  | both j =>
    obtain rfl := Option.some.inj held
    exact if_pos rfl

end Discipline

/-- Threads `τ` with what is left of their programs, and who has which lock. -/
structure Machine (τ σ ι : Type) where
  shared : σ
  holder : Lock ι → Option τ
  program : τ → Prog σ ι Unit

/-- A thread begins a program of a kind, or goes on with the one it is in. -/
inductive Op (τ γ : Type)
  | begin (t : τ) (call : γ)
  | run (t : τ) (answer : Int)

def Op.thread {τ γ : Type} : Op τ γ → τ
  | begin t _ | run t _ => t

namespace Machine

variable {τ σ ι γ : Type} [DecidableEq τ] [DecidableEq ι]

/-- A thread does the first thing of its program, when it can. -/
def run (m : Machine τ σ ι) (t : τ) (answer : Int) : Machine τ σ ι :=
  match m.program t with
  | .ret _ => m
  | .access f next => { m with
      shared := f m.shared
      program := Function.update m.program t (next m.shared) }
  | .ask next => { m with program := Function.update m.program t (next answer) }
  | .acquire l next =>
    match m.holder l with
    | none => { m with
        holder := Function.update m.holder l (some t)
        program := Function.update m.program t next }
    | some u =>
      if l = .outer ∧ u = t then { m with program := Function.update m.program t next } else m
  | .release l next => { m with
      holder := Function.update m.holder l none
      program := Function.update m.program t next }

def step (programs : τ → γ → Prog σ ι Unit) (m : Machine τ σ ι) : Op τ γ → Machine τ σ ι
  | .begin t call =>
    match m.program t with
    | .ret _ => { m with program := Function.update m.program t (programs t call) }
    | _ => m
  | .run t answer => m.run t answer

/-- Nobody has a lock or runs a program. -/
def start (shared : σ) : Machine τ σ ι := ⟨shared, fun _ => none, fun _ => .ret ()⟩

/-- The next thing a thread does is to take a lock. -/
def Asks (m : Machine τ σ ι) (t : τ) (l : Lock ι) : Prop := ∃ next, m.program t = .acquire l next

/-- A thread asks for a lock that another one has, or for an inner one that it has itself. -/
def WaitsFor (m : Machine τ σ ι) (t u : τ) : Prop :=
  ∃ l, m.Asks t l ∧ m.holder l = some u ∧ (l = .outer → u ≠ t)

/-- No thread waits, through others, for itself. -/
def Acyclic (m : Machine τ σ ι) : Prop := ∀ t, ¬TransGen m.WaitsFor t t

/-- A thread has an inner lock and asks for the outer one. -/
def Inverts (m : Machine τ σ ι) (t : τ) (i : ι) : Prop :=
  m.holder (.inner i) = some t ∧ m.Asks t .outer

/-- A thread has the outer lock and asks for an inner one. -/
def Nests (m : Machine τ σ ι) (t : τ) (i : ι) : Prop :=
  m.holder .outer = some t ∧ m.Asks t (.inner i)

/-- The inner lock of a thread is the one that its program has taken, and the rest of the
program takes and releases locks in order. -/
def Sound (m : Machine τ σ ι) : Prop :=
  ∀ t, ∃ h, Disciplined (m.program t) (fun _ h => h = .nothing) h ∧
    ∀ i, m.holder (.inner i) = some t ↔ h.lock = some i

section Cycles

variable {m : Machine τ σ ι} {t u : τ} {i : ι}

omit [DecidableEq τ] in
/-- A thread that has an inner lock asks for no other inner one. -/
theorem Sound.asks_outer (sound : m.Sound) (has : m.holder (.inner i) = some t) {l : Lock ι}
    (asks : m.Asks t l) : l = .outer := by
  obtain ⟨h, ordered, holds⟩ := sound t
  obtain ⟨next, program⟩ := asks
  rw [program] at ordered
  obtain ⟨h', taken, _⟩ := ordered
  have locked := (holds i).mp has
  cases l with
  | outer => rfl
  | inner j =>
    rw [(Held.acquire_inner taken).1] at locked
    cases locked

omit [DecidableEq τ] [DecidableEq ι] in
/-- A thread that waits in a cycle waits for one that does. -/
theorem waits_of_cycle (cycle : TransGen m.WaitsFor t t) :
    ∃ u, m.WaitsFor t u ∧ TransGen m.WaitsFor u u := by
  obtain ⟨u, waits, rest⟩ := TransGen.head'_iff.mp cycle
  exact ⟨u, waits, TransGen.tail' rest waits⟩

omit [DecidableEq τ] in
/-- A cycle consists of a thread that has an inner lock and asks for the outer one, and of one
that has the outer one and asks for that inner one. -/
theorem Sound.acyclic_iff (sound : m.Sound) :
    m.Acyclic ↔ ∀ t u i, m.Inverts t i → ¬m.Nests u i := by
  constructor
  · intro acyclic t u i inverts nests
    have other : u ≠ t := by
      rintro rfl
      have same := sound.asks_outer inverts.1 nests.2
      cases same
    have first : m.WaitsFor t u := ⟨.outer, inverts.2, nests.1, fun _ => other⟩
    have second : m.WaitsFor u t := ⟨.inner i, nests.2, inverts.1, fun same => by cases same⟩
    exact acyclic t (TransGen.tail (TransGen.single first) second)
  · intro apart t cycle
    -- whoever holds the outer lock in a cycle waits for an inner one
    have outer : ∀ v, m.holder .outer = some v → ¬TransGen m.WaitsFor v v := by
      intro v has cycle
      obtain ⟨w, ⟨l, asks, holder, differs⟩, rest⟩ := waits_of_cycle cycle
      cases l with
      | outer =>
        rw [has] at holder
        exact differs rfl (Option.some.inj holder).symm
      | inner j =>
        obtain ⟨_, ⟨l, asks', _⟩, _⟩ := waits_of_cycle rest
        have same := sound.asks_outer holder asks'
        rw [same] at asks'
        exact apart w v j ⟨holder, asks'⟩ ⟨has, asks⟩
    obtain ⟨u, ⟨l, _, holder, _⟩, rest⟩ := waits_of_cycle cycle
    cases l with
    | outer => exact outer u holder rest
    | inner i =>
      obtain ⟨v, ⟨l, asks, holder', _⟩, rest⟩ := waits_of_cycle rest
      rw [sound.asks_outer holder asks] at holder'
      exact outer v holder' rest

end Cycles

section Runs

variable {m : Machine τ σ ι} {programs : τ → γ → Prog σ ι Unit}

/-- A thread has a lock and may ask for another one before it releases it. -/
def Heads (m : Machine τ σ ι) (t : τ) (l k : Lock ι) : Prop :=
  m.holder l = some t ∧ (m.program t).Reaches k l

/-- What a thread with a lock may ask for before it releases it, nobody else has who may ask for
that lock before. -/
def Apart (m : Machine τ σ ι) (t : τ) (l : Lock ι) (p : Prog σ ι Unit) : Prop :=
  ∀ k, p.Reaches k l → ∀ u, u ≠ t → ¬m.Heads u k l

/-- No two threads are each on the way to a lock that the other one has. -/
def Uncrossed (m : Machine τ σ ι) : Prop := ∀ t l, m.holder l = some t → m.Apart t l (m.program t)

/-- The condition of a step: a thread takes a free lock, or begins a call with a lock, only where
it is on the way to no lock of a thread that is on the way to that one. -/
def Fits (programs : τ → γ → Prog σ ι Unit) (m : Machine τ σ ι) : Op τ γ → Prop
  | .begin t call =>
    m.program t = .ret () → ∀ l, m.holder l = some t → m.Apart t l (programs t call)
  | .run t _ => ∀ l next, m.program t = .acquire l next → m.holder l = none → m.Apart t l next

/-- What a step of a thread does to the locks: nothing, or it takes a free one, or it
releases one and has this left of its program. -/
def Moves (m : Machine τ σ ι) (t : τ) (holder : Lock ι → Option τ) (next : Prog σ ι Unit) :
    Prop :=
  holder = m.holder ∨
    (∃ l, m.holder l = none ∧ holder = Function.update m.holder l (some t)) ∨
    ∃ l, m.program t = .release l next ∧ holder = Function.update m.holder l none

/-- A step changes the program of its thread only. -/
theorem step_effect (programs : τ → γ → Prog σ ι Unit) (m : Machine τ σ ι)
    (op : Op τ γ) :
    ∃ shared holder p, m.step programs op =
      ⟨shared, holder, Function.update m.program op.thread p⟩ ∧ m.Moves op.thread holder p := by
  have idle : ∀ t, ∃ shared holder p, m =
      (⟨shared, holder, Function.update m.program t p⟩ : Machine τ σ ι) ∧ m.Moves t holder p :=
    fun t => ⟨m.shared, m.holder, m.program t, by rw [Function.update_eq_self], .inl rfl⟩
  cases op with
  | begin t call =>
    unfold step
    dsimp only
    split
    · exact ⟨_, _, _, rfl, .inl rfl⟩
    · exact idle t
  | run t answer =>
    unfold step run
    dsimp only
    cases program : m.program t with
    | ret _ => exact idle t
    | access f next => exact ⟨_, _, _, rfl, .inl rfl⟩
    | ask next => exact ⟨_, _, _, rfl, .inl rfl⟩
    | acquire l next =>
      dsimp only
      cases holder : m.holder l with
      | none => exact ⟨_, _, _, rfl, .inr (.inl ⟨l, holder, rfl⟩)⟩
      | some u =>
        dsimp only
        split
        · exact ⟨_, _, _, rfl, .inl rfl⟩
        · exact idle t
    | release l next => exact ⟨_, _, _, rfl, .inr (.inr ⟨l, program, rfl⟩)⟩

omit [DecidableEq τ] in
/-- A program that releases an inner lock has it. -/
theorem Sound.has_released (sound : m.Sound) {t : τ} {i : ι} {next : Prog σ ι Unit}
    (program : m.program t = .release (.inner i) next) : m.holder (.inner i) = some t := by
  obtain ⟨h, ordered, holds⟩ := sound t
  rw [program] at ordered
  obtain ⟨h', given, _⟩ := ordered
  exact (holds i).mpr (Held.release_inner given).1

omit [DecidableEq τ] in
/-- Other threads keep their inner locks. -/
theorem Sound.moves_other (sound : m.Sound) {t u : τ} (other : u ≠ t) {holder : Lock ι → Option τ}
    {next : Prog σ ι Unit} (moves : m.Moves t holder next) (i : ι) :
    holder (.inner i) = some u ↔ m.holder (.inner i) = some u := by
  rcases moves with rfl | ⟨l, free, rfl⟩ | ⟨l, program, rfl⟩
  · exact Iff.rfl
  · rw [Function.update_apply]
    split
    case isTrue same =>
      rw [same, free]
      exact iff_of_false (fun equal => other (Option.some.inj equal).symm) fun none => by cases none
    case isFalse => exact Iff.rfl
  · rw [Function.update_apply]
    split
    case isTrue same =>
      have mine := sound.has_released (same ▸ program)
      rw [mine]
      exact iff_of_false (fun none => by cases none) fun equal =>
        other (Option.some.inj equal).symm
    case isFalse => exact Iff.rfl

/-- Programs of all kinds take and release locks in order, and so does what is left of them. -/
theorem Sound.step (sound : m.Sound) (balanced : ∀ t call, Balanced (programs t call))
    (op : Op τ γ) : (m.step programs op).Sound := by
  intro u
  by_cases other : u = op.thread
  case neg =>
    obtain ⟨shared, holder, p, stepped, moves⟩ := step_effect programs m op
    obtain ⟨h, ordered, holds⟩ := sound u
    rw [stepped]
    refine ⟨h, ?_, fun i => ?_⟩
    · dsimp only
      rw [Function.update_of_ne other]
      exact ordered
    · exact (sound.moves_other other moves i).trans (holds i)
  case pos =>
    subst other
    obtain ⟨h, ordered, holds⟩ := sound op.thread
    cases op with
    | begin t call =>
      unfold Machine.step
      dsimp only [Op.thread] at ordered holds ⊢
      split
      case h_1 program =>
        rw [program] at ordered
        refine ⟨.nothing, ?_, fun i => ?_⟩
        · dsimp only
          rw [Function.update_self]
          exact (balanced t call).disciplined
        · rw [holds i, show h = .nothing from ordered]
      case h_2 => exact ⟨h, ordered, holds⟩
    | run t answer =>
      unfold Machine.step Machine.run
      dsimp only [Op.thread] at ordered holds ⊢
      cases program : m.program t with
      | ret _ =>
        rw [program] at ordered
        refine ⟨h, ?_, holds⟩
        dsimp only
        rw [program]
        exact ordered
      | access f next =>
        rw [program] at ordered
        refine ⟨h, ?_, holds⟩
        dsimp only
        rw [Function.update_self]
        exact ordered m.shared
      | ask next =>
        rw [program] at ordered
        refine ⟨h, ?_, holds⟩
        dsimp only
        rw [Function.update_self]
        exact ordered answer
      | acquire l next =>
        rw [program] at ordered
        obtain ⟨h', taken, rest⟩ := ordered
        dsimp only
        cases holder : m.holder l with
        | none =>
          refine ⟨h', ?_, fun i => ?_⟩
          · dsimp only
            rw [Function.update_self]
            exact rest
          · dsimp only
            rw [Function.update_apply]
            cases l with
            | outer =>
              rw [if_neg (fun same => by cases same), Held.acquire_outer taken]
              exact holds i
            | inner j =>
              obtain ⟨rfl, rfl⟩ := Held.acquire_inner taken
              by_cases same : i = j
              · rw [same, if_pos rfl]
                exact iff_of_true rfl rfl
              · rw [if_neg (fun equal => same (by injection equal)), holds i]
                refine iff_of_false (fun none => by cases none) fun equal => same ?_
                exact (Option.some.inj equal).symm
        | some u =>
          dsimp only
          split
          case isTrue again =>
            rw [again.1] at taken
            refine ⟨h', ?_, fun i => ?_⟩
            · dsimp only
              rw [Function.update_self]
              exact rest
            · rw [Held.acquire_outer taken]
              exact holds i
          case isFalse =>
            refine ⟨h, ?_, holds⟩
            rw [program]
            exact ⟨h', taken, rest⟩
      | release l next =>
        rw [program] at ordered
        obtain ⟨h', given, rest⟩ := ordered
        refine ⟨h', ?_, fun i => ?_⟩
        · dsimp only
          rw [Function.update_self]
          exact rest
        · dsimp only
          rw [Function.update_apply]
          cases l with
          | outer =>
            rw [if_neg (fun same => by cases same), Held.release_outer given]
            exact holds i
          | inner j =>
            obtain ⟨locked, rfl⟩ := Held.release_inner given
            by_cases same : i = j
            · rw [same, if_pos rfl]
              exact iff_of_false (fun none => by cases none) fun none => by cases none
            · rw [if_neg (fun equal => same (by injection equal)), holds i, locked]
              refine iff_of_false (fun equal => same ?_) fun none => by cases none
              exact (Option.some.inj equal).symm

variable {t u : τ} {l k : Lock ι}

/-- What a thread is on the way to with a lock it was on the way to before, but for what it has
just taken or begun. -/
theorem heads_step {op : Op τ γ} (heads : (m.step programs op).Heads t l k) :
    m.Heads t l k ∨ t = op.thread ∧ (Fits programs m op → ∀ u, u ≠ t → ¬m.Heads u k l) := by
  obtain ⟨holds, reaches⟩ := heads
  by_cases other : t = op.thread
  case neg =>
    obtain ⟨shared, holder, p, stepped, moves⟩ := step_effect programs m op
    rw [stepped] at holds reaches
    dsimp only at holds reaches
    rw [Function.update_of_ne other] at reaches
    refine .inl ⟨?_, reaches⟩
    rcases moves with rfl | ⟨l', _, rfl⟩ | ⟨l', _, rfl⟩
    · exact holds
    · rw [Function.update_apply] at holds
      split at holds
      · exact absurd (Option.some.inj holds).symm other
      · exact holds
    · rw [Function.update_apply] at holds
      split at holds
      · cases holds
      · exact holds
  case pos =>
    subst other
    cases op with
    | begin t call =>
      dsimp only [Op.thread] at holds reaches ⊢
      by_cases finished : m.program t = .ret ()
      case pos =>
        unfold Machine.step at holds reaches
        dsimp only at holds reaches
        rw [finished] at holds reaches
        dsimp only at holds reaches
        rw [Function.update_self] at reaches
        exact .inr ⟨rfl, fun fits => fits finished l holds k reaches⟩
      case neg =>
        have busy : m.step programs (.begin t call) = m := by
          unfold Machine.step
          dsimp only
          split
          case h_1 program => exact absurd program finished
          case h_2 => rfl
        rw [busy] at holds reaches
        exact .inl ⟨holds, reaches⟩
    | run t answer =>
      unfold Machine.step Machine.run at holds reaches
      dsimp only [Op.thread] at holds reaches ⊢
      rw [Heads]
      cases program : m.program t with
      | ret _ =>
        rw [program] at holds reaches
        dsimp only at holds reaches
        rw [program] at reaches
        exact .inl ⟨holds, reaches⟩
      | access f next =>
        rw [program] at holds reaches
        dsimp only at holds reaches
        rw [Function.update_self] at reaches
        exact .inl ⟨holds, .access m.shared reaches⟩
      | ask next =>
        rw [program] at holds reaches
        dsimp only at holds reaches
        rw [Function.update_self] at reaches
        exact .inl ⟨holds, .ask answer reaches⟩
      | acquire l' next =>
        rw [program] at holds reaches
        dsimp only at holds reaches
        cases holder : m.holder l' with
        | none =>
          rw [holder] at holds reaches
          dsimp only at holds reaches
          rw [Function.update_self] at reaches
          by_cases taken : l = l'
          case pos =>
            subst taken
            exact .inr ⟨rfl, fun fits => fits l next program holder k reaches⟩
          case neg =>
            rw [Function.update_of_ne taken] at holds
            exact .inl ⟨holds, .acquire reaches⟩
        | some u =>
          rw [holder] at holds reaches
          dsimp only at holds reaches
          split at holds
          case isTrue again =>
            rw [if_pos again] at reaches
            dsimp only at holds reaches
            rw [Function.update_self] at reaches
            exact .inl ⟨holds, .acquire reaches⟩
          case isFalse waits =>
            rw [if_neg waits, program] at reaches
            exact .inl ⟨holds, reaches⟩
      | release l' next =>
        rw [program] at holds reaches
        dsimp only at holds reaches
        rw [Function.update_self] at reaches
        by_cases given : l = l'
        case pos =>
          rw [given, Function.update_self] at holds
          cases holds
        case neg =>
          rw [Function.update_of_ne given] at holds
          exact .inl ⟨holds, .release (fun same => given same.symm) reaches⟩

theorem Uncrossed.step (uncrossed : m.Uncrossed) {op : Op τ γ} (fits : Fits programs m op) :
    (m.step programs op).Uncrossed := by
  intro t l holds k reaches u other heads
  have now : (m.step programs op).Heads t l k := ⟨holds, reaches⟩
  rcases heads_step now with before | ⟨mine, refuses⟩
  · rcases heads_step heads with crossing | ⟨_, refuses⟩
    · exact uncrossed t l before.1 k before.2 u other crossing
    · exact refuses fits t other.symm before
  · rcases heads_step heads with crossing | ⟨same, _⟩
    · exact refuses fits u other crossing
    · exact other (same.trans mine.symm)

omit [DecidableEq τ] in
/-- Two threads that wait for each other are each on the way to what the other one has. -/
theorem Sound.acyclic_of_uncrossed (sound : m.Sound) (uncrossed : m.Uncrossed) : m.Acyclic := by
  rw [sound.acyclic_iff]
  rintro t u i ⟨has, next, asks⟩ ⟨has', next', asks'⟩
  have other : u ≠ t := by
    rintro rfl
    have same := sound.asks_outer has ⟨next', asks'⟩
    cases same
  refine uncrossed t (.inner i) has .outer ?_ u other ⟨has', ?_⟩
  · rw [asks]
    exact .here next
  · rw [asks']
    exact .here next'

omit [DecidableEq τ] [DecidableEq ι] in
theorem uncrossed_start (shared : σ) : (start shared : Machine τ σ ι).Uncrossed :=
  fun _ _ holds => by cases holds

omit [DecidableEq τ] [DecidableEq ι] in
/-- Nobody else has a lock. -/
theorem apart_of_alone {p : Prog σ ι Unit} (alone : ∀ k u, m.holder k = some u → u = t) :
    m.Apart t l p :=
  fun k _ u other heads => other (alone k u heads.1)

omit [DecidableEq τ] in
theorem sound_start (shared : σ) : (start shared : Machine τ σ ι).Sound :=
  fun _ => ⟨.nothing, rfl, fun _ => iff_of_false (fun none => by cases none) fun none => by
    cases none⟩

end Runs

end Machine

end Orcos.Lib.Locking
