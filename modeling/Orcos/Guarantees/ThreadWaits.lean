import Orcos.Source.DispatcherSteps
import Orcos.Source.Tasks.Loading
import Orcos.Source.Tasks.Waiting
import Orcos.Source.ThreadSignals

/-!
# Waits end with what is awaited

Source: src/source/syscalls/sc_process.cc, `sc_thread_wait`; src/source/process/Thread.cc,
`terminate`; src/source/process/Task.cc, `terminate`; src/source/process/TaskManager.cc,
`terminateThread`, `removeTask`.

The end of a thread is signalled for its task only, so that nobody who waits for one thread
is ever woken, and the id of that thread reaches into the part of the number that is the
task's. All other waits end exactly when they should.
-/
namespace Orcos.Guarantees.ThreadWaits
open Lib.Runs Source Source.Queues Source.Tasks

/-- What a thread waits for: a thread or all threads of its task, or another task. -/
inductive Awaited
  | thread (task : Nat) (id : BitVec 32)
  | threads (task : Nat)
  | task (id : Nat)
  deriving DecidableEq

section Specification

variable {τ : Type} [DecidableEq τ] (ids : τ → Nat)

/-- The waits that are over when a thread ends. -/
def endedBy (task id : Nat) : Awaited → Bool
  | .thread o i => o = task ∧ i.toNat = id
  | .threads o => o = task
  | .task _ => false

def release (past : Awaited → Bool) (awaits : τ → Option Awaited) (t : τ) : Option Awaited :=
  (awaits t).filter fun x => !past x

/-- A thread of a task ends; it waits for nothing any more. -/
def releaseThread (task : Nat) (awaits : τ → Option Awaited) (t : τ) : τ → Option Awaited :=
  release (endedBy task (ids t)) (Function.update awaits t none)

def releaseTask (task : Nat) (awaits : τ → Option Awaited) : τ → Option Awaited :=
  release (fun x => x = .task task) awaits

/-- What a call of `sc_thread_wait` is about; nothing when there is no such task. -/
def requested (s : Processes τ) (t : τ) (pid threadid : BitVec 32) : Option Awaited :=
  if pid = 0 then
    if threadid = 0 then some (.threads (s.kernel.threads t).owner)
    else some (.thread (s.kernel.threads t).owner threadid)
  else if pid.toNat ∈ s.taskDatabase then some (.task pid.toNat)
  else none

/-- A thread ends unless it runs and is to run again periodically. -/
def Ends (s : Processes τ) (t : τ) : Prop :=
  t ∈ s.threadDb (s.kernel.threads t).owner ∧
    ¬(s.kernel.running = some t ∧ renews (s.kernel.threads t) = true)

instance (s : Processes τ) (t : τ) : Decidable (Ends s t) := inferInstanceAs (Decidable (_ ∧ _))

/-- What the threads should wait for after an event. -/
def awaitedAfter (s : Processes τ) (awaits : τ → Option Awaited) :
    Processes.Event τ → τ → Option Awaited
  | .threadWait pid threadid =>
    match s.kernel.running with
    | some t => Function.update awaits t (requested s t pid threadid)
    | none => awaits
  | .terminateThread t =>
    if Ends s t then
      let task := (s.kernel.threads t).owner
      if (s.threadDb task).erase t = [] then releaseTask task (releaseThread ids task awaits t)
      else releaseThread ids task awaits t
    else awaits
  | .removeTask task =>
    if task ∈ s.taskDatabase then
      (s.threadDb task).foldl (releaseThread ids task) (releaseTask task awaits)
    else awaits
  | .kernel _ => awaits

/-- The threads that end in an event. -/
def gone (s : Processes τ) : Processes.Event τ → List τ
  | .terminateThread t => [t]
  | .removeTask task => s.threadDb task
  | _ => []

/-- A step of the system with what the threads should wait for. -/
def step (cfg : SchedulerCfd) (fuel : Nat) (p : Processes τ × (τ → Option Awaited))
    (event : Processes.Event τ) : Option (Processes τ × (τ → Option Awaited)) :=
  (p.1.step cfg fuel event).map fun s =>
    (s, if p.1.kernel.dispatching && !event.isDispatch then p.2
      else awaitedAfter ids p.1 p.2 event)

end Specification

section Statement

variable {τ : Type} [DecidableEq τ] [Fintype τ]

/-- Waiting is what `awaits` says, and different waits have different signals. -/
structure Exact (p : Processes τ × (τ → Option Awaited)) : Prop where
  waiting : ∀ t, t ∈ p.1.kernel.list .wait ↔ (p.2 t).isSome
  apart : ∀ t u x y, p.2 t = some x → p.2 u = some y → x ≠ y →
    (p.1.kernel.threads t).signal ≠ (p.1.kernel.threads u).signal

/-- Whose wait is over is ready, unless it ends itself. -/
def Released (p p' : Processes τ × (τ → Option Awaited)) (event : Processes.Event τ) : Prop :=
  ∀ t, (p.2 t).isSome → p'.2 t = none → t ∈ p'.1.kernel.list .ready ∨ t ∈ gone p.1 event

/-- What the kernel does otherwise: no operation is addressed to a thread that waits, and
nobody else uses the signals. -/
def Otherwise (p : Processes τ × (τ → Option Awaited)) : Kernel.Event τ → Prop
  | .sigwait .generic _ _ => False
  | .terminateThread _ => False
  | .signal .generic sig _ => ∀ t, (p.2 t).isSome → (p.1.kernel.threads t).signal ≠ sig
  | event => ∀ t, event.thread = some t → p.2 t = none

instance (p : Processes τ × (τ → Option Awaited)) : (event : Kernel.Event τ) →
    Decidable (Otherwise p event)
  | .sigwait .generic _ _ | .terminateThread _ => inferInstanceAs (Decidable False)
  | .signal .generic _ _ => inferInstanceAs (Decidable (∀ _, _))
  | .sigwait .cond _ _ | .signal .cond _ _ | .run _ | .computePriority _ | .sleep _ _ | .block _
  | .unblock _ | .stop _ | .resume _ | .pushPriority .. | .popPriority .. | .softTerminate _
  | .dispatch _ => inferInstanceAs (Decidable (∀ _, _))

/-- A thread waits for no single thread and is, when it calls, neither blocked nor stopped nor
to sleep; a periodic thread is not ended from outside. -/
def Fits (cfg : SchedulerCfd) (p : Processes τ × (τ → Option Awaited)) :
    Processes.Event τ → Prop
  | .threadWait pid threadid => (pid = 0 → threadid = 0) ∧
      ∀ t, p.1.kernel.running = some t → Plain cfg (p.1.kernel.threads t)
  | .terminateThread t => p.1.kernel.view.Linkable cfg (.terminateThread t) ∧
      (renews (p.1.kernel.threads t) = true → p.1.kernel.running = some t)
  | .removeTask _ => True
  | .kernel event => p.1.kernel.view.Linkable cfg event ∧ Otherwise p event

instance (cfg : SchedulerCfd) (p : Processes τ × (τ → Option Awaited)) :
    (event : Processes.Event τ) → Decidable (Fits cfg p event)
  | .threadWait .. | .terminateThread _ | .kernel _ => inferInstanceAs (Decidable (_ ∧ _))
  | .removeTask _ => inferInstanceAs (Decidable True)

end Statement

section Numbers

/-- An id that the constructors of `Task` give: one of the id map, or what is left of -1. -/
def Given (id : Nat) : Prop := id < maxNumTasks ∨ id = 0xffff

instance (id : Nat) : Decidable (Given id) := inferInstanceAs (Decidable (_ ∨ _))

/-- The signal of a wait. -/
def Awaited.number : Awaited → Nat
  | .thread o id => signalSpaceTask o ||| sigChildTerminated ||| (id <<< 8).toNat
  | .threads o => signalSpaceTask o ||| sigChildTerminated
  | .task o => signalSpaceTask o ||| sigTaskTerminated

/-- A wait for all threads of a task or for a task. -/
def Ordinary : Awaited → Prop
  | .thread _ _ => False
  | .threads o => Given o
  | .task o => Given o

theorem signalSpaceTask_eq (x : Nat) : signalSpaceTask x = x % 256 * 65536 := by
  have mask : x &&& 0xff = x % 256 := Nat.and_two_pow_sub_one_eq_mod x 8
  rw [signalSpaceTask, mask, Nat.shiftLeft_eq]

theorem number_threads (o : Nat) : (Awaited.threads o).number = o % 256 * 65536 + 1 := by
  have joined := Nat.two_pow_add_eq_or_of_lt (i := 16) (show 1 < 2 ^ 16 by decide) (o % 256)
  rw [Awaited.number, signalSpaceTask_eq, sigChildTerminated, Nat.mul_comm]
  exact joined.symm

theorem number_task (o : Nat) : (Awaited.task o).number = o % 256 * 65536 := by
  rw [Awaited.number, signalSpaceTask_eq, sigTaskTerminated, Nat.or_zero]

/-- The ids of tasks differ in their last eight bits. -/
theorem given_mod {o p : Nat} (first : Given o) (second : Given p) (same : o % 256 = p % 256) :
    o = p := by
  simp only [Given, maxNumTasks] at first second
  omega

theorem number_injective {x y : Awaited} (first : Ordinary x) (second : Ordinary y)
    (same : x.number = y.number) : x = y := by
  cases x with
  | thread o id => exact first.elim
  | threads o =>
    cases y with
    | thread p id => exact second.elim
    | threads p =>
      rw [number_threads, number_threads] at same
      rw [given_mod first second (by omega)]
    | task p =>
      rw [number_threads, number_task] at same
      omega
  | task o =>
    cases y with
    | thread p id => exact second.elim
    | threads p =>
      rw [number_threads, number_task] at same
      omega
    | task p =>
      rw [number_task, number_task] at same
      rw [given_mod first second (by omega)]

end Numbers

section Invariant

variable {τ : Type} [DecidableEq τ] {cfg : SchedulerCfd} {owner : τ → Nat} {a b : Queues τ}
  {w w₀ : τ → Option Awaited} {lost : List τ} {t : τ} {x : Awaited}

/-- A thread waits for this with its signal, and will be made ready. -/
structure WaitsFor (cfg : SchedulerCfd) (a : Queues τ) (t : τ) (x : Awaited) : Prop where
  ordinary : Ordinary x
  number : (a.threads t).signal = x.number
  plain : Plain cfg (a.threads t)
  idle : a.running ≠ some t

/-- Exactly the threads that should wait do; of those that waited before the event that is
under way, `w₀`, whoever's wait is over is ready or has ended. -/
structure Sound (cfg : SchedulerCfd) (owner : τ → Nat) (w₀ : τ → Option Awaited) (lost : List τ)
    (a : Queues τ) (w : τ → Option Awaited) : Prop where
  owner : ∀ t, (a.threads t).owner = owner t
  waiting : ∀ t, t ∈ a.queue .wait ↔ (w t).isSome
  waits : ∀ t x, w t = some x → WaitsFor cfg a t x
  released : ∀ t, (w₀ t).isSome → w t = none → t ∈ a.queue .ready ∨ t ∈ lost

omit [DecidableEq τ] in
theorem WaitsFor.untouched (waits : WaitsFor cfg a t x) (same : Untouched t a b) :
    WaitsFor cfg b t x where
  ordinary := waits.ordinary
  number := by rw [same.threads, waits.number]
  plain := by rw [same.threads]; exact waits.plain
  idle := same.running waits.idle

/-- Nobody's wait ends: the threads that wait, and those made ready, are left alone. -/
theorem Sound.frame (sound : Sound cfg owner w₀ lost a w) (tame : Tame a b)
    (waiters : ∀ t, (w t).isSome → Untouched t a b)
    (ready : ∀ t, (w₀ t).isSome → w t = none → t ∉ lost → Untouched t a b) :
    Sound cfg owner w₀ lost b w where
  owner t := (tame.owner t).trans (sound.owner t)
  waiting t := by
    constructor
    · intro member
      exact (sound.waiting t).mp (tame.wait t member)
    · intro some
      exact ((waiters t some).queue _).mpr ((sound.waiting t).mpr some)
  waits t x waits := (sound.waits t x waits).untouched (waiters t (by rw [waits]; rfl))
  released t before past := by
    by_cases gone : t ∈ lost
    · exact .inr gone
    · rcases sound.released t before past with member | gone'
      · exact .inl (((ready t before past gone).queue _).mpr member)
      · exact .inr gone'

omit [DecidableEq τ] in
theorem release_eq_some {past : Awaited → Bool} :
    release past w t = some x ↔ w t = some x ∧ past x = false := by
  simp [release, Option.filter_eq_some_iff]

omit [DecidableEq τ] in
theorem release_eq_none {past : Awaited → Bool} :
    release past w t = none ↔ w t = none ∨ ∃ x, w t = some x ∧ past x = true := by
  rw [release, Option.filter_eq_none_iff]
  cases w t with
  | none => simp
  | some x => simp

/-- The signal of what is over wakes exactly those who wait for it. -/
theorem Sound.signal (sound : Sound cfg owner w₀ lost a w) (nodup : (a.queue .wait).Nodup)
    {past : Awaited → Bool} (ordinary : Ordinary x)
    (exactly : ∀ y, Ordinary y → (past y = true ↔ y = x)) (sigvalue : Int) :
    Sound cfg owner w₀ lost (a.signal cfg .generic x.number sigvalue) (release past w) := by
  have tame : Tame a (a.signal cfg .generic x.number sigvalue) := Tame.signal cfg a ..
  have others : ∀ t y, w t = some y → past y = false →
      Untouched t a (a.signal cfg .generic x.number sigvalue) := by
    intro t y awaits goesOn
    have waits := sound.waits t y awaits
    have member : t ∈ a.queue .wait := (sound.waiting t).mpr (by rw [awaits]; rfl)
    refine Untouched.signal_other .generic nodup member ?_ sigvalue
    rw [waits.number]
    intro same
    have equal : y = x := number_injective waits.ordinary ordinary same
    rw [(exactly y waits.ordinary).mpr equal] at goesOn
    cases goesOn
  have woken : ∀ t y, w t = some y → past y = true →
      t ∈ (a.signal cfg .generic x.number sigvalue).queue .ready ∧
        t ∉ (a.signal cfg .generic x.number sigvalue).queue .wait := by
    intro t y awaits isPast
    have waits := sound.waits t y awaits
    have member : t ∈ a.queue .wait := (sound.waiting t).mpr (by rw [awaits]; rfl)
    have same : (a.threads t).signal = x.number := by
      rw [waits.number, (exactly y waits.ordinary).mp isPast]
    have all := signal_woken cfg .generic nodup member waits.idle same waits.plain sigvalue
    exact ⟨all.1, all.2.1⟩
  constructor
  · intro t
    exact (tame.owner t).trans (sound.owner t)
  · intro t
    constructor
    · intro member
      cases after : release past w t with
      | some y => rfl
      | none =>
        have before := (sound.waiting t).mp (tame.wait t member)
        rcases release_eq_none.mp after with none | ⟨y, awaits, isPast⟩
        · rw [none] at before
          cases before
        · exact absurd member (woken t y awaits isPast).2
    · intro some
      obtain ⟨y, after⟩ := Option.isSome_iff_exists.mp some
      obtain ⟨awaits, goesOn⟩ := release_eq_some.mp after
      exact ((others t y awaits goesOn).queue _).mpr
        ((sound.waiting t).mpr (by rw [awaits]; rfl))
  · intro t y after
    obtain ⟨awaits, goesOn⟩ := release_eq_some.mp after
    exact (sound.waits t y awaits).untouched (others t y awaits goesOn)
  · intro t before after
    rcases release_eq_none.mp after with none | ⟨y, awaits, isPast⟩
    · refine (sound.released t before none).imp_left fun ready => ?_
      have absent : t ∉ a.queue SignalType.generic.list := by
        rw [SignalType.list, sound.waiting, none]
        decide
      exact ((Untouched.signal a cfg absent _ _).queue _).mpr ready
    · exact .inl (woken t y awaits isPast).1

/-- A thread leaves all queues. -/
theorem Sound.ended (sound : Sound cfg owner w₀ lost a w) (isLost : t ∈ lost) :
    Sound cfg owner w₀ lost (a.ended t) (Function.update w t none) := by
  have tame : Tame a (a.ended t) := (Tame.setThread a t (by rfl)).trans (Tame.remove _ t)
  have others : ∀ u, u ≠ t → Untouched u a (a.ended t) := fun u other =>
    (Untouched.setThread a other.symm _).trans (Untouched.remove _ other.symm)
  constructor
  · intro u
    exact (tame.owner u).trans (sound.owner u)
  · intro u
    by_cases same : u = t
    · rw [same, Function.update_self]
      simp [Queues.ended]
    · rw [Function.update_of_ne same, ((others u same).queue _), sound.waiting]
  · intro u y after
    by_cases same : u = t
    · rw [same, Function.update_self] at after
      cases after
    · rw [Function.update_of_ne same] at after
      exact (sound.waits u y after).untouched (others u same)
  · intro u before after
    by_cases same : u = t
    · exact .inr (same ▸ isLost)
    · rw [Function.update_of_ne same] at after
      exact (sound.released u before after).imp_left ((others u same).queue _).mpr

/-- The thread that has ended stops to run. -/
theorem Sound.leave (sound : Sound cfg owner w₀ lost a w) (isLost : t ∈ lost) (past : w t = none) :
    Sound cfg owner w₀ lost (a.dispatcherTerminateThread t) w := by
  have tame : Tame a (a.dispatcherTerminateThread t) := (Tame.remove a t).trans (Tame.leave _ t)
  have others : ∀ u, u ≠ t → Untouched u a (a.dispatcherTerminateThread t) := fun u other =>
    (Untouched.remove a other.symm).trans (Untouched.leave _)
  apply sound.frame tame
  · intro u waits
    refine others u fun same => ?_
    rw [same, past] at waits
    cases waits
  · intro u _ _ going
    exact others u fun same => going (same ▸ isLost)

/-- A running thread begins to wait. -/
theorem Sound.sigwait (sound : Sound cfg owner w [] a w) (running : a.running = some t)
    (ordinary : Ordinary x) (plain : Plain cfg (a.threads t)) :
    Sound cfg owner w [] (a.sigwait .generic t x.number) (Function.update w t (some x)) := by
  have others : ∀ u, u ≠ t → Untouched u a (a.sigwait .generic t x.number) := fun u other =>
    ((Untouched.setThread a other.symm _).trans (Untouched.move _ other.symm _ _)).trans
      (Untouched.leave _)
  have own : (a.sigwait .generic t x.number).threads t =
      (({ a.threads t with signal := x.number }).setReady false).setSignal true := by
    simp [Queues.sigwait]
  constructor
  · intro u
    by_cases same : u = t
    · rw [same, own, ← sound.owner t]
      rfl
    · rw [(others u same).threads, sound.owner]
  · intro u
    by_cases same : u = t
    · rw [same, Function.update_self]
      simp [Queues.sigwait, SignalType.list]
    · rw [Function.update_of_ne same, ((others u same).queue _), sound.waiting]
  · intro u y awaits
    by_cases same : u = t
    · rw [same, Function.update_self, Option.some.injEq] at awaits
      subst same awaits
      refine ⟨ordinary, by rw [own]; rfl, ?_, by simp [Queues.sigwait, running]⟩
      obtain ⟨unblocked, going, awake, stays⟩ := plain
      rw [own]
      refine ⟨unblocked, going, awake, ?_⟩
      rw [← stays]
      cases cfg <;> rfl
    · rw [Function.update_of_ne same] at awaits
      exact (sound.waits u y awaits).untouched (others u same)
  · intro u before after
    by_cases same : u = t
    · rw [same, Function.update_self] at after
      cases after
    · rw [Function.update_of_ne same] at after
      rw [after] at before
      cases before

end Invariant

section Processes

variable {τ : Type} [DecidableEq τ] [Fintype τ] {cfg : SchedulerCfd} {owner ids : τ → Nat}
  {s : Processes τ} {w w₀ : τ → Option Awaited} {lost : List τ} {task : Nat} {t : τ}

/-- The invariant of the system. -/
structure Tracks (cfg : SchedulerCfd) (owner : τ → Nat) (w₀ : τ → Option Awaited) (lost : List τ)
    (s : Processes τ) (w : τ → Option Awaited) : Prop where
  refines : ∃ a, Refines s.kernel a ∧ Sound cfg owner w₀ lost a w
  members : ∀ o, ∀ t ∈ s.threadDb o, owner t = o
  known : ∀ o ∈ s.taskDatabase, Given o

omit [DecidableEq τ] [Fintype τ] in
/-- The kernel does something, and the threads stay in their tasks. -/
theorem Tracks.kernel {kernel : Kernel τ} {w' : τ → Option Awaited} {a : Queues τ}
    (tracks : Tracks cfg owner w₀ lost s w) (refines : Refines kernel a)
    (sound : Sound cfg owner w₀ lost a w') :
    Tracks cfg owner w₀ lost { s with kernel := kernel } w' :=
  ⟨⟨a, refines, sound⟩, tracks.members, tracks.known⟩

omit [Fintype τ] in
theorem Tracks.removeThread (tracks : Tracks cfg owner w₀ lost s w) (task : Nat) (t : τ) :
    Tracks cfg owner w₀ lost (s.removeThread task t) w := by
  refine ⟨tracks.refines, fun o u member => ?_, tracks.known⟩
  unfold Processes.removeThread at member
  dsimp only at member
  rw [Function.update_apply] at member
  split at member
  case isTrue same =>
    rw [same]
    exact tracks.members task u (List.mem_of_mem_erase member)
  case isFalse => exact tracks.members o u member

theorem endedBy_threads {id : Nat} {y : Awaited} (ordinary : Ordinary y) :
    endedBy task id y = true ↔ y = .threads task := by
  cases y with
  | thread o i => exact ordinary.elim
  | threads o => simp [endedBy]
  | task o => simp [endedBy]

variable (ids) in
/-- `Thread::terminate`. -/
theorem Tracks.terminate (given : ∀ t, Given (owner t)) (tracks : Tracks cfg owner w₀ lost s w)
    (isLost : t ∈ lost) (own : owner t = task) : ∃ kernel,
      s.kernel.terminate cfg (Fintype.card τ) t = some kernel ∧
        Tracks cfg owner w₀ lost { s with kernel := kernel } (releaseThread ids task w t) := by
  obtain ⟨a, refines, sound⟩ := tracks.refines
  obtain ⟨kernel, terminated, refines'⟩ : ∃ kernel,
      s.kernel.terminate cfg (Fintype.card τ) t = some kernel ∧
      Refines kernel (a.terminate cfg t) :=
    refines.terminate le_rfl t
  have nodup : ((a.ended t).queue .wait).Nodup := (refines.represents.nodup .wait).filter _
  have signalled : Sound cfg owner w₀ lost
      ((a.ended t).signal cfg .generic (Awaited.threads task).number cOk)
      (releaseThread ids task w t) :=
    (sound.ended isLost).signal nodup (own ▸ given t) (fun y => endedBy_threads) cOk
  have number : Kernel.childTerminated (a.threads t).owner = (Awaited.threads task).number := by
    rw [sound.owner, own]
    rfl
  refine ⟨kernel, terminated, tracks.kernel refines' ?_⟩
  rw [Queues.terminate, number]
  exact signalled

variable (ids) in
/-- The loop of `Task::terminate`. -/
theorem Tracks.endThreads (given : ∀ t, Given (owner t)) (threads : List τ)
    (isLost : ∀ t ∈ threads, t ∈ lost) (own : ∀ t ∈ threads, owner t = task)
    (tracks : Tracks cfg owner w₀ lost s w) : ∃ s',
      threads.foldlM (fun s t => s.endThread cfg (Fintype.card τ) task t) s = some s' ∧
        Tracks cfg owner w₀ lost s' (threads.foldl (releaseThread ids task) w) := by
  induction threads generalizing s w with
  | nil => exact ⟨s, rfl, tracks⟩
  | cons t threads ih =>
    obtain ⟨kernel, terminated, next⟩ := tracks.terminate ids given (isLost t List.mem_cons_self)
      (own t List.mem_cons_self)
    obtain ⟨s', ran, last⟩ := ih (fun u later => isLost u (List.mem_cons_of_mem t later))
      (fun u later => own u (List.mem_cons_of_mem t later)) (next.removeThread task t)
    refine ⟨s', ?_, last⟩
    rw [List.foldlM_cons, Processes.endThread, terminated]
    exact ran

variable (ids) in
/-- `TaskManager::removeTask`. -/
theorem Tracks.removeTask (given : ∀ t, Given (owner t)) (tracks : Tracks cfg owner w₀ lost s w)
    (known : Given task) (isLost : ∀ t ∈ s.threadDb task, t ∈ lost) : ∃ s',
      s.removeTask cfg (Fintype.card τ) task = some s' ∧ Tracks cfg owner w₀ lost s'
        ((s.threadDb task).foldl (releaseThread ids task) (releaseTask task w)) := by
  obtain ⟨a, refines, sound⟩ := tracks.refines
  obtain ⟨kernel, raised, refines'⟩ := refines.signal cfg le_rfl .generic
    (Awaited.task task).number (s.exitValue task)
  have woken : Sound cfg owner w₀ lost
      (a.signal cfg .generic (Awaited.task task).number (s.exitValue task)) (releaseTask task w) :=
    sound.signal (refines.represents.nodup .wait) (show Ordinary (.task task) from known)
      (fun y _ => by simp) _
  have signalled := tracks.kernel refines' woken
  obtain ⟨s', ran, last⟩ := signalled.endThreads ids given (s.threadDb task) isLost
    (tracks.members task)
  have terminated : s.terminate cfg (Fintype.card τ) task = some s' := by
    rw [Processes.terminate]
    exact (congrArg (Option.bind · _) raised).trans ran
  refine ⟨{ s' with taskDatabase := s'.taskDatabase.erase task }, ?_, last.refines, last.members,
    fun o member => last.known o (List.mem_of_mem_erase member)⟩
  rw [Processes.removeTask, terminated]
  rfl

omit [Fintype τ] in
theorem releaseThread_self : releaseThread ids task w t t = none := by
  rw [releaseThread, release, Function.update_self]
  rfl

omit [DecidableEq τ] [Fintype τ] in
/-- A new event begins. -/
theorem Tracks.begin (tracks : Tracks cfg owner w₀ lost s w) (lost' : List τ) :
    Tracks cfg owner w lost' s w := by
  obtain ⟨a, refines, sound⟩ := tracks.refines
  refine ⟨⟨a, refines, sound.owner, sound.waiting, sound.waits, ?_⟩, tracks.members, tracks.known⟩
  intro t before after
  rw [after] at before
  cases before

/-- `TaskManager::terminateThread`, after the thread was told. -/
theorem Tracks.leaveTask (given : ∀ t, Given (owner t)) (tracks : Tracks cfg owner w₀ lost s w)
    (isLost : t ∈ lost) (past : w t = none) (own : owner t = task) : ∃ s',
      s.leaveTask cfg (Fintype.card τ) task t = some s' ∧ Tracks cfg owner w₀ lost s'
        (if (s.threadDb task).erase t = [] then releaseTask task w else w) := by
  have removed : ∃ s', (if ((s.removeThread task t).threadDb task).isEmpty then
        (s.removeThread task t).removeTask cfg (Fintype.card τ) task
      else some (s.removeThread task t)) = some s' ∧ Tracks cfg owner w₀ lost s'
        (if (s.threadDb task).erase t = [] then releaseTask task w else w) := by
    have rest : (s.removeThread task t).threadDb task = (s.threadDb task).erase t :=
      Function.update_self ..
    by_cases last : (s.threadDb task).erase t = []
    · obtain ⟨s', ran, after⟩ := (tracks.removeThread task t).removeTask (fun _ => 0) given
        (own ▸ given t) (fun u member => by rw [rest, last] at member; cases member)
      rw [rest, last] at after
      rw [rest, last, if_pos rfl, if_pos (by rfl)]
      exact ⟨s', ran, after⟩
    · rw [rest, if_neg last, if_neg (by simpa using last)]
      exact ⟨_, rfl, tracks.removeThread task t⟩
  have still : (if (s.threadDb task).erase t = [] then releaseTask task w else w) t = none := by
    split
    · rw [releaseTask, release, past]
      rfl
    · exact past
  obtain ⟨s', ran, after⟩ := removed
  obtain ⟨a, refines, sound⟩ := after.refines
  have left := after.kernel (refines.dispatcherTerminateThread t) (sound.leave isLost still)
  refine ⟨_, ?_, left⟩
  rw [Processes.leaveTask, ran]
  rfl

/-- `TaskManager::terminateThread` when the thread ends. -/
theorem Tracks.terminateThread (given : ∀ t, Given (owner t))
    (tracks : Tracks cfg owner w₀ lost s w)
    (started : s.kernel.dispatching = false) (isLost : t ∈ lost)
    (last : renews (s.kernel.threads t) = false) (own : owner t = task) : ∃ s',
      s.terminateThread cfg (Fintype.card τ) t = some s' ∧ Tracks cfg owner w₀ lost s'
        (if (s.threadDb task).erase t = [] then releaseTask task (releaseThread ids task w t)
          else releaseThread ids task w t) := by
  obtain ⟨kernel, terminated, next⟩ := tracks.terminate ids given isLost own
  have goesOn : kernel.dispatching = false := by
    obtain ⟨a, refines, sound⟩ := tracks.refines
    obtain ⟨k, same, refines'⟩ : ∃ k,
        s.kernel.terminate cfg (Fintype.card τ) t = some k ∧ Refines k (a.terminate cfg t) :=
      refines.terminate le_rfl t
    rw [terminated, Option.some.injEq] at same
    have idle : ∀ u ∈ (a.ended t).queue SignalType.generic.list, (a.ended t).running ≠ some u := by
      intro u member
      have waiting := (sound.waiting u).mp ((mem_remove _ t u .wait).mp member).1
      obtain ⟨x, awaits⟩ := Option.isSome_iff_exists.mp waiting
      exact (sound.waits u x awaits).idle
    have kept := signal_processor cfg (Kernel.childTerminated (a.threads t).owner) cOk idle
    rw [same, refines'.dispatching, Queues.terminate, kept.2, ← started, refines.dispatching]
    rfl
  obtain ⟨s', ran, after⟩ := next.leaveTask given isLost releaseThread_self own
  refine ⟨s', ?_, after⟩
  have told : s.kernel.realTimeTerminate cfg (Fintype.card τ) t = some kernel := by
    rw [Kernel.realTimeTerminate, if_neg (by simpa [renews] using last), terminated]
  have belongs : (s.kernel.threads t).owner = task := by
    obtain ⟨a, refines, sound⟩ := tracks.refines
    rw [refines.threads, sound.owner, own]
  rw [Processes.terminateThread, told, Option.bind_some, if_neg (by rw [goesOn]; decide), belongs]
  exact ran

/-- A periodic thread that runs sleeps until its next instance. -/
theorem Tracks.renew (tracks : Tracks cfg owner w [] s w)
    (running : s.kernel.running = some t) (goesOn : renews (s.kernel.threads t) = true)
    (linkable : s.kernel.view.Linkable cfg (.terminateThread t)) : ∃ s',
      s.terminateThread cfg (Fintype.card τ) t = some s' ∧ Tracks cfg owner w [] s' w := by
  obtain ⟨a, refines, sound⟩ := tracks.refines
  rw [refines.view_eq] at linkable
  rw [refines.running] at running
  rw [refines.threads] at goesOn
  obtain ⟨kernel, told, refines'⟩ : ∃ kernel,
      s.kernel.realTimeTerminate cfg (Fintype.card τ) t = some kernel ∧
        Refines kernel (a.realTimeTerminate cfg t) := refines.realTimeTerminate le_rfl t linkable
  have asleep : a.realTimeTerminate cfg t =
      (a.renewed cfg t).sleep t ((a.renewed cfg t).threads t).arrivalTime := by
    rw [Queues.realTimeTerminate, if_pos goesOn]
  have processor : (a.renewed cfg t).running = some t := by
    rw [← running]
    cases cfg <;> rfl
  have due : kernel.dispatching = true := by
    rw [refines'.dispatching, asleep]
    simp [Queues.sleep, Queues.addSleeping, Queues.leave, Queues.putOff, processor]
  have tame : Tame a (a.realTimeTerminate cfg t) := by
    rw [asleep]
    exact ((Tame.setThread a t (by rfl)).trans (Tame.computePriority _ t)).trans (Tame.sleep _ t _)
  have others : ∀ u, u ≠ t → Untouched u a (a.realTimeTerminate cfg t) := fun u other => by
    rw [asleep]
    exact ((Untouched.setThread a other.symm _).trans
      (Untouched.computePriority _ other.symm)).trans (Untouched.sleep _ other.symm _)
  have after : Sound cfg owner w [] (a.realTimeTerminate cfg t) w := by
    apply sound.frame tame
    · intro u waits
      obtain ⟨x, awaits⟩ := Option.isSome_iff_exists.mp waits
      refine others u fun same => (sound.waits u x awaits).idle ?_
      rw [same]
      exact running
    · intro u before past
      rw [past] at before
      cases before
  refine ⟨_, ?_, tracks.kernel refines' after⟩
  rw [Processes.terminateThread, told, Option.bind_some, if_pos due]

omit [Fintype τ] in
/-- `sc_thread_wait` of the running thread. -/
theorem Tracks.threadWait (given : ∀ t, Given (owner t)) (tracks : Tracks cfg owner w [] s w)
    (running : s.kernel.running = some t) (plain : Plain cfg (s.kernel.threads t))
    {pid threadid : BitVec 32} (general : pid = 0 → threadid = 0) :
    Tracks cfg owner w [] (s.threadWait t pid threadid).1
      (Function.update w t (requested s t pid threadid)) := by
  obtain ⟨a, refines, sound⟩ := tracks.refines
  have belongs : (s.kernel.threads t).owner = owner t := by rw [refines.threads, sound.owner]
  rw [refines.running] at running
  rw [refines.threads] at plain
  unfold Processes.threadWait requested
  dsimp only
  by_cases own : pid = 0
  · rw [if_pos own, if_pos own, if_pos (general own), if_pos (general own), belongs]
    exact tracks.kernel (refines.sigwait .generic t _)
      (sound.sigwait running (x := .threads (owner t)) (given t) plain)
  · rw [if_neg own, if_neg own]
    by_cases known : pid.toNat ∈ s.taskDatabase
    · rw [if_pos known, if_pos known]
      exact tracks.kernel (refines.sigwait .generic t _)
        (sound.sigwait running (x := .task pid.toNat) (tracks.known _ known) plain)
    · rw [if_neg known, if_neg known]
      have free : w t = none := by
        cases awaits : w t with
        | none => rfl
        | some x => exact absurd running (sound.waits t x awaits).idle
      rw [← free, Function.update_eq_self]
      exact tracks

/-- Whatever else the kernel does. -/
theorem Tracks.otherwise (tracks : Tracks cfg owner w [] s w) {event : Kernel.Event τ}
    (linkable : s.kernel.view.Linkable cfg event) (otherwise : Otherwise (s, w) event) :
    ∃ kernel, s.kernel.perform cfg (Fintype.card τ) event = some kernel ∧
      Tracks cfg owner w [] { s with kernel := kernel } w := by
  obtain ⟨a, refines, sound⟩ := tracks.refines
  rw [refines.view_eq] at linkable
  obtain ⟨kernel, performed, refines'⟩ := refines.perform le_rfl linkable
  refine ⟨kernel, performed, tracks.kernel refines' (sound.frame ?_ ?_ ?_)⟩
  · apply Tame.perform cfg a
    · rintro t sig rfl
      exact otherwise
    · rintro t rfl
      exact otherwise
  · intro t waits
    obtain ⟨x, awaits⟩ := Option.isSome_iff_exists.mp waits
    have member : t ∈ a.queue .wait := (sound.waiting t).mpr waits
    have apart : ∀ q, t ∈ a.queue q → q = .wait := fun q there => refines.only_queue member there
    have idle := (sound.waits t x awaits).idle
    have other : ∀ u, w u = none → u ≠ t := fun u free same => by
      rw [← same, free] at waits
      cases waits
    cases event with
    | dispatch currentTime =>
      apply Untouched.dispatch cfg idle
      · intro ready
        cases apart _ ready
      · intro asleep
        cases apart _ asleep
    | signal signaltype sig sigvalue =>
      cases signaltype with
      | generic =>
        have number := otherwise t waits
        rw [refines.threads] at number
        exact Untouched.signal_other .generic
          (refines.represents.nodup .wait) member number sigvalue
      | cond =>
        refine Untouched.signal a cfg (fun there => ?_) sig sigvalue
        cases apart _ there
    | terminateThread u => exact otherwise.elim
    | sigwait signaltype u sig =>
      cases signaltype with
      | generic => exact otherwise.elim
      | cond => exact Untouched.addressed a (other u (otherwise u rfl)) rfl (by simp)
    | _ => exact Untouched.addressed a (other _ (otherwise _ rfl)) rfl (by simp)
  · intro t before past
    rw [past] at before
    cases before

variable (ids) in
/-- What an event does when no dispatch is due. -/
theorem Tracks.perform (given : ∀ t, Given (owner t)) (tracks : Tracks cfg owner w₀ lost s w)
    {event : Processes.Event τ}
    (started : event.isDispatch = false → s.kernel.dispatching = false)
    (fits : Fits cfg (s, w) event) : ∃ s',
      s.perform cfg (Fintype.card τ) event = some s' ∧
        Tracks cfg owner w (gone s event) s' (awaitedAfter ids s w event) := by
  cases event with
  | threadWait pid threadid =>
    obtain ⟨general, plain⟩ := fits
    unfold Processes.perform awaitedAfter
    dsimp only
    cases running : s.kernel.running with
    | none => exact ⟨s, rfl, tracks.begin _⟩
    | some t =>
      exact ⟨_, rfl, (tracks.begin []).threadWait given running (plain t running) general⟩
  | terminateThread t =>
    obtain ⟨linkable, outside⟩ := fits
    unfold Processes.perform awaitedAfter
    dsimp only
    by_cases member : t ∈ s.threadDb (s.kernel.threads t).owner
    · rw [if_pos member]
      by_cases goesOn : renews (s.kernel.threads t) = true
      · have running := outside goesOn
        obtain ⟨s', ran, after⟩ := (tracks.begin []).renew running goesOn linkable
        rw [if_neg fun ends : Ends s t => ends.2 ⟨running, goesOn⟩]
        exact ⟨s', ran, after.begin _⟩
      · rw [if_pos (show Ends s t from ⟨member, fun both => goesOn both.2⟩)]
        exact (tracks.begin [t]).terminateThread given (started rfl) (List.mem_singleton_self t)
          (by simpa using goesOn) (tracks.members _ t member)
    · rw [if_neg member, if_neg fun ends : Ends s t => member ends.1]
      exact ⟨s, rfl, tracks.begin _⟩
  | removeTask task =>
    unfold Processes.perform awaitedAfter
    dsimp only
    by_cases known : task ∈ s.taskDatabase
    · rw [if_pos known, if_pos known]
      exact (tracks.begin (s.threadDb task)).removeTask ids given (tracks.known task known)
        fun _ member => member
    · rw [if_neg known, if_neg known]
      exact ⟨s, rfl, tracks.begin _⟩
  | kernel event =>
    obtain ⟨kernel, performed, after⟩ := (tracks.begin []).otherwise fits.1 fits.2
    refine ⟨_, ?_, after⟩
    rw [Processes.perform, performed]
    rfl

variable (ids) in
theorem Tracks.step (given : ∀ t, Given (owner t)) (tracks : Tracks cfg owner w₀ lost s w)
    {event : Processes.Event τ} (fits : Fits cfg (s, w) event) : ∃ p',
      step ids cfg (Fintype.card τ) (s, w) event = some p' ∧
        Tracks cfg owner w (gone s event) p'.1 p'.2 := by
  unfold ThreadWaits.step Processes.step
  dsimp only
  by_cases due : (s.kernel.dispatching && !event.isDispatch) = true
  · rw [if_pos due, if_pos due]
    exact ⟨_, rfl, tracks.begin _⟩
  · have started : event.isDispatch = false → s.kernel.dispatching = false := fun other => by
      simpa [other] using due
    obtain ⟨s', performed, after⟩ := tracks.perform ids given started fits
    rw [if_neg due, if_neg due, performed]
    exact ⟨_, rfl, after⟩

omit [DecidableEq τ] in
theorem Tracks.exact (tracks : Tracks cfg owner w₀ lost s w) : Exact (s, w) := by
  obtain ⟨a, refines, sound⟩ := tracks.refines
  constructor
  · intro t
    rw [refines.list_eq]
    exact sound.waiting t
  · intro t u x y first second different same
    have one := sound.waits t x first
    have other := sound.waits u y second
    rw [refines.threads, one.number, other.number] at same
    exact different (number_injective one.ordinary other.ordinary same)

omit [DecidableEq τ] in
theorem Tracks.released (tracks : Tracks cfg owner w₀ lost s w) (before : (w₀ t).isSome)
    (past : w t = none) : t ∈ s.kernel.list .ready ∨ t ∈ lost := by
  obtain ⟨a, refines, sound⟩ := tracks.refines
  rw [refines.list_eq]
  exact sound.released t before past

end Processes

section Runs

variable {τ : Type} [DecidableEq τ] [Fintype τ]

/-- Two threads of task one and one of task two. -/
def three (t : Fin 3) : Thread := Thread.create 1 0 (if t = Fin.last 2 then 2 else 1) none

def threeThreads (task : Nat) : List (Fin 3) :=
  (List.finRange 3).filter fun t => (three t).owner = task

def threeStart : Processes (Fin 3) × (Fin 3 → Option Awaited) :=
  (Processes.start three [1, 2] threeThreads fun _ => 0, fun _ => none)

/-- All run; the first waits for the threads of its task, the second for task two. -/
def waiting : List (Processes.Event (Fin 3)) :=
  [.kernel (.run (Fin.last 0).castSucc.castSucc), .kernel (.run (Fin.last 1).castSucc),
    .kernel (.run (Fin.last 2)), .kernel (.dispatch 0), .threadWait 0 0, .kernel (.dispatch 1),
    .threadWait 2 0, .kernel (.dispatch 2)]

end Runs

end Orcos.Guarantees.ThreadWaits
