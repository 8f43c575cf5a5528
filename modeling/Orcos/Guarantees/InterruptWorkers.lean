import Orcos.Guarantees.InterruptWaiters

/-!
# Worker threads of interrupts

Source: src/source/hal/InterruptManager.cc, `registerIRQ`, `unregisterIRQ`,
`handleInterruptIRQ`; src/source/process/KernelTask.cc, `getIRQThread`.

When no worker thread is left, `registerIRQ` clears the flag it should set, and the next
interrupt follows a null pointer; so does one between the store of the driver and that of the
worker thread.
-/
namespace Orcos.Guarantees.InterruptWorkers
open Lib.Runs Source Source.Hal Source.Hal.Interrupts

variable {τ δ : Type} [DecidableEq τ] [DecidableEq δ]

section Specification

/-- The flags of the registrations that are complete, after an operation. -/
def recordAfter (s : InterruptRun τ δ) (registered : Nat → Option (BitVec 32)) :
    InterruptRun.Op τ δ → Nat → Option (BitVec 32)
  | .register r =>
    if s.registering.isSome || irqMax < r.irq.toNat then registered
    else Function.update registered r.irq.toNat none
  | .proceed =>
    match s.registering with
    | some (r, [_]) => Function.update registered r.irq.toNat (some r.flags)
    | _ => registered
  | .unregister irq =>
    if s.registering.isSome || irqMax < irq.toNat then registered
    else Function.update registered irq.toNat none
  | _ => registered

/-- A step with the record of the registrations. -/
def step (cfg : SchedulerCfd) (fuel : Nat) (worker : τ → Bool)
    (p : InterruptRun τ δ × (Nat → Option (BitVec 32))) (op : InterruptRun.Op τ δ) :
    Option (InterruptRun τ δ × (Nat → Option (BitVec 32))) :=
  (p.1.step cfg fuel worker op).map fun s => (s, recordAfter p.1 p.2 op)

/-- An entry without the flag has a worker thread. -/
def Served (handler : IrqHandler τ δ) : Prop :=
  handler.flags &&& irqNoThread = 0 → handler.pWThread ≠ none

/-- Each registered interrupt is served. -/
def AllServed (p : InterruptRun τ δ × (Nat → Option (BitVec 32))) : Prop :=
  ∀ irq flags, p.2 irq = some flags → Served (p.1.interrupts.irqTable irq)

/-- No missing worker thread is followed, and an interrupt that was registered without a
thread is handled at once. -/
def HandledWell (p : InterruptRun τ δ × (Nat → Option (BitVec 32))) (irq : BitVec 32)
    (handling : Handling τ δ) : Prop :=
  handling ≠ .nullThread ∧ ∀ flags, p.2 irq.toNat = some flags → flags &&& irqNoThread ≠ 0 →
    ∃ driver, handling = .direct driver

/-- The interrupt is being registered, and its entry has a driver but neither the flag nor a
worker thread. -/
def Exposed (s : InterruptRun τ δ) (irq : BitVec 32) : Prop :=
  (s.registering.map fun r => r.1.irq) = some irq ∧
    (s.interrupts.irqTable irq.toNat).driver.isSome = true ∧
      (s.interrupts.irqTable irq.toNat).flags &&& irqNoThread = 0 ∧
        (s.interrupts.irqTable irq.toNat).pWThread.isNone = true

/-- A registration is about to look for a worker thread. -/
def Looks (s : InterruptRun τ δ) : Prop :=
  match s.registering with
  | some (r, .chooseWorker :: _) => r.flags &&& irqNoThread = 0
  | _ => False

/-- Numbers are those of the table, a worker thread is there for each registration that needs
one, and no interrupt arrives while its entry is exposed. -/
def Fits (p : InterruptRun τ δ × (Nat → Option (BitVec 32))) : InterruptRun.Op τ δ → Prop
  | .register r => r.irq ≠ 256
  | .proceed => Looks p.1 → p.1.interrupts.nonWorkingThreads ≠ []
  | .arrive irq => ¬Exposed p.1 irq
  | _ => True

end Specification

section Invariant

variable {worker : τ → Bool} {cfg : SchedulerCfd}
  {p : InterruptRun τ δ × (Nat → Option (BitVec 32))} {r : Registration δ}
  {rest : List Statement}

/-- What the statements that are done have stored. -/
structure Progress (handler : IrqHandler τ δ) (r : Registration δ) (rest : List Statement) :
    Prop where
  inside : r.irq.toNat < irqMax
  suffix : rest <:+ Statement.all
  driver : .setDriver ∉ rest → handler.driver ≠ none
  flags : .setFlags ∉ rest → handler.flags = r.flags
  worker : .chooseWorker ∉ rest → r.flags &&& irqNoThread = 0 → handler.pWThread ≠ none

structure Sound (worker : τ → Bool) (p : InterruptRun τ δ × (Nat → Option (BitVec 32))) :
    Prop where
  sound : InterruptWaiters.Sound worker p.1
  served : ∀ irq, irq < irqMax →
    (∀ r rest, p.1.registering = some (r, rest) → r.irq.toNat ≠ irq) →
      (p.1.interrupts.irqTable irq).driver ≠ none → Served (p.1.interrupts.irqTable irq)
  recorded : ∀ irq flags, p.2 irq = some flags → irq < irqMax ∧
    (∀ r rest, p.1.registering = some (r, rest) → r.irq.toNat ≠ irq) ∧
      (p.1.interrupts.irqTable irq).driver ≠ none ∧ (p.1.interrupts.irqTable irq).flags = flags
  progress : ∀ r rest, p.1.registering = some (r, rest) →
    Progress (p.1.interrupts.irqTable r.irq.toNat) r rest

omit [DecidableEq δ] in
theorem getIRQThread_table (s : Interrupts τ δ) (driver : δ) (priority : Nat) :
    (s.getIRQThread driver priority).1.irqTable = s.irqTable := by
  unfold getIRQThread
  split <;> rfl

omit [DecidableEq δ] in
theorem getIRQThread_some {s : Interrupts τ δ} (pool : s.nonWorkingThreads ≠ []) (driver : δ)
    (priority : Nat) : (s.getIRQThread driver priority).2 ≠ none := by
  unfold getIRQThread
  cases threads : s.nonWorkingThreads with
  | nil => exact absurd threads pool
  | cons t rest =>
    dsimp only
    exact Option.some_ne_none t

/-- A statement of a registration changes its own entry only. -/
theorem perform_other (s : Interrupts τ δ) (r : Registration δ) (statement : Statement) {n : Nat}
    (other : n ≠ r.irq.toNat) : (s.perform r statement).irqTable n = s.irqTable n := by
  have stored : ∀ (s : Interrupts τ δ) handler,
      (s.setHandler r.irq.toNat handler).irqTable n = s.irqTable n := fun _ _ =>
    Function.update_of_ne other ..
  cases statement with
  | setDriver => exact stored s _
  | setPriority => exact stored s _
  | resetCount => exact stored s _
  | setFlags => exact stored s _
  | resetAssigned =>
    unfold perform
    dsimp only
    split <;> rfl
  | chooseWorker =>
    unfold perform
    dsimp only
    split
    · rw [stored, getIRQThread_table]
    · rfl
  | checkWorker =>
    unfold perform
    dsimp only
    split
    · split
      · exact stored s _
      · rfl
    · rfl

theorem last_of_check (suffix : Statement.checkWorker :: rest <:+ Statement.all) : rest = [] := by
  simpa [Statement.all, List.suffix_cons_iff] using suffix

theorem suffix_tail {statement : Statement} (suffix : statement :: rest <:+ Statement.all) :
    rest <:+ Statement.all := (List.suffix_cons statement rest).trans suffix

/-- A statement of a registration that finds a worker thread when it looks for one. -/
theorem Progress.perform {s : Interrupts τ δ} {statement : Statement}
    (progress : Progress (s.irqTable r.irq.toNat) r (statement :: rest))
    (found : statement = .chooseWorker → r.flags &&& irqNoThread = 0 → s.nonWorkingThreads ≠ []) :
    Progress ((s.perform r statement).irqTable r.irq.toNat) r rest := by
  obtain ⟨inside, suffix, driver, flags, worker⟩ := progress
  have stored : ∀ (s : Interrupts τ δ) handler,
      (s.setHandler r.irq.toNat handler).irqTable r.irq.toNat = handler := fun _ _ =>
    Function.update_self ..
  have later : ∀ st, st ≠ statement → st ∉ rest → st ∉ statement :: rest := fun st other absent =>
    List.not_mem_cons_of_ne_of_not_mem other absent
  cases statement with
  | setDriver =>
    rw [Interrupts.perform, stored]
    exact ⟨inside, suffix_tail suffix, fun _ => Option.some_ne_none r.driver,
      fun absent => flags (later _ (by decide) absent),
      fun absent => worker (later _ (by decide) absent)⟩
  | setPriority =>
    rw [Interrupts.perform, stored]
    exact ⟨inside, suffix_tail suffix, fun absent => driver (later _ (by decide) absent),
      fun absent => flags (later _ (by decide) absent),
      fun absent => worker (later _ (by decide) absent)⟩
  | resetCount =>
    rw [Interrupts.perform, stored]
    exact ⟨inside, suffix_tail suffix, fun absent => driver (later _ (by decide) absent),
      fun absent => flags (later _ (by decide) absent),
      fun absent => worker (later _ (by decide) absent)⟩
  | setFlags =>
    rw [Interrupts.perform, stored]
    exact ⟨inside, suffix_tail suffix, fun absent => driver (later _ (by decide) absent),
      fun _ => rfl, fun absent => worker (later _ (by decide) absent)⟩
  | resetAssigned =>
    have same : (s.perform r .resetAssigned).irqTable = s.irqTable := by
      unfold Interrupts.perform
      dsimp only
      split <;> rfl
    rw [same]
    exact ⟨inside, suffix_tail suffix, fun absent => driver (later _ (by decide) absent),
      fun absent => flags (later _ (by decide) absent),
      fun absent => worker (later _ (by decide) absent)⟩
  | chooseWorker =>
    unfold Interrupts.perform
    dsimp only
    by_cases needed : r.flags &&& irqNoThread = 0
    · rw [if_pos needed, stored, getIRQThread_table]
      exact ⟨inside, suffix_tail suffix, fun absent => driver (later _ (by decide) absent),
        fun absent => flags (later _ (by decide) absent),
        fun _ _ => getIRQThread_some (found rfl needed) _ _⟩
    · rw [if_neg needed]
      exact ⟨inside, suffix_tail suffix, fun absent => driver (later _ (by decide) absent),
        fun absent => flags (later _ (by decide) absent), fun _ none => absurd none needed⟩
  | checkWorker =>
    have last := last_of_check suffix
    have assigned : r.flags &&& irqNoThread = 0 →
        (s.irqTable r.irq.toNat).pWThread ≠ none := worker (by rw [last]; decide)
    have same : (s.perform r .checkWorker).irqTable = s.irqTable := by
      unfold Interrupts.perform
      dsimp only
      split
      case isTrue needed =>
        split
        case h_1 none => exact absurd none (assigned needed)
        case h_2 => rfl
      case isFalse => rfl
    rw [same]
    exact ⟨inside, suffix_tail suffix, fun absent => driver (later _ (by decide) absent),
      fun absent => flags (later _ (by decide) absent), fun _ => assigned⟩

omit [DecidableEq τ] [DecidableEq δ] in
/-- A registration that is complete. -/
theorem Progress.complete {handler : IrqHandler τ δ} (progress : Progress handler r []) :
    handler.driver ≠ none ∧ handler.flags = r.flags ∧ Served handler := by
  have flags := progress.flags (by decide)
  refine ⟨progress.driver (by decide), flags, fun unset => ?_⟩
  rw [flags] at unset
  exact progress.worker (by decide) unset

theorem callHandler_handling {s : Interrupts τ δ} {fuel irq : Nat}
    {handled : Interrupts τ δ × Handling τ δ}
    (ran : s.callHandler cfg fuel irq = some handled) :
    (handled.2 = .nullThread → (s.irqTable irq).driver ≠ none ∧ ¬Served (s.irqTable irq)) ∧
      ((s.irqTable irq).driver ≠ none → (s.irqTable irq).flags &&& irqNoThread ≠ 0 →
        ∃ driver, handled.2 = .direct driver) := by
  unfold callHandler at ran
  split at ran
  case h_1 none =>
    rw [← Option.some.inj ran]
    exact ⟨fun other => (by cases other), fun registered => absurd none registered⟩
  case h_2 driver found =>
    split at ran
    case isTrue flag =>
      rw [← Option.some.inj ran]
      exact ⟨fun other => (by cases other), fun _ _ => ⟨driver, rfl⟩⟩
    case isFalse unset =>
      rw [ne_eq, Decidable.not_not] at unset
      refine ⟨fun null => ?_, fun _ flag => absurd unset flag⟩
      split at ran
      · rw [← Option.some.inj ran] at null
        cases null
      · split at ran
        case h_1 missing =>
          rw [found]
          exact ⟨Option.some_ne_none driver, fun served => served unset missing⟩
        case h_2 =>
          obtain ⟨s', _, rfl⟩ := Option.map_eq_some_iff.mp ran
          cases null

/-- What becomes of an interrupt, by its entry. -/
theorem handling_of [Fintype τ] {s : Interrupts τ δ} {waiting : τ → Option (BitVec 32)}
    (lists : InterruptWaiters.Lists s waiting) {irq : BitVec 32}
    {handled : Interrupts τ δ × Handling τ δ}
    (ran : s.handleInterruptIRQ cfg (Fintype.card τ) irq = some handled) :
    (handled.2 = .nullThread → irq.toNat < irqMax ∧ (s.irqTable irq.toNat).driver ≠ none ∧
      ¬Served (s.irqTable irq.toNat)) ∧
      (irq.toNat < irqMax → (s.irqTable irq.toNat).driver ≠ none →
        (s.irqTable irq.toNat).flags &&& irqNoThread ≠ 0 →
          ∃ driver, handled.2 = .direct driver) := by
  by_cases inside : irq.toNat < irqMax
  · rw [InterruptWaiters.handleInterruptIRQ_eq lists inside] at ran
    obtain ⟨driver, flags, thread⟩ := InterruptWaiters.count_entry s irq irq.toNat
    have handling := callHandler_handling ran
    rw [Served, driver, flags, thread] at handling
    exact ⟨fun null => ⟨inside, handling.1 null⟩, fun _ => handling.2⟩
  · rw [Interrupts.handleInterruptIRQ, if_pos (Nat.not_lt.mp inside)] at ran
    rw [← Option.some.inj ran]
    exact ⟨fun other => (by cases other), fun within => absurd within inside⟩

/-- An interrupt whose entry is not exposed is handled well. -/
theorem Sound.handled [Fintype τ] (sound : Sound worker p) {irq : BitVec 32}
    (covered : ¬Exposed p.1 irq) : ∃ handled,
      p.1.interrupts.handleInterruptIRQ cfg (Fintype.card τ) irq = some handled ∧
        HandledWell p irq handled.2 := by
  obtain ⟨handled, ran, _⟩ := InterruptWaiters.handleInterruptIRQ_sound cfg sound.sound.lists
    sound.sound.roles irq
  obtain ⟨null, direct⟩ := handling_of sound.sound.lists ran
  refine ⟨handled, ran, fun follows => ?_, fun flags recorded flag => ?_⟩
  · obtain ⟨inside, driver, unserved⟩ := null follows
    rw [Served] at unserved
    push Not at unserved
    by_cases busy : ∃ r rest, p.1.registering = some (r, rest) ∧ r.irq.toNat = irq.toNat
    · obtain ⟨r, rest, registering, same⟩ := busy
      apply covered
      refine ⟨?_, Option.ne_none_iff_isSome.mp driver, unserved.1,
        Option.isNone_iff_eq_none.mpr unserved.2⟩
      rw [registering, Option.map_some, BitVec.eq_of_toNat_eq same]
    · push Not at busy
      exact sound.served irq.toNat inside busy driver unserved.1 unserved.2
  · obtain ⟨inside, _, driver, same⟩ := sound.recorded irq.toNat flags recorded
    rw [← same] at flag
    exact direct inside driver flag

omit [DecidableEq τ] [DecidableEq δ] in
/-- The entries of the table are as before, and no registration proceeds. -/
theorem Sound.keep {s : InterruptRun τ δ} (sound : Sound worker p)
    (after : InterruptWaiters.Sound worker s) (registering : s.registering = p.1.registering)
    (entries : ∀ n, InterruptWaiters.SameEntry (p.1.interrupts.irqTable n)
      (s.interrupts.irqTable n)) : Sound worker (s, p.2) := by
  refine ⟨after, fun irq inside => ?_, fun irq flags recorded => ?_, fun r rest busy => ?_⟩
  · obtain ⟨driver, flags, thread⟩ := entries irq
    dsimp only
    rw [registering, Served, driver, flags, thread]
    exact sound.served irq inside
  · obtain ⟨driver, same, _⟩ := entries irq
    dsimp only
    rw [registering, driver, same]
    exact sound.recorded irq flags recorded
  · dsimp only at busy ⊢
    rw [registering] at busy
    obtain ⟨driver, flags, thread⟩ := entries r.irq.toNat
    obtain ⟨inside, suffix, first, second, third⟩ := sound.progress r rest busy
    refine ⟨inside, suffix, ?_, ?_, ?_⟩
    · rw [driver]
      exact first
    · rw [flags]
      exact second
    · rw [thread]
      exact third

section Steps

variable {fuel : Nat} {s s' : InterruptRun τ δ} {t : τ} {irq : BitVec 32}

/-- The registration under way and the entries of the table are those of before. -/
def Quiet (s s' : InterruptRun τ δ) : Prop :=
  s'.registering = s.registering ∧ ∀ n, InterruptWaiters.SameEntry (s.interrupts.irqTable n)
    (s'.interrupts.irqTable n)

omit [DecidableEq τ] [DecidableEq δ] in
theorem quiet_of_table (registering : s'.registering = s.registering)
    (table : s'.interrupts.irqTable = s.interrupts.irqTable) : Quiet s s' := by
  refine ⟨registering, fun n => ?_⟩
  rw [table]
  exact ⟨rfl, rfl, rfl⟩

omit [DecidableEq δ] in
theorem startWaiting_table (s : Interrupts τ δ) (t : τ) (irq : BitVec 32) :
    (s.startWaiting t irq).1.irqTable = s.irqTable := by
  unfold startWaiting Interrupts.waitIRQ
  split
  · rfl
  · split <;> rfl

theorem startWaiting_quiet
    (ran : s.step cfg fuel worker (.startWaiting t irq) = some s') : Quiet s s' := by
  unfold InterruptRun.step at ran
  dsimp only at ran
  split at ran
  case isTrue =>
    rw [← Option.some.inj ran]
    exact quiet_of_table rfl rfl
  case isFalse =>
    have table := startWaiting_table s.interrupts t irq
    split at ran
    case h_1 interrupts started =>
      rw [started] at table
      rw [← Option.some.inj ran]
      exact quiet_of_table rfl table
    case h_2 interrupts code started =>
      rw [started] at table
      rw [← Option.some.inj ran]
      exact quiet_of_table rfl table

theorem block_quiet (ran : s.step cfg fuel worker (.block t) = some s') : Quiet s s' := by
  unfold InterruptRun.step at ran
  dsimp only at ran
  split at ran
  · rw [← Option.some.inj ran]
    exact quiet_of_table rfl rfl
  · rw [← Option.some.inj ran]
    exact quiet_of_table rfl rfl

theorem finish_quiet (ran : s.step cfg fuel worker (.finish t) = some s') : Quiet s s' := by
  unfold InterruptRun.step at ran
  dsimp only at ran
  split at ran
  · rw [← Option.some.inj ran]
    refine quiet_of_table rfl ?_
    unfold finish
    split <;> rfl
  · rw [← Option.some.inj ran]
    exact quiet_of_table rfl rfl

omit [DecidableEq τ] [DecidableEq δ] in
/-- A registration begins. -/
theorem Sound.register (sound : Sound worker p) (idle : p.1.registering = none)
    (inside : r.irq.toNat < irqMax)
    (after : InterruptWaiters.Sound worker { p.1 with registering := some (r, Statement.all) }) :
    Sound worker ({ p.1 with registering := some (r, Statement.all) },
      Function.update p.2 r.irq.toNat none) := by
  refine ⟨after, fun irq within others driver => ?_, fun irq flags recorded => ?_,
    fun r' rest busy => ?_⟩
  · refine sound.served irq within (fun r' rest busy => ?_) driver
    rw [idle] at busy
    cases busy
  · by_cases same : irq = r.irq.toNat
    · dsimp only at recorded
      rw [same, Function.update_self] at recorded
      cases recorded
    · dsimp only at recorded
      rw [Function.update_of_ne same] at recorded
      obtain ⟨within, _, driver, stored⟩ := sound.recorded irq flags recorded
      refine ⟨within, fun r' rest busy => ?_, driver, stored⟩
      obtain ⟨rfl, _⟩ := Prod.mk.inj (Option.some.inj busy)
      exact Ne.symm same
  · obtain ⟨rfl, rfl⟩ := Prod.mk.inj (Option.some.inj busy)
    exact ⟨inside, List.suffix_rfl, fun absent => absurd absent (by decide),
      fun absent => absurd absent (by decide), fun absent => absurd absent (by decide)⟩

/-- A registration proceeds, to its end when nothing is left. -/
theorem Sound.proceed {statement : Statement} (sound : Sound worker p)
    (busy : p.1.registering = some (r, statement :: rest)) (fits : Fits p .proceed)
    {s : InterruptRun τ δ} (after : InterruptWaiters.Sound worker s)
    (interrupts : s.interrupts = p.1.interrupts.perform r statement)
    (registering : s.registering = if rest = [] then none else some (r, rest)) :
    Sound worker (s, recordAfter p.1 p.2 .proceed) := by
  have found : statement = .chooseWorker → r.flags &&& irqNoThread = 0 →
      p.1.interrupts.nonWorkingThreads ≠ [] := by
    rintro rfl needed
    apply fits
    rw [Looks, busy]
    exact needed
  have progress := (sound.progress r _ busy).perform found
  have elsewhere : ∀ n, n ≠ r.irq.toNat →
      s.interrupts.irqTable n = p.1.interrupts.irqTable n := fun n other => by
    rw [interrupts]
    exact perform_other _ r statement other
  rw [← interrupts] at progress
  have others : ∀ irq, irq ≠ r.irq.toNat →
      ∀ r' rest', p.1.registering = some (r', rest') → r'.irq.toNat ≠ irq := by
    intro irq other r' rest' same
    rw [busy] at same
    obtain ⟨rfl, _⟩ := Prod.mk.inj (Option.some.inj same)
    exact Ne.symm other
  cases rest with
  | nil =>
    obtain ⟨driver, flags, served⟩ := progress.complete
    rw [if_pos rfl] at registering
    have free : ∀ irq r' rest', s.registering = some (r', rest') → r'.irq.toNat ≠ irq := by
      intro irq r' rest' same
      rw [registering] at same
      cases same
    have recordAfter_eq : recordAfter p.1 p.2 .proceed =
        Function.update p.2 r.irq.toNat (some r.flags) := by
      rw [recordAfter, busy]
    rw [recordAfter_eq]
    refine ⟨after, fun irq inside _ present => ?_, fun irq flags' recorded => ?_,
      fun r' rest' same => absurd rfl (free _ r' rest' same)⟩
    · by_cases same : irq = r.irq.toNat
      · rw [same]
        exact served
      · dsimp only at present ⊢
        rw [elsewhere irq same] at present ⊢
        exact sound.served irq inside (others irq same) present
    · by_cases same : irq = r.irq.toNat
      · dsimp only at recorded
        rw [same, Function.update_self] at recorded
        rw [same, ← Option.some.inj recorded]
        exact ⟨progress.inside, free _, driver, flags⟩
      · dsimp only at recorded ⊢
        rw [Function.update_of_ne same] at recorded
        obtain ⟨inside, _, stored⟩ := sound.recorded irq flags' recorded
        rw [elsewhere irq same]
        exact ⟨inside, free irq, stored⟩
  | cons next later =>
    rw [if_neg (List.cons_ne_nil next later)] at registering
    have recordAfter_eq : recordAfter p.1 p.2 .proceed = p.2 := by
      rw [recordAfter, busy]
    rw [recordAfter_eq]
    refine ⟨after, fun irq inside distinct present => ?_, fun irq flags recorded => ?_,
      fun r' rest' same => ?_⟩
    · have other : irq ≠ r.irq.toNat := Ne.symm (distinct r _ registering)
      dsimp only at present ⊢
      rw [elsewhere irq other] at present ⊢
      exact sound.served irq inside (others irq other) present
    · obtain ⟨inside, distinct, stored⟩ := sound.recorded irq flags recorded
      have other : irq ≠ r.irq.toNat := Ne.symm (distinct r _ busy)
      dsimp only
      rw [elsewhere irq other]
      refine ⟨inside, fun r' rest' same => ?_, stored⟩
      rw [registering] at same
      obtain ⟨rfl, _⟩ := Prod.mk.inj (Option.some.inj same)
      exact Ne.symm other
    · dsimp only at same ⊢
      rw [registering] at same
      obtain ⟨rfl, rfl⟩ := Prod.mk.inj (Option.some.inj same)
      exact progress

omit [DecidableEq τ] [DecidableEq δ] in
/-- An entry is cleared. -/
theorem Sound.unregister (sound : Sound worker p) (idle : p.1.registering = none) {n : Nat}
    {s : InterruptRun τ δ} (after : InterruptWaiters.Sound worker s)
    (registering : s.registering = p.1.registering)
    (interrupts : s.interrupts = p.1.interrupts.setHandler n .clear) :
    Sound worker (s, Function.update p.2 n none) := by
  have cleared : s.interrupts.irqTable n = .clear := by
    rw [interrupts]
    exact Function.update_self ..
  have elsewhere : ∀ m, m ≠ n → s.interrupts.irqTable m = p.1.interrupts.irqTable m := by
    intro m other
    rw [interrupts]
    exact Function.update_of_ne other ..
  refine ⟨after, fun irq inside distinct present => ?_, fun irq flags recorded => ?_,
    fun r' rest' same => ?_⟩
  · by_cases same : irq = n
    · dsimp only at present
      rw [same, cleared] at present
      exact absurd rfl present
    · dsimp only at present distinct ⊢
      rw [registering] at distinct
      rw [elsewhere irq same] at present ⊢
      exact sound.served irq inside distinct present
  · by_cases same : irq = n
    · dsimp only at recorded
      rw [same, Function.update_self] at recorded
      cases recorded
    · dsimp only at recorded ⊢
      rw [Function.update_of_ne same] at recorded
      rw [elsewhere irq same, registering]
      exact sound.recorded irq flags recorded
  · dsimp only at same
    rw [registering, idle] at same
    cases same

/-- Each step succeeds and keeps what was sound. -/
theorem Sound.step [Fintype τ] (sound : Sound worker p) (op : InterruptRun.Op τ δ)
    (fits : Fits p op) : ∃ p', step cfg (Fintype.card τ) worker p op = some p' ∧
      Sound worker p' := by
  obtain ⟨s, ran, after⟩ := sound.sound.step cfg op
  refine ⟨(s, recordAfter p.1 p.2 op), by rw [InterruptWorkers.step, ran]; rfl, ?_⟩
  cases op with
  | startWaiting t irq =>
    obtain ⟨registering, entries⟩ := startWaiting_quiet ran
    exact sound.keep after registering entries
  | block t =>
    obtain ⟨registering, entries⟩ := block_quiet ran
    exact sound.keep after registering entries
  | finish t =>
    obtain ⟨registering, entries⟩ := finish_quiet ran
    exact sound.keep after registering entries
  | arrive irq =>
    obtain ⟨handled, returned, _, _, entries⟩ :=
      InterruptWaiters.handleInterruptIRQ_sound cfg sound.sound.lists sound.sound.roles irq
    rw [InterruptRun.step, returned] at ran
    have same : s = { p.1 with interrupts := handled.1 } := (Option.some.inj ran).symm
    refine sound.keep after ?_ fun n => ?_
    · rw [same]
    · rw [same]
      exact entries n
  | register registration =>
    unfold InterruptRun.step at ran
    unfold recordAfter
    dsimp only at ran ⊢
    by_cases refused : (p.1.registering.isSome || decide (irqMax < registration.irq.toNat)) = true
    · rw [if_pos refused] at ran ⊢
      rw [← Option.some.inj ran]
      exact sound
    · rw [if_neg refused] at ran ⊢
      rw [← Option.some.inj ran] at after ⊢
      simp only [Bool.or_eq_true, decide_eq_true_eq, not_or, Bool.not_eq_true,
        Option.isSome_eq_false_iff, Option.isNone_iff_eq_none] at refused
      exact sound.register refused.1
        ((InterruptWaiters.inTable_of_checked refused.2).mpr fits) after
  | proceed =>
    cases busy : p.1.registering with
    | none =>
      have idle : s = p.1 ∧ recordAfter p.1 p.2 .proceed = p.2 := by
        rw [InterruptRun.step, busy] at ran
        rw [recordAfter, busy]
        exact ⟨(Option.some.inj ran).symm, rfl⟩
      rw [idle.1, idle.2]
      exact sound
    | some call =>
      obtain ⟨registration, statements⟩ := call
      cases statements with
      | nil =>
        have idle : s = p.1 ∧ recordAfter p.1 p.2 .proceed = p.2 := by
          rw [InterruptRun.step, busy] at ran
          rw [recordAfter, busy]
          exact ⟨(Option.some.inj ran).symm, rfl⟩
        rw [idle.1, idle.2]
        exact sound
      | cons statement rest =>
        rw [InterruptRun.step, busy] at ran
        have same := Option.some.inj ran
        exact sound.proceed busy fits after (by rw [← same]) (by rw [← same])
  | unregister irq =>
    unfold InterruptRun.step at ran
    unfold recordAfter
    dsimp only at ran ⊢
    by_cases busy : p.1.registering.isSome = true
    · rw [if_pos busy] at ran
      rw [← Option.some.inj ran, busy]
      exact sound
    · rw [if_neg busy] at ran
      have same := Option.some.inj ran
      by_cases outside : irqMax < irq.toNat
      · have unchanged : s = p.1 := by
          rw [← same, unregisterIRQ, if_pos outside]
        rw [unchanged, decide_eq_true outside, Bool.or_true]
        exact sound
      · rw [Bool.not_eq_true] at busy
        rw [busy, decide_eq_false outside]
        refine sound.unregister ?_ after (by rw [← same]) ?_
        · simpa using busy
        · rw [← same, unregisterIRQ, if_neg outside]

end Steps

end Invariant

section Runs

/-- Nothing is registered. -/
def start (threads : τ → Thread) (drivers : δ → Driver) (workers : List τ) :
    InterruptRun τ δ × (Nat → Option (BitVec 32)) :=
  (InterruptRun.start threads drivers workers, fun _ => none)

omit [DecidableEq δ] in
theorem sound_start (threads : τ → Thread) (drivers : δ → Driver) (workers : List τ) :
    Sound (fun t => decide (t ∈ workers)) (start threads drivers workers) := by
  have blocked : ∀ (rest : List τ) (s : Interrupts τ δ),
      (rest.foldl Interrupts.block s).irqTable = s.irqTable := by
    intro rest
    induction rest with
    | nil => exact fun s => rfl
    | cons t rest ih => exact fun s => ih (s.block t)
  refine ⟨InterruptWaiters.sound_start threads drivers workers, fun irq _ _ present => ?_,
    fun irq flags none => (by cases none), fun r rest none => (by cases none)⟩
  unfold start InterruptRun.start at present
  dsimp only at present
  rw [blocked] at present
  exact absurd rfl present

/-- While each registration that needs a worker thread finds one, numbers are those of the
table and no interrupt arrives for an exposed entry, every interrupt that is registered
without the flag has a worker thread, and whichever interrupt arrives next, exposed ones
apart, is handled well. -/
theorem workers_assigned [Fintype τ] (cfg : SchedulerCfd) (threads : τ → Thread)
    (drivers : δ → Driver) (workers : List τ) (ops : List (InterruptRun.Op τ δ))
    (fits : AdmissibleM (step cfg (Fintype.card τ) fun t => decide (t ∈ workers)) Fits
      (start threads drivers workers) ops) :
    ∃ p, ops.foldlM (step cfg (Fintype.card τ) fun t => decide (t ∈ workers))
        (start threads drivers workers) = some p ∧ AllServed p ∧
      ∀ irq, ¬Exposed p.1 irq → ∃ handled,
        p.1.interrupts.handleInterruptIRQ cfg (Fintype.card τ) irq = some handled ∧
          HandledWell p irq handled.2 := by
  obtain ⟨p, ran, sound⟩ := foldlM_invariant _ (fun _ op sound fits => sound.step op fits) ops _
    (sound_start threads drivers workers) fits
  refine ⟨p, ran, fun irq flags recorded => ?_, fun irq covered => sound.handled covered⟩
  obtain ⟨inside, free, driver, _⟩ := sound.recorded irq flags recorded
  exact sound.served irq inside free driver

instance exposed_decidable (s : InterruptRun τ δ) (irq : BitVec 32) : Decidable (Exposed s irq) :=
  inferInstanceAs (Decidable (_ ∧ _ ∧ _ ∧ _))

instance looks_decidable (s : InterruptRun τ δ) : Decidable (Looks s) :=
  have (o : Option (Registration δ × List Statement)) : Decidable (match o with
      | some (r, .chooseWorker :: _) => r.flags &&& irqNoThread = 0
      | _ => False) :=
    match o with
    | some (r, .chooseWorker :: _) => inferInstanceAs (Decidable (r.flags &&& irqNoThread = 0))
    | none | some (_, []) | some (_, .setDriver :: _) | some (_, .setPriority :: _)
    | some (_, .resetCount :: _) | some (_, .setFlags :: _) | some (_, .resetAssigned :: _)
    | some (_, .checkWorker :: _) => .isFalse id
  this s.registering

instance fits_decidable (p : InterruptRun τ δ × (Nat → Option (BitVec 32))) :
    ∀ op, Decidable (Fits p op)
  | .register r => inferInstanceAs (Decidable (r.irq ≠ 256))
  | .proceed => inferInstanceAs (Decidable (Looks p.1 → p.1.interrupts.nonWorkingThreads ≠ []))
  | .arrive irq => inferInstanceAs (Decidable ¬Exposed p.1 irq)
  | .startWaiting .. | .block _ | .unregister _ | .finish _ => .isTrue trivial

/-- A registration of interrupt five with these flags, to its end. -/
def registerFive (flags : BitVec 32) : List (InterruptRun.Op (Fin 2) Unit) :=
  .register ⟨5, (), 10, flags⟩ :: Statement.all.map fun _ => .proceed

/-- The interrupt arrives, and its job is done. -/
def serveFive : List (InterruptRun.Op (Fin 2) Unit) :=
  registerFive 0 ++ [.arrive 5, .finish (Fin.last 1)]

def freshStart (workers : List (Fin 2)) :
    InterruptRun (Fin 2) Unit × (Nat → Option (BitVec 32)) :=
  start (fun _ => Thread.create 1 0 1 none) (fun _ => ⟨false, false⟩) workers

/-- An interrupt is registered with a worker thread and arrives. -/
theorem workers_assigned_five : ∃ p,
    serveFive.foldlM (step .rateMonotonic 2 fun t => decide (t ∈ [Fin.last 1]))
        (freshStart [Fin.last 1]) = some p ∧ AllServed p ∧ ∃ handled,
      p.1.interrupts.handleInterruptIRQ .rateMonotonic 2 5 = some handled ∧
        HandledWell p 5 handled.2 := by
  obtain ⟨p, ran, served, well⟩ := workers_assigned .rateMonotonic
    (fun _ : Fin 2 => Thread.create 1 0 1 none) (fun _ : Unit => ⟨false, false⟩) [Fin.last 1]
    serveFive (by decide +kernel)
  have covered : (serveFive.foldlM (step .rateMonotonic 2 fun t => decide (t ∈ [Fin.last 1]))
      (freshStart [Fin.last 1])).map (fun p => decide (Exposed p.1 5)) = some false := by
    decide +kernel
  have returned : serveFive.foldlM (step .rateMonotonic 2 fun t => decide (t ∈ [Fin.last 1]))
      (freshStart [Fin.last 1]) = some p := ran
  rw [returned, Option.map_some, Option.some.injEq] at covered
  exact ⟨p, returned, served, well 5 (of_decide_eq_false covered)⟩

/-- No worker thread is left for interrupt five, and its arrival follows a null pointer. -/
theorem missing_worker_followed : ∃ p handled,
    (registerFive 0).foldlM (step .rateMonotonic 2 fun _ => false) (freshStart []) = some p ∧
      ¬AllServed p ∧
        p.1.interrupts.handleInterruptIRQ .rateMonotonic 2 5 = some handled ∧
          handled.2 = .nullThread := by
  have followed : (((registerFive 0).foldlM (step .rateMonotonic 2 fun _ => false)
      (freshStart [])).bind fun p =>
        (p.1.interrupts.handleInterruptIRQ .rateMonotonic 2 5).map fun handled =>
          decide (p.2 5 = some 0 ∧ (p.1.interrupts.irqTable 5).flags = 0 ∧
            (p.1.interrupts.irqTable 5).pWThread = none) && match handled.2 with
              | .nullThread => true
              | _ => false) = some true := by decide +kernel
  obtain ⟨p, ran, rest⟩ := Option.bind_eq_some_iff.mp followed
  obtain ⟨handled, returned, facts⟩ := Option.map_eq_some_iff.mp rest
  obtain ⟨entry, null⟩ := (Bool.and_eq_true ..).mp facts
  obtain ⟨recorded, unset, missing⟩ := of_decide_eq_true entry
  refine ⟨p, handled, ran, fun served => ?_, returned, ?_⟩
  · refine served 5 0 recorded ?_ missing
    rw [unset]
    decide
  · split at null
    case h_1 follows => exact follows
    case h_2 => cases null

end Runs

end Orcos.Guarantees.InterruptWorkers
