import Orcos.Lib.Runs
import Orcos.Source.Comm.Socket

/-!
# Wake-ups of threads that wait on a socket

Source: src/source/comm/Socket.cc, `recvfrom`, `addMessage`, `listen`, `accepted`,
`connect`, `connected`; src/source/process/Thread.cc, `block`, `unblock`.

A thread enters itself in `blockedThread` first and blocks later, without the lock. In
between `unblock` has no effect on it, or clears the flag that `block` has just set, and the
thread then sleeps where no later `unblock` finds it blocked. And a thread that goes on clears
`blockedThread` whoever is in it.
-/
namespace Orcos.Guarantees.WakeUps
open Source Source.Comm Lib.Runs

variable {τ : Type}

/-- There is what a call waits for: a buffered message, a pending connection, the answer of
the transport protocol. -/
def Available (s : Socket τ) : Call → Prop
  | .recvfrom => s.messageBuffer.hasData = true
  | .listen => s.connections ≠ 0
  | .connect => s.answered = true

/-- The network thread is about to unblock a thread. -/
def Woken (s : Socket τ) (thread : τ) : Prop :=
  s.network.thread = some thread ∨ s.network = .answering ∧ s.blockedThread = some thread

/-- No thread is blocked while there is what it waits for, unless it is about to be
unblocked; and that helps a thread whose flag is not set only behind the test for it. -/
structure NoneLost (s : Socket τ) : Prop where
  asleep : ∀ thread call, s.place thread = .asleep call → Available s call → Woken s thread
  stranded : ∀ thread call, s.place thread = .stranded call → Available s call →
    ∃ clears, s.network = .unblocking thread clears

/-- A thread sleeps without its flag, or is about to. -/
def Unflagged : Place → Prop
  | .unflagged _ => True
  | .stranded _ => True
  | _ => False

/-- A thread relies on being in `blockedThread`. -/
def Waits : Place → Prop
  | .registered => True
  | .committed _ => True
  | .flagged _ => True
  | .unflagged _ => True
  | .asleep _ => True
  | .stranded _ => True
  | _ => False

/-- Nobody who relies on it is in `blockedThread`. -/
def Unneeded (s : Socket τ) : Prop :=
  ∀ thread, s.blockedThread = some thread → ¬Waits (s.place thread)

/-- A thread that is on its way to block misses nothing when it is not unblocked: it is still
in `blockedThread` and, about to block, has nothing to get. -/
def Unaware (s : Socket τ) (thread : τ) : Prop :=
  (s.place thread = .registered → s.blockedThread = some thread) ∧
    ∀ call, s.place thread = .committed call → s.blockedThread = some thread ∧ ¬Available s call

/-- A thread is not unblocked between its entry in `blockedThread` and its blocking, unless
it is entered again and has nothing to get, and its flag is not cleared between `block` and
the dispatcher; `blockedThread` is cleared and overwritten only when the thread in it does not
rely on it; and the protocol does not answer `connect` before the thread is entered. -/
def Timely (s : Socket τ) : Step τ → Prop
  | .isBlocked => ∀ thread clears, s.network = .waking thread clears → Unaware s thread
  | .unblock => ∀ thread clears, s.network = .unblocking thread clears →
      Unaware s thread ∧ ∀ call, s.place thread ≠ .flagged call
  | .expire => ∀ thread, s.expired = some thread → ∀ call, s.place thread ≠ .flagged call
  | .resume thread => s.place thread ≠ .awake .listen → (∃ call, s.place thread = .awake call) →
      Unneeded s
  | .leave thread _ => (∃ newConn, s.place thread = .leaving newConn) → Unneeded s
  | .register thread => s.place thread = .starting → Unneeded s ∧ s.answered = false
  | .clear => s.network = .clearing → Unneeded s
  | _ => True

/-- Where a thread is that will block, or has, for a call. -/
inductive Blocks : Place → Call → Prop
  | committed (call : Call) : Blocks (.committed call) call
  | flagged (call : Call) : Blocks (.flagged call) call
  | asleep (call : Call) : Blocks (.asleep call) call

/-- Threads that rely on it are in `blockedThread` or about to be unblocked; and the second
when there is what they wait for. None sleeps without its flag. -/
structure Sound (s : Socket τ) : Prop where
  entered : ∀ thread, Waits (s.place thread) →
    s.blockedThread = some thread ∨ s.network.thread = some thread
  woken : ∀ thread call, Blocks (s.place thread) call → Available s call → Woken s thread
  flagged : ∀ thread, ¬Unflagged (s.place thread)

variable {s s' : Socket τ} {thread : τ} {call : Call}

theorem Blocks.waits {place : Place} (blocks : Blocks place call) : Waits place := by
  cases blocks <;> trivial

theorem Unflagged.waits {place : Place} (unflagged : Unflagged place) : Waits place := by
  cases place <;> trivial

/-- Between two callbacks no thread is blocked for nothing. -/
theorem NoneLost.idle (noneLost : NoneLost s) (idle : s.network = .idle) (thread : τ) (call : Call)
    (blocked : s.place thread = .asleep call ∨ s.place thread = .stranded call) :
    ¬Available s call := by
  intro available
  rcases blocked with asleep | stranded
  · rcases noneLost.asleep thread call asleep available with waking | ⟨answering, _⟩
    · rw [idle] at waking
      cases waking
    · rw [idle] at answering
      cases answering
  · obtain ⟨clears, unblocking⟩ := noneLost.stranded thread call stranded available
    rw [idle] at unblocking
    cases unblocking

theorem Sound.noneLost (sound : Sound s) : NoneLost s := by
  constructor
  · intro thread call asleep
    apply sound.woken thread call
    rw [asleep]
    exact .asleep call
  · intro thread call stranded
    apply absurd (sound.flagged thread)
    rw [stranded]
    exact not_not_intro trivial

/-- While nobody is about to be unblocked, whoever relies on it is in `blockedThread`. -/
theorem Sound.listed (sound : Sound s) (quiet : s.network.thread = none)
    (waits : Waits (s.place thread)) : s.blockedThread = some thread := by
  rcases sound.entered thread waits with entered | waking
  · exact entered
  · rw [quiet] at waking
    cases waking

/-- A step of one thread: it may change its own place, and `blockedThread` when nobody else
relies on that. -/
theorem Sound.move (sound : Sound s) (thread : τ)
    (others : ∀ u, u ≠ thread → s'.place u = s.place u) (network : s'.network = s.network)
    (less : ∀ call, Available s' call → Available s call)
    (free : s'.blockedThread = s.blockedThread ∨ Unneeded s)
    (entered : Waits (s'.place thread) →
      s'.blockedThread = some thread ∨ s'.network.thread = some thread)
    (woken : ∀ call, Blocks (s'.place thread) call → Available s' call → Woken s' thread)
    (flagged : ¬Unflagged (s'.place thread)) : Sound s' := by
  have stays : ∀ u, Waits (s.place u) → s.blockedThread = some u →
      s'.blockedThread = some u := by
    intro u waits inside
    rcases free with same | unneeded
    · rw [same, inside]
    · exact absurd waits (unneeded u inside)
  constructor
  · intro u waits
    by_cases own : u = thread
    · subst own
      exact entered waits
    · rw [others u own] at waits
      rw [network]
      exact (sound.entered u waits).imp_left (stays u waits)
  · intro u call blocks available
    by_cases own : u = thread
    · subst own
      exact woken call blocks available
    · rw [others u own] at blocks
      unfold Woken
      rw [network]
      exact (sound.woken u call blocks (less call available)).imp_right
        fun both => ⟨both.1, stays u blocks.waits both.2⟩
  · intro u
    by_cases own : u = thread
    · rwa [own]
    · rw [others u own]
      exact sound.flagged u

/-- A step of the network thread while nobody is about to be unblocked. -/
theorem Sound.deliver (sound : Sound s) (quiet : s.network.thread = none)
    (places : s'.place = s.place)
    (woken : ∀ thread, s.blockedThread = some thread → Woken s' thread)
    (entered : ∀ thread, s.blockedThread = some thread →
      s'.blockedThread = some thread ∨ s'.network.thread = some thread) :
    Sound s' := by
  constructor
  · intro thread waits
    rw [places] at waits
    exact entered thread (sound.listed quiet waits)
  · intro thread call blocks _
    rw [places] at blocks
    exact woken thread (sound.listed quiet blocks.waits)
  · rw [places]
    exact sound.flagged

/-- Where else the network thread is, nobody is about to be unblocked. -/
theorem quiet_of_eq {network : Network τ} (known : s.network = network)
    (quiet : network.thread = none) : s.network.thread = none := by rw [known, quiet]

theorem Sound.tcpRecv (sound : Sound s) (idle : s.network = .idle) (p : PBuf) :
    Sound (s.tcpRecvWrapper p) := by
  have woken : ∀ thread, s.blockedThread = some thread →
      (s.tcpRecvWrapper p).network.thread = some thread := by
    intro thread inside
    unfold Socket.tcpRecvWrapper Socket.addMessage
    simp [inside, Network.thread]
  exact sound.deliver (quiet_of_eq idle rfl) rfl (fun thread inside => .inl (woken thread inside))
    fun thread inside => .inr (woken thread inside)

theorem Sound.accepted (sound : Sound s) (idle : s.network = .idle) (newConnection : Nat) :
    Sound (s.accepted newConnection) := by
  unfold Socket.accepted
  split
  · exact sound
  · split
    · exact sound
    · next list known =>
      dsimp only
      split
      · refine sound.deliver (quiet_of_eq idle rfl) rfl ?_ fun thread inside => .inl inside
        intro thread inside
        exact .inl (by simp [inside, Network.thread])
      · next refused =>
        have same : (list.addTail (some newConnection)).1 = list := by
          unfold ArrayList.addTail at refused ⊢
          split at refused
          · next full => rw [if_pos full]
          · exact absurd rfl refused
        rw [same, ← known]
        exact sound

theorem Sound.connected (sound : Sound s) (idle : s.network = .idle) (error : ErrorT) :
    Sound (s.connected error) := by
  unfold Socket.connected
  split
  · exact sound
  · exact sound.deliver (quiet_of_eq idle rfl) rfl (fun thread inside => .inr ⟨rfl, inside⟩)
      fun thread inside => .inl inside

theorem Sound.readBlockedThread (sound : Sound s) (answering : s.network = .answering) :
    Sound s.readBlockedThread := by
  unfold Socket.readBlockedThread
  refine sound.deliver (quiet_of_eq answering rfl) rfl ?_ fun thread inside => .inl inside
  intro thread inside
  exact .inl (by simp [Socket.setNetwork, inside, Network.thread])

/-- Nobody relies on `blockedThread` where it is cleared. -/
theorem Sound.clear (sound : Sound s) (clearing : s.network = .clearing) (unneeded : Unneeded s) :
    Sound ((s.setBlockedThread none).setNetwork .idle) := by
  have nobody : ∀ thread, ¬Waits (s.place thread) := fun thread waits =>
    unneeded thread (sound.listed (quiet_of_eq clearing rfl) waits) waits
  constructor
  · exact fun thread waits => absurd waits (nobody thread)
  · exact fun thread call blocks => absurd blocks.waits (nobody thread)
  · exact sound.flagged

theorem unneeded_none (none_ : s.blockedThread = none) : Unneeded s := by
  intro thread inside
  rw [none_] at inside
  cases inside

variable [DecidableEq τ]

/-- A thread goes where it does not rely on `blockedThread`. -/
theorem Sound.goOn (sound : Sound s) (place : Place) (away : ¬Waits place)
    (own : s'.place = Function.update s.place thread place) (network : s'.network = s.network)
    (less : ∀ call, Available s' call → Available s call)
    (free : s'.blockedThread = s.blockedThread ∨ Unneeded s) : Sound s' := by
  have here : s'.place thread = place := by rw [own, Function.update_self]
  apply sound.move thread ?_ network less free
  · rw [here]
    exact fun waits => absurd waits away
  · rw [here]
    exact fun call blocks => absurd blocks.waits away
  · rw [here]
    exact fun unflagged => away unflagged.waits
  · intro u other
    rw [own, Function.update_of_ne other]

/-- A thread enters itself, with nothing there that it would block for. -/
theorem Sound.enter (sound : Sound s) (place : Place)
    (own : s'.place = Function.update s.place thread place) (network : s'.network = s.network)
    (less : ∀ call, Available s' call → Available s call) (unneeded : Unneeded s)
    (entered : s'.blockedThread = some thread)
    (nothing : ∀ call, Blocks place call → ¬Available s' call) (flagged : ¬Unflagged place) :
    Sound s' := by
  have here : s'.place thread = place := by rw [own, Function.update_self]
  apply sound.move thread ?_ network less (.inr unneeded)
  · exact fun _ => .inl entered
  · rw [here]
    exact fun call blocks available => absurd available (nothing call blocks)
  · rwa [here]
  · intro u other
    rw [own, Function.update_of_ne other]

/-- A thread goes on to block. -/
theorem Sound.goDeeper (sound : Sound s) (place : Place) (waits : Waits (s.place thread))
    (flagged : ¬Unflagged place)
    (woken : ∀ call, Blocks place call → Available s call → Woken s thread) :
    Sound (s.setPlace thread place) := by
  have here : (s.setPlace thread place).place thread = place := by
    unfold Socket.setPlace
    exact Function.update_self thread _ s.place
  refine sound.move thread (fun u other => Function.update_of_ne other _ s.place) rfl
    (fun _ => id) (.inl rfl) (fun _ => sound.entered thread waits) ?_ ?_
  · rw [here]
    exact woken
  · rwa [here]

theorem Sound.recvfrom {wait : Bool} (sound : Sound s) : Sound (s.recvfrom thread wait) := by
  unfold Socket.recvfrom
  split
  · exact sound.goOn (.fetching .recvfrom) not_false rfl rfl (fun _ => id) (.inl rfl)
  · next empty =>
    split
    · exact sound.goOn .away not_false rfl rfl (fun _ => id) (.inl rfl)
    · split
      · split
        · next free =>
          refine sound.enter (.committed .recvfrom) rfl rfl (fun _ => id) (unneeded_none free)
            rfl ?_ not_false
          intro call blocks available
          cases blocks
          exact empty available
        · exact sound.goOn .away not_false rfl rfl (fun _ => id) (.inl rfl)
      · exact sound.goOn .away not_false rfl rfl (fun _ => id) (.inl rfl)

/-- Nothing is left of the buffered messages where there were none. -/
theorem hasData_getFirst {l : PBufList} (len : Nat) (more : (l.getFirst len).1.hasData = true) :
    l.hasData = true := by
  unfold PBufList.getFirst at more
  unfold PBufList.hasData
  split at more
  · exact more
  · next p first => rw [first, Option.isSome_some]

theorem Sound.recvfromFetch {dataSize : Nat} (sound : Sound s) :
    Sound (s.recvfromFetch thread dataSize) := by
  refine sound.goOn .away not_false rfl rfl ?_ (.inl rfl)
  intro call available
  cases call with
  | recvfrom => exact hasData_getFirst dataSize available
  | listen => exact available
  | connect => exact available

theorem Sound.listen {backlogSize : Nat} (sound : Sound s) :
    Sound (s.listen thread backlogSize) := by
  unfold Socket.listen
  split
  · exact sound.goOn .away not_false rfl rfl (fun _ => id) (.inl rfl)
  · have less : ∀ call, Available { s with
        state := socketListening
        acceptedConnections := some (s.acceptedConnections.getD (.fresh backlogSize)) } call →
        Available s call := by
      intro call available
      cases call with
      | recvfrom => exact available
      | connect => exact available
      | listen =>
        unfold Available Socket.connections at available ⊢
        cases known : s.acceptedConnections with
        | none =>
          rw [known] at available
          exact absurd rfl available
        | some list =>
          rw [known] at available
          exact available
    dsimp only
    split
    · next free =>
      refine sound.enter .registered rfl rfl less (unneeded_none free) rfl ?_ not_false
      intro call blocks
      cases blocks
    · exact sound.goOn .away not_false rfl rfl less (.inl rfl)

theorem Sound.lookForConnections (sound : Sound s) (here : s.place thread = .registered) :
    Sound (s.lookForConnections thread) := by
  unfold Socket.lookForConnections
  split
  · next empty =>
    have waits : Waits (s.place thread) := by
      rw [here]
      trivial
    refine sound.goDeeper (.committed .listen) waits not_false ?_
    intro call blocks available
    cases blocks
    exact absurd empty available
  · exact sound.goOn (.fetching .listen) not_false rfl rfl (fun _ => id) (.inl rfl)

/-- Nothing is pending where nothing was. -/
theorem Sound.removeHead (sound : Sound s) : Sound (s.removeHead thread) := by
  unfold Socket.removeHead
  split
  · exact sound.goOn (.leaving none) not_false rfl rfl (fun _ => id) (.inl rfl)
  · next list known =>
    refine sound.goOn (.leaving list.removeHead.2) not_false rfl rfl ?_ (.inl rfl)
    intro call available
    cases call with
    | recvfrom => exact available
    | connect => exact available
    | listen =>
      unfold Available Socket.connections at available ⊢
      rw [known]
      intro none_
      have empty : list.numEntries = 0 := none_
      have same : list.removeHead = (list, none) := by
        unfold ArrayList.removeHead
        rw [if_pos empty.symm]
      apply available
      change list.removeHead.1.numEntries = 0
      rw [same, empty]

theorem Sound.connect (sound : Sound s) : Sound (s.connect thread) := by
  unfold Socket.connect
  split
  · exact sound.goOn .away not_false rfl rfl (fun _ => id) (.inl rfl)
  · split
    · refine sound.goOn .starting not_false rfl rfl ?_ (.inl rfl)
      intro call available
      cases call with
      | recvfrom => exact available
      | listen => exact available
      | connect => cases available
    · exact sound.goOn .away not_false rfl rfl (fun _ => id) (.inl rfl)

theorem Sound.register (sound : Sound s) (unneeded : Unneeded s) (open_ : s.answered = false) :
    Sound ((s.setBlockedThread (some thread)).setPlace thread (.committed .connect)) := by
  refine sound.enter (.committed .connect) rfl rfl (fun _ => id) unneeded rfl ?_ not_false
  intro call blocks available
  cases blocks
  have answered : s.answered = true := available
  rw [open_] at answered
  cases answered

/-- A thread sets its flag. -/
theorem Sound.block (sound : Sound s) (here : s.place thread = .committed call) :
    Sound (s.setPlace thread (.flagged call)) := by
  have blocks : Blocks (s.place thread) call := by
    rw [here]
    exact .committed call
  refine sound.goDeeper (.flagged call) blocks.waits not_false ?_
  intro other flagged available
  cases flagged
  exact sound.woken thread call blocks available

/-- The dispatcher puts a thread on its list. -/
theorem Sound.dispatcherBlock (sound : Sound s) : Sound (s.dispatcherBlock thread) := by
  unfold Socket.dispatcherBlock
  split
  · next call here =>
    have blocks : Blocks (s.place thread) call := by
      rw [here]
      exact .flagged call
    refine sound.goDeeper (.asleep call) blocks.waits not_false ?_
    intro other asleep available
    cases asleep
    exact sound.woken thread call blocks available
  · next call here =>
    apply absurd (sound.flagged thread)
    rw [here]
    exact not_not_intro trivial
  · exact sound

theorem unflag_cases (sound : Sound s) (open_ : ∀ call, s.place thread ≠ .flagged call) :
    (∃ call, s.place thread = .asleep call ∧
      s.unflag thread = s.setPlace thread (.awake call)) ∨
    (∀ call, s.place thread ≠ .asleep call) ∧ s.unflag thread = s := by
  unfold Socket.unflag
  split
  · next call here => exact absurd here (open_ call)
  · next call here => exact .inl ⟨call, here, rfl⟩
  · next call here =>
    apply absurd (sound.flagged thread)
    rw [here]
    exact not_not_intro trivial
  · next other _ => exact .inr ⟨other, rfl⟩

/-- A thread whose time is over goes on. -/
theorem Sound.expire (sound : Sound s) (open_ : ∀ call, s.place thread ≠ .flagged call) :
    Sound { s.unflag thread with expired := none } := by
  rcases unflag_cases sound open_ with ⟨call, _, same⟩ | ⟨_, same⟩
  · rw [same]
    exact sound.goOn (.awake call) not_false rfl rfl (fun _ => id) (.inl rfl)
  · rw [same]
    exact ⟨sound.entered, sound.woken, sound.flagged⟩

theorem Sound.resume (sound : Sound s) (timely : Timely s (.resume thread)) :
    Sound (s.step (.resume thread)) := by
  have unneeded : ∀ call, call ≠ .listen → s.place thread = .awake call → Unneeded s := by
    intro call other awake
    refine timely ?_ ⟨call, awake⟩
    rw [awake]
    intro same
    exact other (Place.awake.inj same)
  unfold Socket.step
  dsimp only
  split
  · next awake =>
    have free := unneeded .recvfrom nofun awake
    unfold Socket.recvfromResume
    dsimp only
    split
    · exact sound.goOn .away not_false rfl rfl (fun _ => id) (.inr free)
    · exact sound.goOn (.fetching .recvfrom) not_false rfl rfl (fun _ => id) (.inr free)
  · exact sound.goOn (.fetching .listen) not_false rfl rfl (fun _ => id) (.inl rfl)
  · next awake =>
    have free := unneeded .connect nofun awake
    exact sound.goOn .away not_false rfl rfl (fun _ => id) (.inr free)
  · exact sound

/-- The network thread leaves a thread that is on its way to block. -/
theorem Sound.leave (sound : Sound s) (waking : s.network.thread = some thread)
    (unaware : Unaware s thread) (open_ : ∀ call, s.place thread ≠ .flagged call)
    (awake : ∀ call, s.place thread ≠ .asleep call) (network : Network τ) :
    Sound (s.setNetwork network) := by
  obtain ⟨registered, committed⟩ := unaware
  have others : ∀ u, u ≠ thread → s.network.thread ≠ some u := by
    intro u apart same
    rw [waking] at same
    exact apart (Option.some.inj same).symm
  refine ⟨fun u waits => .inl ?_, fun u call blocks available => ?_, sound.flagged⟩
  · by_cases here : u = thread
    · subst here
      have flagged := sound.flagged u
      cases place : s.place u with
      | registered => exact registered place
      | committed call => exact (committed call place).1
      | flagged call => exact absurd place (open_ call)
      | asleep call => exact absurd place (awake call)
      | unflagged call =>
        rw [place] at flagged
        exact absurd trivial flagged
      | stranded call =>
        rw [place] at flagged
        exact absurd trivial flagged
      | _ =>
        change Waits (s.place u) at waits
        rw [place] at waits
        exact waits.elim
    · exact (sound.entered u waits).resolve_right (others u here)
  · exfalso
    change Blocks (s.place u) call at blocks
    by_cases here : u = thread
    · subst here
      cases place : s.place u with
      | committed call' =>
        rw [place] at blocks
        cases blocks
        exact (committed call place).2 available
      | flagged call' => exact open_ call' place
      | asleep call' => exact awake call' place
      | _ =>
        rw [place] at blocks
        cases blocks
    · rcases sound.woken u call blocks available with same | ⟨answering, _⟩
      · exact others u here same
      · rw [answering] at waking
        cases waking

theorem Sound.isBlocked (sound : Sound s) (timely : Timely s .isBlocked) :
    Sound (s.step .isBlocked) := by
  unfold Socket.step
  dsimp only
  split
  · next thread clears waking =>
    have called : s.network.thread = some thread := by rw [waking, Network.thread]
    split
    · refine ⟨fun u waits => ?_, fun u call blocks available => .inl ?_, sound.flagged⟩
      · have entered := sound.entered u waits
        rw [called] at entered
        exact entered
      · rcases sound.woken u call blocks available with same | ⟨answering, _⟩
        · rw [called] at same
          exact same
        · rw [waking] at answering
          cases answering
    · next unblocked =>
      refine sound.leave called (timely thread clears waking) ?_ ?_ _
      · intro call here
        rw [here] at unblocked
        exact unblocked rfl
      · intro call here
        rw [here] at unblocked
        exact unblocked rfl
  · exact sound

/-- The thread that is unblocked goes on, or has nothing to get yet and is entered. -/
theorem Sound.unblock (sound : Sound s) (timely : Timely s .unblock) :
    Sound (s.step .unblock) := by
  unfold Socket.step
  dsimp only
  split
  · next thread clears unblocking =>
    have called : s.network.thread = some thread := by rw [unblocking, Network.thread]
    obtain ⟨unaware, open_⟩ := timely thread clears unblocking
    rcases unflag_cases sound open_ with ⟨call, _, same⟩ | ⟨awake, same⟩
    · rw [same]
      have moved : Sound (s.setPlace thread (.awake call)) :=
        sound.goOn (.awake call) not_false rfl rfl (fun _ => id) (.inl rfl)
      have own : (s.setPlace thread (.awake call)).place thread = .awake call :=
        Function.update_self thread _ s.place
      refine moved.leave called ⟨?_, ?_⟩ ?_ ?_ _
      · rw [own]
        exact nofun
      · rw [own]
        exact fun _ => nofun
      · rw [own]
        exact fun _ => nofun
      · rw [own]
        exact fun _ => nofun
    · rw [same]
      exact sound.leave called unaware open_ awake _
  · exact sound

/-- Each step keeps it. -/
theorem Sound.step {op : Step τ} (sound : Sound s) (timely : Timely s op) : Sound (s.step op) := by
  cases op with
  | resume thread => exact sound.resume timely
  | recvfrom thread wait =>
    unfold Socket.step
    dsimp only
    split
    · exact sound.recvfrom
    · exact sound
  | listen thread backlogSize =>
    unfold Socket.step
    dsimp only
    split
    · exact sound.listen
    · exact sound
  | lookForConnections thread =>
    unfold Socket.step
    dsimp only
    split
    · next here => exact sound.lookForConnections here
    · exact sound
  | connect thread =>
    unfold Socket.step
    dsimp only
    split
    · exact sound.connect
    · exact sound
  | register thread =>
    unfold Socket.step
    dsimp only
    split
    · next here => exact sound.register (timely here).1 (timely here).2
    · exact sound
  | block thread =>
    unfold Socket.step
    dsimp only
    split
    · next here => exact sound.block here
    · exact sound
  | dispatcherBlock thread => exact sound.dispatcherBlock
  | timeout thread =>
    unfold Socket.step
    dsimp only
    split
    · exact ⟨sound.entered, sound.woken, sound.flagged⟩
    · exact sound
  | expire =>
    unfold Socket.step
    dsimp only
    split
    · next thread expired => exact sound.expire (timely thread expired)
    · exact sound
  | isBlocked => exact sound.isBlocked timely
  | unblock => exact sound.unblock timely
  | getFirst thread dataSize =>
    unfold Socket.step
    dsimp only
    split
    · exact sound.recvfromFetch
    · exact sound
  | removeHead thread =>
    unfold Socket.step
    dsimp only
    split
    · exact sound.removeHead
    · exact sound
  | leave thread fd =>
    unfold Socket.step
    dsimp only
    split
    · next newConn here =>
      exact sound.goOn .away not_false rfl rfl (fun _ => id) (.inr (timely ⟨newConn, here⟩))
    · exact sound
  | tcpRecv p =>
    unfold Socket.step
    dsimp only
    split
    · next idle => exact sound.tcpRecv idle p
    · exact sound
  | accepted newConnection =>
    unfold Socket.step
    dsimp only
    split
    · next idle => exact sound.accepted idle newConnection
    · exact sound
  | connected error =>
    unfold Socket.step
    dsimp only
    split
    · next idle => exact sound.connected idle error
    · exact sound
  | readBlockedThread =>
    unfold Socket.step
    dsimp only
    split
    · next answering => exact sound.readBlockedThread answering
    · exact sound
  | clear =>
    unfold Socket.step
    dsimp only
    split
    · next clearing => exact sound.clear clearing (timely clearing)
    · exact sound

/-- Before the first call. -/
structure Started (s : Socket τ) : Prop where
  away : ∀ thread, s.place thread = .away
  idle : s.network = .idle

omit [DecidableEq τ] in
theorem Started.sound (started : Started s) : Sound s where
  entered thread waits := by
    rw [started.away thread] at waits
    exact waits.elim
  woken thread call blocks := by
    rw [started.away thread] at blocks
    cases blocks
  flagged thread := by
    rw [started.away thread]
    exact not_false

/-- In every run whose steps are timely, no thread is blocked while there is what it waits
for, unless it is about to be unblocked. -/
theorem wakeUps_kept (started : Started s) (steps : List (Step τ))
    (timely : Admissible Socket.step Timely s steps) : NoneLost (exec Socket.step s steps) := by
  have sound : Sound (exec Socket.step s steps) :=
    exec_invariant Sound (fun _ _ sound timely => sound.step timely) steps s started.sound timely
  exact sound.noneLost

/-- One thread waits for a message and gets it. -/
theorem wakeUps_kept_oneMessage :
    NoneLost (exec Socket.step (Socket.fresh .dgram : Socket Unit)
      [.recvfrom () true, .block (), .dispatcherBlock (), .tcpRecv ⟨[1], []⟩, .isBlocked, .unblock,
        .resume (), .getFirst () 10]) := by
  refine wakeUps_kept ⟨fun _ => rfl, rfl⟩ _
    ⟨trivial, trivial, trivial, trivial, fun thread clears waking => ⟨nofun, nofun⟩,
      fun thread clears unblocking => ⟨⟨nofun, nofun⟩, nofun⟩,
      fun _ _ thread inside => ?_, trivial, trivial⟩
  cases inside

/-- A message, a connection and an answer come between the entry in `blockedThread` and
the blocking; a message comes between the flag and the dispatcher, and the thread sleeps for
the next one as well; and one thread clears `blockedThread` while another is in it. -/
theorem wakeUps_lost :
    ¬NoneLost (exec Socket.step (Socket.fresh .dgram : Socket Unit)
      [.recvfrom () true, .tcpRecv ⟨[1], []⟩, .isBlocked, .block (), .dispatcherBlock ()]) ∧
    ¬NoneLost (exec Socket.step (Socket.fresh .stream : Socket Unit)
      [.listen () 10, .lookForConnections (), .accepted 7, .isBlocked, .block (),
        .dispatcherBlock ()]) ∧
    ¬NoneLost (exec Socket.step (Socket.fresh .stream : Socket Unit)
      [.connect (), .connected cOk, .readBlockedThread, .register (), .block (),
        .dispatcherBlock ()]) ∧
    ¬NoneLost (exec Socket.step (Socket.fresh .dgram : Socket Unit)
      [.recvfrom () true, .block (), .tcpRecv ⟨[1], []⟩, .isBlocked, .unblock,
        .dispatcherBlock (), .tcpRecv ⟨[2], []⟩]) ∧
    ¬NoneLost (exec Socket.step (Socket.fresh .dgram : Socket (Fin 3))
      [.recvfrom 0 true, .block 0, .dispatcherBlock 0, .tcpRecv ⟨[1], []⟩, .isBlocked, .unblock,
        .recvfrom 1 true, .getFirst 1 10, .recvfrom 2 true, .block 2, .dispatcherBlock 2,
        .resume 0, .tcpRecv ⟨[2], []⟩]) := by
  refine ⟨fun noneLost => ?_, fun noneLost => ?_, fun noneLost => ?_, fun noneLost => ?_,
    fun noneLost => ?_⟩
  · exact noneLost.idle rfl () .recvfrom (.inl rfl) rfl
  · exact noneLost.idle rfl () .listen (.inl rfl) (by decide : 1 ≠ 0)
  · exact noneLost.idle rfl () .connect (.inl rfl) rfl
  · exact noneLost.idle rfl () .recvfrom (.inr rfl) rfl
  · exact noneLost.idle rfl 2 .recvfrom (.inl rfl) rfl

end Orcos.Guarantees.WakeUps
