import Orcos.Lib.Runs
import Orcos.Source.DeviceThreads

/-!
# Threads that do not exist any more

Source: src/source/hal/BufferDevice.cc, src/source/comm/Socket.cc, src/source/hal/TimerDevice.cc;
src/source/process/Thread.cc, `terminate`; src/source/process/TaskManager.cc, `terminateThread`.

A device forgets a thread on its own wake-up path only; the end of a thread does not look into
the devices.
-/
namespace Orcos.Guarantees.ThreadReferences
open Lib.Runs Source

variable {β σ δ κ τ : Type}

section Specification

/-- No device refers to a thread object that was deleted, and no event is for one. -/
structure Safe (s : DeviceThreads β σ δ κ τ) : Prop where
  fields : ∀ (f : ThreadField β σ δ) (t : τ), s.field f = some t → s.life t ≠ .deleted
  events : ∀ (op : DeviceOp β σ δ κ τ) (t : τ), s.reached op = some t → s.life t ≠ .deleted

variable [DecidableEq τ]

/-- The field is one of a socket that a task has acquired. -/
def HeldBy (s : DeviceThreads β σ δ κ τ) (task : κ) : ThreadField β σ δ → Prop
  | .blockedThread c | .sendBlockedThread c =>
    ∃ endpoint, s.sockets c = some endpoint ∧ endpoint.holder = some task
  | _ => False

/-- The field is one of a socket that is deleted with the last thread of its task. -/
def Closed (s : DeviceThreads β σ δ κ τ) (t : τ) (f : ThreadField β σ δ) : Prop :=
  ∃ task, s.owner t = some task ∧ (s.threadDb task).erase t = [] ∧ HeldBy s task f

/-- When a thread terminates, no device that stays refers to it. -/
def Forgotten (s : DeviceThreads β σ δ κ τ) : DeviceOp β σ δ κ τ → Prop
  | .terminateThread t => s.life t = .running → ∀ f, s.field f = some t → Closed s t f
  | _ => True

end Specification

section Components

variable [DecidableEq τ] {t : τ}

/-- Only a thread that reads is entered in a buffer device. -/
theorem stream_blockedThread {s : Hal.Stream τ} {call : Hal.Call τ}
    (entered : (s.step call).device.blockedThread = some t) :
    s.device.blockedThread = some t ∨ call.thread = some t := by
  cases call with
  | writeBytes bytes length =>
    left
    dsimp only [Hal.Stream.step, Hal.Stream.writeBytes] at entered
    split at entered
    · exact entered
    · dsimp only [Hal.Stream.wake] at entered
      split at entered
      case h_1 =>
        dsimp only [Hal.Stream.unblock] at entered
        split at entered
        · cases entered
        · cases entered
      case h_2 => exact entered
  | readBytes u length =>
    dsimp only [Hal.Stream.step, Hal.Stream.readBytes, Hal.Stream.readFilled] at entered
    split at entered
    · split at entered
      · exact .inr entered
      · exact .inl entered
    · exact .inl entered
  | resume u =>
    left
    dsimp only [Hal.Stream.step, Hal.Stream.resume, Hal.Stream.readFilled] at entered
    split at entered
    · split at entered
      · exact entered
      · exact entered
    · exact entered
  | acquire retval =>
    left
    dsimp only [Hal.Stream.step, Hal.Stream.acquire] at entered
    split at entered
    · exact entered
    · exact entered
  | release => exact .inl entered

omit [DecidableEq τ] in
@[simp] theorem setNetwork_blockedThread (s : Comm.Socket τ) (network : Comm.Network τ) :
    (s.setNetwork network).blockedThread = s.blockedThread := rfl

@[simp] theorem unflag_blockedThread (s : Comm.Socket τ) (u : τ) :
    (s.unflag u).blockedThread = s.blockedThread := by
  unfold Comm.Socket.unflag
  split <;> rfl

@[simp] theorem unblock_blockedThread (s : Comm.Socket τ) (u : τ) :
    (s.unblock u).blockedThread = s.blockedThread := by
  unfold Comm.Socket.unblock
  split
  · exact unflag_blockedThread s u
  · rfl

/-- Only the thread that calls a socket is entered in it. -/
theorem thread_blockedThread {s : Comm.Socket τ} {step : Comm.Step τ} {u : τ}
    (actor : step.thread = some u)
    (entered : (s.step step).blockedThread = some t) : s.blockedThread = some t ∨ u = t := by
  cases step with
  | recvfrom v wait =>
    cases actor
    dsimp only [Comm.Socket.step, Comm.Socket.recvfrom] at entered
    split at entered
    · split at entered
      · exact .inl entered
      · split at entered
        · exact .inl entered
        · split at entered
          · split at entered
            · exact .inr (Option.some.inj entered)
            · exact .inl entered
          · exact .inl entered
    · exact .inl entered
  | listen v backlogSize =>
    cases actor
    dsimp only [Comm.Socket.step, Comm.Socket.listen] at entered
    split at entered
    · split at entered
      · exact .inl entered
      · split at entered
        · exact .inr (Option.some.inj entered)
        · exact .inl entered
    · exact .inl entered
  | register v =>
    cases actor
    dsimp only [Comm.Socket.step] at entered
    split at entered
    · exact .inr (Option.some.inj entered)
    · exact .inl entered
  | lookForConnections v =>
    left
    dsimp only [Comm.Socket.step, Comm.Socket.lookForConnections] at entered
    split at entered
    · split at entered
      · exact entered
      · exact entered
    · exact entered
  | connect v =>
    left
    dsimp only [Comm.Socket.step, Comm.Socket.connect] at entered
    split at entered
    · split at entered
      · exact entered
      · split at entered
        · exact entered
        · exact entered
    · exact entered
  | block v =>
    left
    dsimp only [Comm.Socket.step] at entered
    split at entered
    · exact entered
    · exact entered
  | dispatcherBlock v =>
    left
    dsimp only [Comm.Socket.step, Comm.Socket.dispatcherBlock] at entered
    split at entered
    · exact entered
    · exact entered
    · exact entered
  | timeout v =>
    left
    dsimp only [Comm.Socket.step] at entered
    split at entered
    · exact entered
    · exact entered
  | resume v =>
    left
    dsimp only [Comm.Socket.step, Comm.Socket.recvfromResume] at entered
    split at entered
    · split at entered
      · cases entered
      · cases entered
    · exact entered
    · cases entered
    · exact entered
  | getFirst v dataSize =>
    left
    dsimp only [Comm.Socket.step, Comm.Socket.recvfromFetch] at entered
    split at entered
    · exact entered
    · exact entered
  | removeHead v =>
    left
    dsimp only [Comm.Socket.step, Comm.Socket.removeHead] at entered
    split at entered
    · split at entered
      · exact entered
      · exact entered
    · exact entered
  | leave v fd =>
    left
    dsimp only [Comm.Socket.step] at entered
    split at entered
    · cases entered
    · exact entered
  | _ => cases actor

/-- The network thread enters nobody. -/
theorem network_blockedThread {s : Comm.Socket τ} {step : Comm.Step τ}
    (network : step.thread = none)
    (entered : (s.step step).blockedThread = some t) : s.blockedThread = some t := by
  cases step with
  | tcpRecv p =>
    dsimp only [Comm.Socket.step, Comm.Socket.tcpRecvWrapper, Comm.Socket.addMessage] at entered
    split at entered
    · cases entered
    · exact entered
  | accepted newConnection =>
    dsimp only [Comm.Socket.step, Comm.Socket.accepted] at entered
    split at entered
    · split at entered
      · exact entered
      · split at entered
        · exact entered
        · split at entered
          · exact entered
          · exact entered
    · exact entered
  | connected error =>
    dsimp only [Comm.Socket.step, Comm.Socket.connected] at entered
    split at entered
    · split at entered
      · exact entered
      · exact entered
    · exact entered
  | readBlockedThread =>
    dsimp only [Comm.Socket.step, Comm.Socket.readBlockedThread] at entered
    split at entered
    · exact entered
    · exact entered
  | expire =>
    dsimp only [Comm.Socket.step] at entered
    split at entered
    · simpa using entered
    · exact entered
  | isBlocked =>
    dsimp only [Comm.Socket.step, Comm.Socket.unblocked] at entered
    split at entered
    · split at entered
      · exact entered
      · exact entered
    · exact entered
  | unblock =>
    dsimp only [Comm.Socket.step, Comm.Socket.unblocked] at entered
    split at entered
    · simpa using entered
    · exact entered
  | clear =>
    dsimp only [Comm.Socket.step] at entered
    split at entered
    · cases entered
    · exact entered
  | _ => cases network

theorem disconnected_blockedThread {s : Comm.Socket τ}
    (entered : s.disconnected.blockedThread = some t) : s.blockedThread = some t := by
  dsimp only [Comm.Socket.disconnected] at entered
  split at entered
  · cases entered
  · exact entered

end Components

section Steps

variable [DecidableEq β] [DecidableEq σ] [DecidableEq δ] [DecidableEq κ] [DecidableEq τ]
variable {s : DeviceThreads β σ δ κ τ} {op : DeviceOp β σ δ κ τ} {f : ThreadField β σ δ} {t u : τ}

/-- The thread has terminated, and its object is deleted or going to be. -/
def Gone (s : DeviceThreads β σ δ κ τ) (t : τ) : Prop :=
  s.life t = .terminated ∨ s.life t = .deleted

/-- No device refers to such a thread. -/
def Remembers (s : DeviceThreads β σ δ κ τ) : Prop :=
  ∀ (f : ThreadField β σ δ) (t : τ), s.field f = some t → ¬Gone s t

omit [DecidableEq β] [DecidableEq σ] [DecidableEq δ] [DecidableEq κ] [DecidableEq τ] in
theorem running_of_runs (runs : s.runs (some t) = true) : s.life t = .running := by
  simpa [DeviceThreads.runs] using runs

omit [DecidableEq σ] [DecidableEq δ] [DecidableEq κ] [DecidableEq τ] in
theorem field_setBuffer {b : β} {stream : Option (Hal.Stream τ)}
    (entered : (s.setBuffer b stream).field f = some t) :
    s.field f = some t ∨
      f = .reader b ∧ (stream.bind fun stream => stream.device.blockedThread) = some t := by
  cases f with
  | reader b' =>
    by_cases same : b' = b
    · subst same
      simp only [DeviceThreads.field, DeviceThreads.setBuffer, Function.update_self] at entered
      exact .inr ⟨rfl, entered⟩
    · simp only [DeviceThreads.field, DeviceThreads.setBuffer, Function.update_of_ne same]
        at entered
      exact .inl entered
  | _ => exact .inl entered

/-- The thread in a field of a socket. -/
def endpointField (endpoint : Endpoint κ τ) : ThreadField β σ δ → Option τ
  | .sendBlockedThread _ => endpoint.sendBlockedThread
  | _ => endpoint.socket.blockedThread

omit [DecidableEq β] [DecidableEq δ] [DecidableEq κ] [DecidableEq τ] in
theorem field_setSocket {c : σ} {endpoint : Option (Endpoint κ τ)}
    (entered : (s.setSocket c endpoint).field f = some t) :
    s.field f = some t ∨ (f = .blockedThread c ∨ f = .sendBlockedThread c) ∧
      (endpoint.bind fun endpoint => endpointField endpoint f) = some t := by
  cases f with
  | blockedThread c' =>
    by_cases same : c' = c
    · subst same
      simp only [DeviceThreads.field, DeviceThreads.setSocket, Function.update_self] at entered
      exact .inr ⟨.inl rfl, entered⟩
    · simp only [DeviceThreads.field, DeviceThreads.setSocket, Function.update_of_ne same]
        at entered
      exact .inl entered
  | sendBlockedThread c' =>
    by_cases same : c' = c
    · subst same
      simp only [DeviceThreads.field, DeviceThreads.setSocket, Function.update_self] at entered
      exact .inr ⟨.inr rfl, entered⟩
    · simp only [DeviceThreads.field, DeviceThreads.setSocket, Function.update_of_ne same]
        at entered
      exact .inl entered
  | _ => exact .inl entered

omit [DecidableEq β] [DecidableEq δ] [DecidableEq κ] [DecidableEq τ] in
/-- A change of a socket enters a thread only where it changes that field. -/
theorem field_mapSocket {c : σ} {change : Endpoint κ τ → Endpoint κ τ} {p : Prop}
    (entered : (s.setSocket c ((s.sockets c).map change)).field f = some t)
    (blocked : ∀ endpoint, (change endpoint).socket.blockedThread = some t →
      endpoint.socket.blockedThread = some t ∨ p)
    (sending : ∀ endpoint, (change endpoint).sendBlockedThread = some t →
      endpoint.sendBlockedThread = some t ∨ p) : s.field f = some t ∨ p := by
  obtain kept | ⟨which, entered⟩ := field_setSocket entered
  · exact .inl kept
  · cases known : s.sockets c with
    | none => simp [known] at entered
    | some endpoint =>
      rw [known] at entered
      rcases which with rfl | rfl
      · simpa [DeviceThreads.field, known] using blocked endpoint entered
      · simpa [DeviceThreads.field, known] using sending endpoint entered

omit [DecidableEq β] [DecidableEq σ] [DecidableEq κ] [DecidableEq τ] in
theorem field_setLlThread {d : δ} {thread : Option τ}
    (entered : (s.setLlThread d thread).field f = some t) :
    s.field f = some t ∨ thread = some t := by
  cases f with
  | llThread d' =>
    by_cases same : d' = d
    · subst same
      simp only [DeviceThreads.field, DeviceThreads.setLlThread, Function.update_self] at entered
      exact .inr entered
    · simp only [DeviceThreads.field, DeviceThreads.setLlThread, Function.update_of_ne same]
        at entered
      exact .inl entered
  | _ => exact .inl entered

omit [DecidableEq β] [DecidableEq σ] [DecidableEq δ] [DecidableEq τ] in
/-- The fields of the sockets of the task are gone, and all others stay. -/
theorem field_releaseResources {task : κ} :
    (s.releaseResources task).field f = some t ↔ s.field f = some t ∧ ¬HeldBy s task f := by
  cases f with
  | blockedThread c =>
    cases known : s.sockets c with
    | none => simp [DeviceThreads.field, DeviceThreads.releaseResources, known]
    | some endpoint =>
      by_cases held : endpoint.holder = some task
      · simp [DeviceThreads.field, DeviceThreads.releaseResources, HeldBy, known, held,
          Option.filter]
      · simp [DeviceThreads.field, DeviceThreads.releaseResources, HeldBy, known, held,
          Option.filter]
  | sendBlockedThread c =>
    cases known : s.sockets c with
    | none => simp [DeviceThreads.field, DeviceThreads.releaseResources, known]
    | some endpoint =>
      by_cases held : endpoint.holder = some task
      · simp [DeviceThreads.field, DeviceThreads.releaseResources, HeldBy, known, held,
          Option.filter]
      · simp [DeviceThreads.field, DeviceThreads.releaseResources, HeldBy, known, held,
          Option.filter]
  | _ => simp [DeviceThreads.field, DeviceThreads.releaseResources, HeldBy]

omit [DecidableEq β] [DecidableEq σ] [DecidableEq κ] [DecidableEq τ] in
theorem field_config {d : δ} {threadId : Option τ} (running : s.life u = .running)
    (entered : (s.config d u threadId).field f = some t) :
    s.field f = some t ∨ s.life t = .running := by
  cases threadId with
  | none =>
    dsimp only [DeviceThreads.config] at entered
    split at entered
    · cases field_setLlThread entered with
      | inl kept => exact .inl kept
      | inr same =>
        cases same
        exact .inr running
    · exact .inl entered
  | some v =>
    dsimp only [DeviceThreads.config] at entered
    split at entered
    · cases field_setLlThread entered with
      | inl kept => exact .inl kept
      | inr same =>
        split at same
        · cases same
          exact .inr ‹_›
        · cases same
    · exact .inl entered

omit [DecidableEq β] [DecidableEq σ] [DecidableEq δ] in
/-- When a thread terminates, the fields of the sockets that are deleted with it are gone, and
all others stay. -/
theorem field_terminateThread :
    (s.terminateThread u).field f = some t ↔ s.field f = some t ∧ ¬Closed s u f := by
  dsimp only [DeviceThreads.terminateThread]
  cases owner : s.owner u with
  | none =>
    have open_ : ¬Closed s u f := fun ⟨task, owned, _⟩ => by
      rw [owner] at owned
      cases owned
    rw [and_iff_left open_]
    exact Iff.rfl
  | some task =>
    dsimp only
    by_cases last : (s.threadDb task).erase u = []
    · rw [if_pos last, field_releaseResources]
      have same : Closed s u f ↔ HeldBy s task f := by
        constructor
        · intro closed
          obtain ⟨task', owned, -, held⟩ := closed
          cases owner.symm.trans owned
          exact held
        · intro held
          exact ⟨task, owner, last, held⟩
      rw [same]
      exact Iff.rfl
    · rw [if_neg last]
      have open_ : ¬Closed s u f := fun ⟨task', owned, last', _⟩ => by
        cases owner.symm.trans owned
        exact last last'
      rw [and_iff_left open_]
      exact Iff.rfl

/-- Only threads that run are entered in a field. -/
theorem field_step (entered : (s.step op).field f = some t) :
    s.field f = some t ∨ s.life t = .running := by
  cases op with
  | createBuffer b cells size =>
    dsimp only [DeviceThreads.step] at entered
    split at entered
    · cases field_setBuffer entered with
      | inl kept => exact .inl kept
      | inr new => cases new.2
    · exact .inl entered
  | deleteBuffer b =>
    cases field_setBuffer entered with
    | inl kept => exact .inl kept
    | inr new => cases new.2
  | buffer b call =>
    dsimp only [DeviceThreads.step] at entered
    split at entered
    case isTrue runs =>
      cases field_setBuffer entered with
      | inl kept => exact .inl kept
      | inr new =>
        obtain ⟨rfl, new⟩ := new
        cases known : s.buffers b with
        | none => simp [known] at new
        | some stream =>
          rw [known] at new
          cases stream_blockedThread new with
          | inl kept =>
            left
            simpa [DeviceThreads.field, known] using kept
          | inr actor =>
            rw [actor] at runs
            exact .inr (running_of_runs runs)
    case isFalse => exact .inl entered
  | createSocket c type holder =>
    dsimp only [DeviceThreads.step] at entered
    split at entered
    · obtain kept | ⟨which, entered⟩ := field_setSocket entered
      · exact .inl kept
      · rcases which with rfl | rfl
        · cases entered
        · cases entered
    · exact .inl entered
  | addResource c task =>
    exact field_mapSocket entered (fun _ kept => .inl kept) (fun _ kept => .inl kept)
  | deleteSocket c =>
    obtain kept | ⟨-, entered⟩ := field_setSocket entered
    · exact .inl kept
    · cases entered
  | socket c step =>
    dsimp only [DeviceThreads.step] at entered
    split at entered
    case isTrue runs =>
      refine field_mapSocket entered (fun endpoint entered => ?_) (fun _ kept => .inl kept)
      cases actor : step.thread with
      | none => exact .inl (network_blockedThread actor entered)
      | some u =>
        rw [actor] at runs
        cases thread_blockedThread actor entered with
        | inl kept => exact .inl kept
        | inr same => exact .inr (same ▸ running_of_runs runs)
    case isFalse => exact .inl entered
  | disconnected c =>
    exact field_mapSocket entered (fun _ entered => .inl (disconnected_blockedThread entered))
      (fun _ kept => .inl kept)
  | send c u =>
    dsimp only [DeviceThreads.step] at entered
    split at entered
    case isTrue running =>
      refine field_mapSocket entered (fun _ kept => .inl kept) (fun _ entered => .inr ?_)
      cases entered
      exact running
    case isFalse => exact .inl entered
  | sent c =>
    exact field_mapSocket entered (fun _ kept => .inl kept) fun _ entered => by cases entered
  | config d u threadId =>
    dsimp only [DeviceThreads.step] at entered
    split at entered
    case isTrue running => exact field_config running entered
    case isFalse => exact .inl entered
  | reset d =>
    cases field_setLlThread entered with
    | inl kept => exact .inl kept
    | inr new => cases new
  | handleIRQ d => exact .inl entered
  | newThread u task =>
    dsimp only [DeviceThreads.step] at entered
    split at entered
    · exact .inl entered
    · exact .inl entered
  | terminateThread u =>
    dsimp only [DeviceThreads.step] at entered
    split at entered
    · exact .inl (field_terminateThread.mp entered).1
    · exact .inl entered
  | removeTask task =>
    left
    have released : (s.releaseResources task).field f = some t := entered
    exact (field_releaseResources.mp released).1
  | deleteThread u =>
    dsimp only [DeviceThreads.step] at entered
    split at entered
    · exact .inl entered
    · exact .inl entered

omit [DecidableEq β] [DecidableEq σ] [DecidableEq κ] [DecidableEq τ] in
theorem config_life (s : DeviceThreads β σ δ κ τ) (d : δ) (u : τ) (threadId : Option τ) :
    (s.config d u threadId).life = s.life := by
  cases threadId with
  | none =>
    dsimp only [DeviceThreads.config]
    split <;> rfl
  | some v =>
    dsimp only [DeviceThreads.config]
    split <;> rfl

omit [DecidableEq β] [DecidableEq σ] [DecidableEq δ] in
theorem terminateThread_life (s : DeviceThreads β σ δ κ τ) (u : τ) :
    (s.terminateThread u).life = Function.update s.life u .terminated := by
  dsimp only [DeviceThreads.terminateThread]
  split
  · rfl
  · split
    · rfl
    · rfl

/-- A thread ends only once. -/
theorem gone_step (gone : Gone (s.step op) t) :
    Gone s t ∨ op = .terminateThread t ∧ s.life t = .running := by
  cases op with
  | createBuffer b cells size =>
    dsimp only [DeviceThreads.step] at gone
    split at gone
    · exact .inl gone
    · exact .inl gone
  | buffer b call =>
    dsimp only [DeviceThreads.step] at gone
    split at gone
    · exact .inl gone
    · exact .inl gone
  | createSocket c type holder =>
    dsimp only [DeviceThreads.step] at gone
    split at gone
    · exact .inl gone
    · exact .inl gone
  | socket c step =>
    dsimp only [DeviceThreads.step] at gone
    split at gone
    · exact .inl gone
    · exact .inl gone
  | send c u =>
    dsimp only [DeviceThreads.step] at gone
    split at gone
    · exact .inl gone
    · exact .inl gone
  | config d u threadId =>
    dsimp only [DeviceThreads.step] at gone
    split at gone
    · rw [Gone, config_life] at gone
      exact .inl gone
    · exact .inl gone
  | newThread u task =>
    dsimp only [DeviceThreads.step] at gone
    split at gone
    · by_cases same : t = u
      · simp [Gone, DeviceThreads.setLife, same] at gone
      · exact .inl (by simpa [Gone, DeviceThreads.setLife, same] using gone)
    · exact .inl gone
  | terminateThread u =>
    dsimp only [DeviceThreads.step] at gone
    split at gone
    case isTrue running =>
      rw [Gone, terminateThread_life] at gone
      by_cases same : t = u
      · subst same
        exact .inr ⟨rfl, running⟩
      · exact .inl (by simpa [Gone, same] using gone)
    case isFalse => exact .inl gone
  | removeTask task =>
    left
    dsimp only [DeviceThreads.step, DeviceThreads.removeTask, Gone] at gone
    split at gone
    · simp at gone
    · exact gone
  | deleteThread u =>
    dsimp only [DeviceThreads.step] at gone
    split at gone
    case isTrue terminated =>
      by_cases same : t = u
      · subst same
        exact .inl (.inl terminated)
      · exact .inl (by simpa [Gone, DeviceThreads.setLife, same] using gone)
    case isFalse => exact .inl gone
  | _ => exact .inl gone

theorem Remembers.step (remembers : Remembers s) (forgotten : Forgotten s op) :
    Remembers (s.step op) := by
  intro f t entered gone
  cases gone_step gone with
  | inl gone =>
    cases field_step entered with
    | inl kept => exact remembers f t kept gone
    | inr running => simp [Gone, running] at gone
  | inr ends =>
    obtain ⟨rfl, running⟩ := ends
    rw [DeviceThreads.step, if_pos running, field_terminateThread] at entered
    exact entered.2 (forgotten running f entered.1)

omit [DecidableEq β] [DecidableEq σ] [DecidableEq δ] [DecidableEq κ] [DecidableEq τ] in
theorem remembers_boot : Remembers (DeviceThreads.boot : DeviceThreads β σ δ κ τ) := by
  intro f t entered
  cases f <;> cases entered

omit [DecidableEq β] [DecidableEq σ] [DecidableEq δ] [DecidableEq κ] [DecidableEq τ] in
/-- What an event of a device is for is in one of its fields. -/
theorem field_of_reached (reached : s.reached op = some t) : ∃ f, s.field f = some t := by
  unfold DeviceThreads.reached at reached
  split at reached
  case h_8 => cases reached
  all_goals exact ⟨_, reached⟩

omit [DecidableEq β] [DecidableEq σ] [DecidableEq δ] [DecidableEq κ] [DecidableEq τ] in
theorem Remembers.safe (remembers : Remembers s) : Safe s where
  fields f t entered deleted := remembers f t entered (.inr deleted)
  events op t reached deleted := by
    obtain ⟨f, entered⟩ := field_of_reached reached
    exact remembers f t entered (.inr deleted)

/-- Along every run in which no thread terminates while a device that stays refers to it, no
device refers to a thread object that was deleted, and no event of a device is for one. -/
theorem safe_of_forgotten (ops : List (DeviceOp β σ δ κ τ))
    (forgotten : Admissible DeviceThreads.step Forgotten .boot ops) :
    Throughout DeviceThreads.step Safe .boot ops :=
  throughout_of_invariant Remembers (fun _ remembers => remembers.safe)
    (fun _ _ remembers forgotten => remembers.step forgotten) ops _ remembers_boot forgotten

/-- A reader is woken by a write and terminates. -/
theorem safe_of_forgotten_reader :
    Throughout DeviceThreads.step Safe (.boot : DeviceThreads Unit Unit Unit Unit Unit)
      [.newThread () (), .createBuffer () (fun _ => 0) 16, .buffer () (.readBytes () 4),
        .buffer () (.writeBytes (fun _ => 1) 4), .terminateThread (), .deleteThread ()] := by
  apply safe_of_forgotten
  refine ⟨trivial, trivial, trivial, trivial, fun _ f entered => ?_, trivial, trivial⟩
  cases f <;> cases entered

/-- A thread that terminates while a device refers to it is referred to when it is deleted. -/
theorem unsafe_of_remembered (remembered : ¬Forgotten s (.terminateThread t)) :
    ¬Safe (exec DeviceThreads.step s [.terminateThread t, .deleteThread t]) := by
  simp only [Forgotten, Classical.not_imp, not_forall] at remembered
  obtain ⟨running, f, entered, open_⟩ := remembered
  have left := field_terminateThread.mpr ⟨entered, open_⟩
  have terminated : (s.terminateThread t).life t = .terminated := by simp [terminateThread_life]
  have ends : exec DeviceThreads.step s [.terminateThread t, .deleteThread t] =
      (s.terminateThread t).setLife t .deleted := by
    simp [exec, DeviceThreads.step, running, terminated]
  rw [ends]
  intro safe
  exact safe.fields f t left (by simp [DeviceThreads.setLife])

/-- A timer is configured by a thread for itself, and the thread terminates. -/
theorem timer_refers : ¬∀ ops : List (DeviceOp Unit Unit Unit Unit Unit),
    Throughout DeviceThreads.step Safe .boot ops := by
  intro all
  obtain ⟨-, -, -, -, safe⟩ :=
    all [.newThread () (), .config () () none, .terminateThread (), .deleteThread ()]
  exact safe.fields (.llThread ()) () rfl rfl

end Steps

end Orcos.Guarantees.ThreadReferences
