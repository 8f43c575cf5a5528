import Orcos.Source.Comm.Socket
import Orcos.Source.Hal.BufferDevice

/-!
# Threads that devices refer to

Source: src/source/hal/BufferDevice.cc, `readBytes`, `writeBytes`; src/source/comm/Socket.cc;
src/source/comm/TCPTransportProtocol.cc, `send`, `tcp_sent_wrapper`;
src/source/hal/TimerDevice.cc, `handleIRQ`, `ioctl`;
src/source/process/TaskManager.cc, `terminateThread`, `removeTask`, `getThread`;
src/source/process/Task.cc, `terminate`, `removeThread`, `releaseResource`;
src/source/mem/SequentialFitMemManager.cc, `scheduleDeletion`, `service`.

Any number of buffer devices, sockets and timer devices, and the threads that come and go. A
thread object is another one than all before it, also when it gets their memory. The threads of
a task that is removed are not scheduled for deletion. A call of `ioctl` is one step: it is taken
that a thread does not end between the search for it and the store of `llThread`.
-/
namespace Orcos.Source

/-- The thread that makes a step of a socket, or that a time-out is for; the others are those of
the network thread and of the kernel service thread. -/
def Comm.Step.thread {τ : Type} : Comm.Step τ → Option τ
  | .recvfrom thread _ => some thread
  | .listen thread _ => some thread
  | .lookForConnections thread => some thread
  | .connect thread => some thread
  | .register thread => some thread
  | .block thread => some thread
  | .dispatcherBlock thread => some thread
  | .timeout thread => some thread
  | .resume thread => some thread
  | .getFirst thread _ => some thread
  | .removeHead thread => some thread
  | .leave thread _ => some thread
  | _ => none

/-- `Socket::disconnected`. -/
def Comm.Socket.disconnected {τ : Type} [DecidableEq τ] (s : Comm.Socket τ) : Comm.Socket τ :=
  let s := { s with state := Comm.socketDisconnected }
  match s.blockedThread with
  | some thread => (s.unblock thread).setBlockedThread none
  | none => s

/-- The thread that reads; a write is made by any thread. -/
def Hal.Call.thread {τ : Type} : Hal.Call τ → Option τ
  | .readBytes thread _ => some thread
  | .resume thread => some thread
  | _ => none

/-- A thread object. It is `terminated` while its deletion is scheduled, and `killed` when it
ended with its task. -/
inductive Life
  | unborn
  | running
  | killed
  | terminated
  | deleted
  deriving DecidableEq

/-- A socket with its `sendBlockedThread` and the task that has acquired it. -/
structure Endpoint (κ τ : Type) where
  socket : Comm.Socket τ
  sendBlockedThread : Option τ
  holder : Option κ

structure DeviceThreads (β σ δ κ τ : Type) where
  buffers : β → Option (Hal.Stream τ)
  sockets : σ → Option (Endpoint κ τ)
  llThread : δ → Option τ
  life : τ → Life
  owner : τ → Option κ
  threadDb : κ → List τ

/-- The fields of devices that refer to a thread. -/
inductive ThreadField (β σ δ : Type)
  | reader (buffer : β)
  | blockedThread (socket : σ)
  | sendBlockedThread (socket : σ)
  | llThread (timer : δ)

inductive DeviceOp (β σ δ κ τ : Type)
  | createBuffer (buffer : β) (cells : Nat → Hal.Byte) (size : BitVec 32)
  | deleteBuffer (buffer : β)
  | buffer (buffer : β) (call : Hal.Call τ)
  | createSocket (socket : σ) (type : Comm.SockType) (holder : Option κ)
  | addResource (socket : σ) (task : κ)
  | deleteSocket (socket : σ)
  | socket (socket : σ) (step : Comm.Step τ)
  | disconnected (socket : σ)
  | send (socket : σ) (thread : τ)
  | sent (socket : σ)
  | config (timer : δ) (thread : τ) (threadId : Option τ)
  | reset (timer : δ)
  | handleIRQ (timer : δ)
  | newThread (thread : τ) (task : κ)
  | terminateThread (thread : τ)
  | removeTask (task : κ)
  | deleteThread (thread : τ)

namespace DeviceThreads

variable {β σ δ κ τ : Type}

def boot : DeviceThreads β σ δ κ τ where
  buffers _ := none
  sockets _ := none
  llThread _ := none
  life _ := .unborn
  owner _ := none
  threadDb _ := []

/-- The thread in a field of a device that exists. -/
def field (s : DeviceThreads β σ δ κ τ) : ThreadField β σ δ → Option τ
  | .reader buffer => (s.buffers buffer).bind fun stream => stream.device.blockedThread
  | .blockedThread socket => (s.sockets socket).bind fun endpoint => endpoint.socket.blockedThread
  | .sendBlockedThread socket => (s.sockets socket).bind fun endpoint => endpoint.sendBlockedThread
  | .llThread timer => s.llThread timer

variable [DecidableEq β] [DecidableEq σ] [DecidableEq δ] [DecidableEq κ] [DecidableEq τ]
variable (s : DeviceThreads β σ δ κ τ)

/-- The thread of a step runs. -/
def runs (thread : Option τ) : Bool := thread.all fun t => s.life t = .running

def setBuffer (buffer : β) (stream : Option (Hal.Stream τ)) : DeviceThreads β σ δ κ τ :=
  { s with buffers := Function.update s.buffers buffer stream }

def setSocket (socket : σ) (endpoint : Option (Endpoint κ τ)) : DeviceThreads β σ δ κ τ :=
  { s with sockets := Function.update s.sockets socket endpoint }

def setLlThread (timer : δ) (thread : Option τ) : DeviceThreads β σ δ κ τ :=
  { s with llThread := Function.update s.llThread timer thread }

def setLife (thread : τ) (life : Life) : DeviceThreads β σ δ κ τ :=
  { s with life := Function.update s.life thread life }

/-- `TimerDevice::ioctl` with `TIMER_IOCTL_CONFIG`. The threads of the tasks are those that
run. -/
def config (timer : δ) (thread : τ) : Option τ → DeviceThreads β σ δ κ τ
  | none => if s.llThread timer = none then s.setLlThread timer (some thread) else s
  | some threadId =>
    if s.llThread timer = none then
      s.setLlThread timer (if s.life threadId = .running then some threadId else none)
    else s

/-- `Task::releaseResource` for the resources of a task: its sockets are deleted. -/
def releaseResources (task : κ) : DeviceThreads β σ δ κ τ :=
  { s with sockets := fun socket =>
      (s.sockets socket).filter fun endpoint => endpoint.holder ≠ some task }

/-- `TaskManager::terminateThread`. The last thread takes its task with it. -/
def terminateThread (thread : τ) : DeviceThreads β σ δ κ τ :=
  match s.owner thread with
  | none => s.setLife thread .terminated
  | some task =>
    let rest := (s.threadDb task).erase thread
    let s := { s.setLife thread .terminated with
      owner := Function.update s.owner thread none
      threadDb := Function.update s.threadDb task rest }
    if rest = [] then s.releaseResources task else s

/-- `TaskManager::removeTask`. -/
def removeTask (task : κ) : DeviceThreads β σ δ κ τ :=
  { s.releaseResources task with
    life := fun t => if t ∈ s.threadDb task then .killed else s.life t
    owner := fun t => if t ∈ s.threadDb task then none else s.owner t
    threadDb := Function.update s.threadDb task [] }

/-- What cannot be done has no effect. -/
def step : DeviceOp β σ δ κ τ → DeviceThreads β σ δ κ τ
  | .createBuffer buffer cells size =>
    if (s.buffers buffer).isNone then s.setBuffer buffer (some (.fresh cells size)) else s
  | .deleteBuffer buffer => s.setBuffer buffer none
  | .buffer buffer call =>
    if s.runs call.thread then
      s.setBuffer buffer ((s.buffers buffer).map fun stream => stream.step call)
    else s
  | .createSocket socket type holder =>
    if (s.sockets socket).isNone then s.setSocket socket (some ⟨.fresh type, none, holder⟩) else s
  | .addResource socket task =>
    s.setSocket socket
      ((s.sockets socket).map fun endpoint => { endpoint with holder := some task })
  | .deleteSocket socket => s.setSocket socket none
  | .socket socket step =>
    if s.runs step.thread then
      s.setSocket socket ((s.sockets socket).map fun endpoint =>
        { endpoint with socket := endpoint.socket.step step })
    else s
  | .disconnected socket =>
    s.setSocket socket ((s.sockets socket).map fun endpoint =>
      { endpoint with socket := endpoint.socket.disconnected })
  | .send socket thread =>
    if s.life thread = .running then
      s.setSocket socket ((s.sockets socket).map fun endpoint =>
        { endpoint with sendBlockedThread := some thread })
    else s
  | .sent socket =>
    s.setSocket socket ((s.sockets socket).map fun endpoint =>
      { endpoint with sendBlockedThread := none })
  | .config timer thread threadId =>
    if s.life thread = .running then s.config timer thread threadId else s
  | .reset timer => s.setLlThread timer none
  | .handleIRQ _ => s
  | .newThread thread task =>
    if s.life thread = .unborn then
      { s.setLife thread .running with
        owner := Function.update s.owner thread (some task)
        threadDb := Function.update s.threadDb task (s.threadDb task ++ [thread]) }
    else s
  | .terminateThread thread => if s.life thread = .running then s.terminateThread thread else s
  | .removeTask task => s.removeTask task
  | .deleteThread thread =>
    if s.life thread = .terminated then s.setLife thread .deleted else s

/-- The thread object that an event of a device is for: `unblock` is called on it, or its status
is read and its context restored. -/
def reached : DeviceOp β σ δ κ τ → Option τ
  | .buffer buffer (.writeBytes _ _) => s.field (.reader buffer)
  | .socket socket (.tcpRecv _) => s.field (.blockedThread socket)
  | .socket socket (.accepted _) => s.field (.blockedThread socket)
  | .socket socket .readBlockedThread => s.field (.blockedThread socket)
  | .disconnected socket => s.field (.blockedThread socket)
  | .sent socket => s.field (.sendBlockedThread socket)
  | .handleIRQ timer => s.field (.llThread timer)
  | _ => none

end DeviceThreads

end Orcos.Source
