import Orcos.Lib.Locking
import Orcos.Source.Comm.Socket
import Orcos.Source.Comm.TCPTransportProtocol

/-!
# The locks of the communication stack

Source: src/source/comm/Socket.cc; src/source/comm/TCPTransportProtocol.cc and
UDPTransportProtocol.cc; `~FixedSizePBufList` of src/source/comm/FixedSizePBufList.cc;
`callbackFunc` of src/source/kernel/KernelServiceThread.cc; `acquire` and `release` of
src/source/synchro/Mutex.cc.

Each call of a thread and each callback is a program: every access to a socket, every lock and
every call of lwIP is one step of it. The mutex of the communication stack is the outer lock,
the `m_lock` of a socket an inner one. lwIP gives any answers and calls back in any order, for
any sockets. Service discovery and what is sent are left out.
-/
namespace Orcos.Source.Comm.StackCalls
open Lib.Locking

inductive Protocol
  | tcp
  | udp
  deriving DecidableEq

def socketSending : BitVec 32 := 1 <<< 3

/-- A socket, for threads `τ` and sockets `ι`: whether it is bound and has a control block, and
whether that listens. -/
structure Sock (τ ι : Type) where
  type : SockType
  tproto : Protocol
  state : BitVec 32
  isBound : Bool
  messageBuffer : Option PBufList
  acceptedConnections : Option (ArrayList ι)
  blockedThread : Option τ
  sendBlockedThread : Option τ
  hasListeningThread : Bool
  arg : Bool
  listens : Bool

/-- The constructor. -/
def Sock.fresh {τ ι : Type} (type : SockType) (tproto : Protocol) : Sock τ ι :=
  ⟨type, tproto, socketDisconnected, false, some (.fresh 20), none, none, none, false, false, false⟩

variable {τ ι α : Type} [DecidableEq ι]

abbrev CallM (τ ι : Type) := Prog (ι → Sock τ ι) ι

def get (x : ι) (f : Sock τ ι → α) : CallM τ ι α := Prog.read fun s => f (s x)

def set (x : ι) (f : Sock τ ι → Sock τ ι) : CallM τ ι Unit :=
  Prog.update fun s => Function.update s x (f (s x))

/-- A call of lwIP. -/
def lwip : CallM τ ι ErrT := Prog.answer

/-- `Thread::block`; a thread may go on at any time. -/
def block : CallM τ ι Unit := do
  let _ ← Prog.answer

def spinlockGet (x : ι) : CallM τ ι Unit := Prog.lock (.inner x)

def spinlockFree (x : ι) : CallM τ ι Unit := Prog.unlock (.inner x)

def acquire : CallM τ ι Unit := Prog.lock .outer

def release : CallM τ ι Unit := Prog.unlock .outer

/-- Is one of these bits set? -/
def Sock.has (s : Sock τ ι) (bits : BitVec 32) : Bool := s.state &&& bits ≠ 0

def Sock.hasData (s : Sock τ ι) : Bool := s.messageBuffer.any PBufList.hasData

/-- A stream that was disconnected. -/
def Sock.isEnd (s : Sock τ ι) : Bool := s.type = .stream && s.has socketDisconnected

section Protocols

/-- `received` of both protocols. -/
def received (x : ι) : CallM τ ι Unit := do
  match ← get x (·.tproto) with
  | .tcp =>
    let pcb ← get x (·.arg)
    acquire
    if pcb then
      let _ ← lwip
    let _ ← lwip
    release
  | .udp =>
    acquire
    let _ ← lwip
    release

/-- `TCPTransportProtocol::send`. -/
def tcpSend (thread : τ) (x : ι) : CallM τ ι ErrorT := do
  acquire
  if !(← get x (·.arg)) then
    return cInvalidArgument
  let ret ← lwip
  if ret ≠ errOk then
    let _ ← lwip
    release
    set x fun s => { s with sendBlockedThread := some thread }
    block
    acquire
    let ret ← lwip
    if ret ≠ errOk then
      release
      return cTCPEnqueueFailed
  let _ ← lwip
  release
  return cOk

/-- `UDPTransportProtocol::sendto`. -/
def udpSendto (x : ι) : CallM τ ι ErrorT := do
  if !(← get x (·.arg)) then
    return cError
  acquire
  let p ← lwip
  if p ≠ 0 then
    let ret ← lwip
    let _ ← lwip
    release
    return if ret ≠ errOk then cError else cOk
  release
  return cError

/-- `sendto` or `send` of both protocols, by the type and the state of the socket. -/
def protocolSend (thread : τ) (x : ι) : CallM τ ι ErrorT := do
  let type ← get x (·.type)
  let tproto ← get x (·.tproto)
  match type, tproto with
  | .dgram, .udp => udpSendto x
  | .dgram, .tcp => return cError
  | .stream, .tcp =>
    if ← get x (·.has socketConnected) then
      tcpSend thread x
    else
      return cNotConnected
  | .stream, .udp => return if ← get x (·.has socketConnected) then cError else cNotConnected

/-- `connect` of both protocols. -/
def protocolConnect (x : ι) : CallM τ ι ErrorT := do
  match ← get x (·.tproto) with
  | .tcp =>
    acquire
    if ← get x (·.arg) then
      release
      let _ ← lwip
      return cOk
    release
    return cInvalidArgument
  | .udp => return cError

/-- `listen` of both protocols. -/
def protocolListen (x : ι) : CallM τ ι ErrorT := do
  match ← get x (·.tproto) with
  | .tcp =>
    if ← get x (·.arg) then
      if ← get x (·.listens) then
        return cOk
      acquire
      let lpcb ← lwip
      if lpcb ≠ 0 then
        let _ ← lwip
        set x fun s => { s with arg := true, listens := true }
        let _ ← lwip
        release
        return cOk
      release
      return cError
    release
    return cOk
  | .udp => return cError

/-- `unregister_socket` of both protocols. -/
def unregisterSocket (x : ι) : CallM τ ι ErrorT := do
  match ← get x (·.tproto) with
  | .tcp =>
    if ← get x (·.arg) then
      acquire
      let _ ← lwip
      set x fun s => { s with arg := false, listens := false }
      let _ ← lwip
      release
      return cOk
    return cInvalidArgument
  | .udp =>
    if ← get x (·.arg) then
      acquire
      let _ ← lwip
      release
      return cOk
    return cInvalidArgument

/-- `disconnect` of both protocols. -/
def disconnect (x : ι) : CallM τ ι ErrorT := do
  match ← get x (·.tproto) with
  | .tcp => unregisterSocket x
  | .udp => return cError

end Protocols

section Callbacks

/-- `Socket::addMessage`. -/
def addMessage (x : ι) (p : PBuf) : CallM τ ι ErrorT := do
  if ← get x (·.messageBuffer.isNone) then
    return cError
  spinlockGet x
  set x fun s => { s with messageBuffer := s.messageBuffer.map fun l => (l.addPbuf p).1 }
  set x fun s => { s with blockedThread := none }
  spinlockFree x
  return cOk

/-- `Socket::disconnected`. -/
def disconnected (x : ι) : CallM τ ι Unit := do
  set x fun s => { s with state := socketDisconnected }
  spinlockGet x
  set x fun s => { s with blockedThread := none }
  spinlockFree x

/-- `Socket::connected`. -/
def connected (x : ι) (error : ErrorT) : CallM τ ι Unit := do
  if ← get x (·.has socketListening) then
    return ()
  set x fun s => { s with
    state := if error ≠ cOk then socketDisconnected else socketConnected }
  set x fun s => { s with blockedThread := none }

/-- `Socket::accepted`. -/
def accepted (x newConnection : ι) : CallM τ ι ErrorT := do
  if !(← get x (·.has socketListening)) then
    return cError
  if ← get x (·.acceptedConnections.isNone) then
    return cError
  spinlockGet x
  let error ← get x fun s => (s.acceptedConnections.map fun l =>
    (l.addTail (some newConnection)).2).getD cError
  set x fun s => { s with acceptedConnections :=
    s.acceptedConnections.map fun l => (l.addTail (some newConnection)).1 }
  spinlockFree x
  return error

/-- `~Socket` without the connections that it has accepted; `~FixedSizePBufList`. -/
def destroySocket (x : ι) : CallM τ ι Unit := do
  let registered ← get x fun s =>
    s.has (socketConnected ||| socketListening) || s.type = .dgram
  if registered then
    let _ ← unregisterSocket x
  if ← get x (·.messageBuffer.isSome) then
    acquire
    let _ ← lwip
    release
    set x fun s => { s with messageBuffer := none }

/-- The connections that nobody has taken are destroyed. -/
def destroyAccepted (x : ι) : Nat → CallM τ ι Unit
  | 0 => return ()
  | count + 1 => do
    let first ← get x fun s => s.acceptedConnections.bind fun l => l.removeHead.2
    set x fun s => { s with
      acceptedConnections := s.acceptedConnections.map fun l => l.removeHead.1 }
    match first with
    | some t =>
      destroySocket t
      destroyAccepted x count
    | none => return ()

/-- `~Socket`. -/
def destroy (x : ι) : CallM τ ι Unit := do
  destroySocket x
  let count ← get x fun s => (s.acceptedConnections.map ArrayList.size).getD 0
  destroyAccepted x (count + 1)
  set x fun s => { s with acceptedConnections := none }

/-- `tcp_recv_wrapper`. -/
def tcpRecvWrapper (sock : Option ι) (p : Option PBuf) : CallM τ ι ErrT := do
  match p, sock with
  | some p, some x => addMessage x p
  | some _, none =>
    let _ ← lwip
    return errOk
  | none, some x =>
    set x fun s => { s with arg := false }
    disconnected x
    let _ ← lwip
    return errOk
  | none, none =>
    let _ ← lwip
    return errOk

/-- `tcp_err_wrapper`. -/
def tcpErrWrapper (sock : Option ι) (fatal : Bool) : CallM τ ι Unit := do
  if let some x := sock then
    if fatal then
      disconnected x

/-- `tcp_connected`. -/
def tcpConnected (sock : Option ι) (err : ErrT) : CallM τ ι Unit := do
  if let some x := sock then
    if err = errOk then
      connected x cOk
      set x fun s => { s with arg := true }
    else
      connected x cError
      set x fun s => { s with arg := false }

/-- `tcp_accept_wrapper`. -/
def tcpAcceptWrapper (oldsock : Option ι) (newsock : ι) : CallM τ ι ErrT := do
  match oldsock with
  | none => return cError
  | some x =>
    if !(← get x fun s => s.arg && s.listens) then
      return cError
    let type ← get x (·.type)
    let tproto ← get x (·.tproto)
    set newsock fun _ => .fresh type tproto
    set newsock fun s => { s with arg := true }
    connected newsock cOk
    let error ← accepted x newsock
    if isOk error then
      return errOk
    destroy newsock
    return cError

/-- `tcp_sent_wrapper`. -/
def tcpSentWrapper (sock : Option ι) : CallM τ ι Unit := do
  if let some x := sock then
    set x fun s => { s with sendBlockedThread := none }

/-- `udp_recv_wrapper`. -/
def udpRecvWrapper (sock : Option ι) (p : Option PBuf) : CallM τ ι Unit := do
  if let (some x, some p) := (sock, p) then
    let _ ← addMessage x p

/-- What lwIP calls back for. -/
inductive Event (ι : Type)
  | tcpRecv (sock : Option ι) (p : Option PBuf)
  | tcpErr (sock : Option ι) (fatal : Bool)
  | tcpConnected (sock : Option ι) (err : ErrT)
  | tcpAccept (oldsock : Option ι) (newsock : ι)
  | tcpSent (sock : Option ι)
  | udpRecv (sock : Option ι) (p : Option PBuf)

def handle : Event ι → CallM τ ι Unit
  | .tcpRecv sock p => do let _ ← tcpRecvWrapper sock p
  | .tcpErr sock fatal => tcpErrWrapper sock fatal
  | .tcpConnected sock err => tcpConnected sock err
  | .tcpAccept oldsock newsock => do let _ ← tcpAcceptWrapper oldsock newsock
  | .tcpSent sock => tcpSentWrapper sock
  | .udpRecv sock p => udpRecvWrapper sock p

end Callbacks

section Calls

/-- `register_socket` of both protocols; `tcp_new` may abort other connections. -/
def registerSocket (x : ι) (aborted : List (Event ι)) : CallM τ ι ErrorT := do
  match ← get x (·.tproto) with
  | .tcp =>
    acquire
    aborted.forM handle
    let pcb ← lwip
    if pcb = 0 then
      release
      return cErrorAllocatingMemory
    let err ← lwip
    if err ≠ errOk then
      release
      let _ ← lwip
      return cErrorBindingPort
    let _ ← lwip
    set x fun s => { s with arg := true, listens := false }
    release
    return cOk
  | .udp =>
    acquire
    let pcb ← lwip
    release
    if pcb ≠ 0 then
      let err ← lwip
      if err ≠ errOk then
        return cErrorBindingPort
      set x fun s => { s with arg := true }
      return cOk
    set x fun s => { s with arg := false }
    return cErrorAllocatingMemory

/-- `Socket::bind`; a socket with the address zero counts as not bound. -/
def bind (x : ι) (saData : BitVec 32) (aborted : List (Event ι)) : CallM τ ι ErrorT := do
  if ← get x (·.isBound) then
    return cSocketAlreadyBoundError
  let error ← registerSocket x aborted
  if isOk error then
    set x fun s => { s with isBound := saData ≠ 0 }
  return error

/-- `Socket::connect`. -/
def connect (thread : τ) (x : ι) : CallM τ ι ErrorT := do
  if ← get x (·.has socketListening) then
    return cError
  if (← get x (·.type)) = .stream then
    if ← get x (·.has socketConnected) then
      let _ ← disconnect x
    set x fun s => { s with state := socketDisconnected }
    let _ ← protocolConnect x
    set x fun s => { s with blockedThread := some thread }
    block
    set x fun s => { s with blockedThread := none }
    let state ← get x (·.state)
    return if state = socketConnected then cOk else cErrorConnecting
  return cInvalidSocketType

/-- The part of `Socket::listen` that waits for a connection and takes it. -/
def awaitConnection (thread : τ) (x : ι) : CallM τ ι (ErrorT × Option ι) := do
  spinlockGet x
  if ← get x (·.blockedThread.isNone) then
    set x fun s => { s with blockedThread := some thread }
    spinlockFree x
    if (← get x fun s => (s.acceptedConnections.map ArrayList.size).getD 0) = 0 then
      block
    spinlockGet x
    let newConn ← get x fun s => s.acceptedConnections.bind fun l => l.removeHead.2
    set x fun s => { s with
      acceptedConnections := s.acceptedConnections.map fun l => l.removeHead.1 }
    spinlockFree x
    set x fun s => { s with blockedThread := none }
    return (if newConn.isNone then cTimeout else cOk, newConn)
  spinlockFree x
  return (cSocketAlreadyListened, none)

/-- `Socket::listen` until it returns; the new connection becomes a resource outside. -/
def listen (thread : τ) (x : ι) (backlogSize : Nat) : CallM τ ι (ErrorT × Option ι) := do
  if (← get x (·.type)) ≠ .stream then
    return (cInvalidSocketType, none)
  set x fun s => { s with state := socketListening }
  if ← get x (·.acceptedConnections.isNone) then
    set x fun s => { s with acceptedConnections := some (.fresh backlogSize) }
  if !(← get x (·.hasListeningThread)) then
    set x fun s => { s with hasListeningThread := true }
    let ret ← protocolListen x
    if ret < 0 then
      return (ret, none)
  awaitConnection thread x

/-- `Socket::sendto`. -/
def sendto (thread : τ) (x : ι) : CallM τ ι ErrorT := do
  let sends ← get x fun s => s.type = .dgram || s.has socketConnected
  if !sends then
    return cError
  spinlockGet x
  if ← get x (·.has socketSending) then
    spinlockFree x
    return cError
  set x fun s => { s with state := s.state ||| socketSending }
  spinlockFree x
  let ret ← protocolSend thread x
  spinlockGet x
  set x fun s => { s with state := s.state &&& ~~~socketSending }
  spinlockFree x
  return ret

/-- The last section of `Socket::recvfrom`. -/
def fetch (x : ι) (dataSize : Nat) : CallM τ ι ErrorT := do
  spinlockGet x
  let first ← get x fun s => (s.messageBuffer.map fun l => (l.getFirst dataSize).2).getD
    ⟨cNoData, none, []⟩
  set x fun s => { s with messageBuffer := s.messageBuffer.map fun l => (l.getFirst dataSize).1 }
  if 0 < first.ret ∧ first.pb.isSome then
    received x
  spinlockFree x
  return first.ret

/-- `Socket::recvfrom`. -/
def recvfrom (thread : τ) (x : ι) (dataSize : Nat) (wait : Bool) : CallM τ ι ErrorT := do
  spinlockGet x
  if ← get x Sock.hasData then
    spinlockFree x
    fetch x dataSize
  else if ← get x Sock.isEnd then
    spinlockFree x
    return -1
  else if wait then
    if ← get x (·.blockedThread.isNone) then
      set x fun s => { s with blockedThread := some thread }
      spinlockFree x
      block
      set x fun s => { s with blockedThread := none }
      if ← get x fun s => !s.hasData && s.isEnd then
        return -1
      fetch x dataSize
    else
      spinlockFree x
      return cInvalidConcurrentAccess
  else
    spinlockFree x
    return 0

/-- What a thread can call; the network thread, with the timers, takes the mutex and has lwIP
call back. -/
inductive Call (ι : Type)
  | bind (x : ι) (saData : BitVec 32) (aborted : List (Event ι))
  | connect (x : ι)
  | listen (x : ι) (backlogSize : Nat)
  | sendto (x : ι)
  | recvfrom (x : ι) (dataSize : Nat) (wait : Bool)
  | destroy (x : ι)
  | network (events : List (Event ι))

def program (thread : τ) : Call ι → CallM τ ι Unit
  | .bind x saData aborted => do let _ ← bind x saData aborted
  | .connect x => do let _ ← connect thread x
  | .listen x backlogSize => do let _ ← listen thread x backlogSize
  | .sendto x => do let _ ← sendto thread x
  | .recvfrom x dataSize wait => do let _ ← recvfrom thread x dataSize wait
  | .destroy x => destroy x
  | .network events => do
    acquire
    events.forM handle
    release

end Calls

end Orcos.Source.Comm.StackCalls
