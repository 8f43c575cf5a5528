import Orcos.Source.ArrayList
import Orcos.Source.Comm.PBufList

/-!
# Sockets

Source: src/source/comm/Socket.cc, `recvfrom`, `addMessage`, `listen`, `accepted`,
`connect`, `connected`; src/source/comm/TCPTransportProtocol.cc, `tcp_recv_wrapper`,
`received`; src/source/process/Thread.cc, `block`, `unblock`;
src/source/kernel/KernelServiceThread.cc, `callbackFunc`.

Any number of threads call a socket, and the network thread calls it back. A step is what
a thread does between two places at which others can come in: a section with the lock
held, or one access to the socket without it. `Thread::block` sets the flag of the thread with
interrupts enabled, so that others can come in before the dispatcher puts it on its list; and
`Thread::unblock` looks at the flag before it clears it. The transport protocol does what it
is told, and sending is left out.
-/
namespace Orcos.Source.Comm

inductive SockType
  | dgram
  | stream
  deriving DecidableEq

def socketDisconnected : BitVec 32 := 1 <<< 0
def socketConnected : BitVec 32 := 1 <<< 1
def socketListening : BitVec 32 := 1 <<< 2

inductive Call
  | recvfrom
  | listen
  | connect
  deriving DecidableEq

/-- Where a thread is. It is `committed` right before it calls `block`, `flagged` when that has
set its `cBlockedFlag`, and `asleep` on the list of the dispatcher. It is `unflagged` when it was
unblocked before the dispatcher got it, which then leaves it `stranded` on the list. -/
inductive Place
  | away
  | starting
  | registered
  | committed (call : Call)
  | flagged (call : Call)
  | unflagged (call : Call)
  | asleep (call : Call)
  | stranded (call : Call)
  | awake (call : Call)
  | fetching (call : Call)
  | leaving (newConn : Option Nat)
  deriving DecidableEq

/-- `isBlocked`. -/
def Place.isBlocked : Place → Bool
  | .flagged _ => true
  | .asleep _ => true
  | _ => false

/-- Where the network thread is: it calls `unblock` outside the lock, where it is `unblocking`
when it has found the flag set, and `connected` clears `blockedThread` afterwards. -/
inductive Network (τ : Type)
  | idle
  | answering
  | waking (thread : τ) (clears : Bool)
  | unblocking (thread : τ) (clears : Bool)
  | clearing
  deriving DecidableEq

/-- The thread that it calls `unblock` on. -/
def Network.thread {τ : Type} : Network τ → Option τ
  | .waking thread _ => some thread
  | .unblocking thread _ => some thread
  | _ => none

/-- A socket and the threads that use it. `expired` is the thread that the kernel service thread
is unblocking, as its time is over. `answered` says that `connected` was called since the last
`connect`; the last fields collect the segments that `tcp_recv_wrapper` took over, those that
`tcp_recved` was told of, and the bytes that receivers got. -/
structure Socket (τ : Type) where
  messageBuffer : PBufList
  type : SockType
  state : BitVec 32
  acceptedConnections : Option (ArrayList Nat)
  blockedThread : Option τ
  place : τ → Place
  returned : τ → Int
  network : Network τ
  expired : Option τ
  answered : Bool
  acknowledged : List PBuf
  received : List PBuf
  obtained : List Byte

inductive Step (τ : Type)
  | recvfrom (thread : τ) (wait : Bool)
  | listen (thread : τ) (backlogSize : Nat)
  | lookForConnections (thread : τ)
  | connect (thread : τ)
  | register (thread : τ)
  | block (thread : τ)
  | dispatcherBlock (thread : τ)
  | timeout (thread : τ)
  | expire
  | resume (thread : τ)
  | getFirst (thread : τ) (dataSize : Nat)
  | removeHead (thread : τ)
  | leave (thread : τ) (fd : Int)
  | tcpRecv (p : PBuf)
  | accepted (newConnection : Nat)
  | connected (error : ErrorT)
  | readBlockedThread
  | isBlocked
  | unblock
  | clear

namespace Socket

variable {τ : Type} [DecidableEq τ] (s : Socket τ)

/-- The constructor. -/
def fresh (type : SockType) : Socket τ where
  messageBuffer := .fresh 20
  type := type
  state := socketDisconnected
  acceptedConnections := none
  blockedThread := none
  place _ := .away
  returned _ := 0
  network := .idle
  expired := none
  answered := false
  acknowledged := []
  received := []
  obtained := []

def setPlace (thread : τ) (place : Place) : Socket τ :=
  { s with place := Function.update s.place thread place }

/-- The call of a thread ends. -/
def return_ (thread : τ) (ret : Int) : Socket τ :=
  { s.setPlace thread .away with returned := Function.update s.returned thread ret }

def setBlockedThread (thread : Option τ) : Socket τ := { s with blockedThread := thread }

def setNetwork (network : Network τ) : Socket τ := { s with network := network }

/-- A stream that was disconnected, and nothing left to receive. -/
def isEnd : Bool :=
  s.messageBuffer.hasData = false ∧ s.type = .stream ∧ s.state &&& socketDisconnected ≠ 0

/-- `recvfrom` up to the end of its first section. -/
def recvfrom (thread : τ) (wait : Bool) : Socket τ :=
  if s.messageBuffer.hasData then s.setPlace thread (.fetching .recvfrom)
  else if s.isEnd then s.return_ thread (-1)
  else if wait then
    if s.blockedThread = none then
      (s.setBlockedThread (some thread)).setPlace thread (.committed .recvfrom)
    else s.return_ thread cInvalidConcurrentAccess
  else s.return_ thread 0

/-- `recvfrom` behind `block`. -/
def recvfromResume (thread : τ) : Socket τ :=
  let s := s.setBlockedThread none
  if s.isEnd then s.return_ thread (-1) else s.setPlace thread (.fetching .recvfrom)

/-- The last section of `recvfrom`, with `TCPTransportProtocol::received`. -/
def recvfromFetch (thread : τ) (dataSize : Nat) : Socket τ :=
  let first := (s.messageBuffer.getFirst dataSize).2
  { s.return_ thread first.ret with
    messageBuffer := (s.messageBuffer.getFirst dataSize).1
    received := s.received ++ if 0 < first.ret then first.pb.toList else []
    obtained := s.obtained ++ first.data }

/-- `listen` up to the end of its first section. -/
def listen (thread : τ) (backlogSize : Nat) : Socket τ :=
  if s.type ≠ .stream then s.return_ thread cInvalidSocketType
  else
    let s := { s with
      state := socketListening
      acceptedConnections := some (s.acceptedConnections.getD (ArrayList.fresh backlogSize)) }
    if s.blockedThread = none then (s.setBlockedThread (some thread)).setPlace thread .registered
    else s.return_ thread cSocketAlreadyListened

/-- The pending connections. -/
def connections : Nat := (s.acceptedConnections.map ArrayList.size).getD 0

/-- `listen` looks without the lock. -/
def lookForConnections (thread : τ) : Socket τ :=
  if s.connections = 0 then s.setPlace thread (.committed .listen)
  else s.setPlace thread (.fetching .listen)

def removeHead (thread : τ) : Socket τ :=
  match s.acceptedConnections with
  | none => s.setPlace thread (.leaving none)
  | some list =>
    { s with acceptedConnections := some list.removeHead.1 }.setPlace thread
      (.leaving list.removeHead.2)

/-- `connect` up to the call of the transport protocol. -/
def connect (thread : τ) : Socket τ :=
  if s.state &&& socketListening ≠ 0 then s.return_ thread cError
  else if s.type = .stream then
    { s with state := socketDisconnected, answered := false }.setPlace thread .starting
  else s.return_ thread cInvalidSocketType

/-- `Socket::addMessage` up to the end of its section. Its result does not depend on that of
`addPbuf`. -/
def addMessage (p : PBuf) : Socket τ × ErrorT :=
  ({ s with
    messageBuffer := (s.messageBuffer.addPbuf p).1
    network := match s.blockedThread with
      | some thread => .waking thread false
      | none => .idle
    blockedThread := none }, cOk)

/-- `tcp_recv_wrapper`; a segment for which it returns `ERR_OK` is taken over. -/
def tcpRecvWrapper (p : PBuf) : Socket τ :=
  let (s, err) := s.addMessage p
  if err = cOk then { s with acknowledged := s.acknowledged ++ [p] } else s

def accepted (newConnection : Nat) : Socket τ :=
  if s.state &&& socketListening = 0 then s
  else match s.acceptedConnections with
    | none => s
    | some list =>
      let (list, error) := list.addTail (some newConnection)
      if isOk error then
        { s with
          acceptedConnections := some list
          network := match s.blockedThread with
            | some thread => .waking thread false
            | none => .idle }
      else { s with acceptedConnections := some list }

/-- `connected` sets the state. -/
def connected (error : ErrorT) : Socket τ :=
  if s.state &&& socketListening ≠ 0 then s
  else { s with
    state := if error ≠ cOk then socketDisconnected else socketConnected
    answered := true
    network := .answering }

def readBlockedThread : Socket τ :=
  s.setNetwork (match s.blockedThread with
    | some thread => .waking thread true
    | none => .idle)

/-- `SingleCPUDispatcher::block`. -/
def dispatcherBlock (thread : τ) : Socket τ :=
  match s.place thread with
  | .flagged call => s.setPlace thread (.asleep call)
  | .unflagged call => s.setPlace thread (.stranded call)
  | _ => s

/-- `Thread::unblock` behind the test: it clears the flag, and the dispatcher takes the thread
off its list. -/
def unflag (thread : τ) : Socket τ :=
  match s.place thread with
  | .flagged call => s.setPlace thread (.unflagged call)
  | .asleep call => s.setPlace thread (.awake call)
  | .stranded call => s.setPlace thread (.awake call)
  | _ => s

/-- `Thread::unblock` as a whole. -/
def unblock (thread : τ) : Socket τ :=
  if (s.place thread).isBlocked then s.unflag thread else s

/-- The network thread is done with `unblock`. -/
def unblocked (clears : Bool) : Socket τ := s.setNetwork (if clears then .clearing else .idle)

/-- A step is made by a thread that is at its place; otherwise nothing happens. -/
def step : Step τ → Socket τ
  | .recvfrom thread wait =>
    if s.place thread = .away then s.recvfrom thread wait else s
  | .listen thread backlogSize =>
    if s.place thread = .away then s.listen thread backlogSize else s
  | .lookForConnections thread =>
    if s.place thread = .registered then s.lookForConnections thread else s
  | .connect thread => if s.place thread = .away then s.connect thread else s
  | .register thread =>
    if s.place thread = .starting then
      (s.setBlockedThread (some thread)).setPlace thread (.committed .connect)
    else s
  | .block thread =>
    match s.place thread with
    | .committed call => s.setPlace thread (.flagged call)
    | _ => s
  | .dispatcherBlock thread => s.dispatcherBlock thread
  | .timeout thread =>
    if s.expired = none ∧ (s.place thread).isBlocked then { s with expired := some thread } else s
  | .expire =>
    match s.expired with
    | some thread => { s.unflag thread with expired := none }
    | none => s
  | .resume thread =>
    match s.place thread with
    | .awake .recvfrom => s.recvfromResume thread
    | .awake .listen => s.setPlace thread (.fetching .listen)
    | .awake .connect =>
      (s.setBlockedThread none).return_ thread
        (if s.state = socketConnected then cOk else cErrorConnecting)
    | _ => s
  | .getFirst thread dataSize =>
    if s.place thread = .fetching .recvfrom then s.recvfromFetch thread dataSize else s
  | .removeHead thread =>
    if s.place thread = .fetching .listen then s.removeHead thread else s
  | .leave thread fd =>
    match s.place thread with
    | .leaving newConn =>
      (s.setBlockedThread none).return_ thread (if newConn = none then cTimeout else fd)
    | _ => s
  | .tcpRecv p => if s.network = .idle then s.tcpRecvWrapper p else s
  | .accepted newConnection => if s.network = .idle then s.accepted newConnection else s
  | .connected error => if s.network = .idle then s.connected error else s
  | .readBlockedThread => if s.network = .answering then s.readBlockedThread else s
  | .isBlocked =>
    match s.network with
    | .waking thread clears =>
      if (s.place thread).isBlocked then s.setNetwork (.unblocking thread clears)
      else s.unblocked clears
    | _ => s
  | .unblock =>
    match s.network with
    | .unblocking thread clears => (s.unflag thread).unblocked clears
    | _ => s
  | .clear =>
    if s.network = .clearing then (s.setBlockedThread none).setNetwork .idle else s

end Socket

end Orcos.Source.Comm
