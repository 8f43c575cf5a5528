import Orcos.Source.Comm.Socket
import Orcos.Source.Comm.TCPTransportProtocol
import Orcos.Source.Tasks.Resources

/-!
# Connections of a listening socket

Source: src/source/comm/Socket.cc, `listen`, `accepted`, `connected`, `~Socket`;
src/source/comm/TCPTransportProtocol.cc, `tcp_accept_wrapper`, `tcp_recv_wrapper`,
`tcp_err_wrapper`, `unregister_socket`; src/source/syscalls/sc_net.cc, `sc_listen`;
src/source/process/Task.cc, `addResource`, `removeResource`, `releaseResource`;
src/source/inc/Bitmap.hh, `getNextID`, `freeID`.

Any number of threads listen on one socket. A step is one access of a thread to what it
shares with others, or one section with the lock held; the network thread holds the mutex of
the communication stack while lwIP calls back. The table of a task and its map of free numbers
have no lock. Connections are numbered as they arrive; the socket made for one and its control
block have its number. Messages are left out, and so is what lets a thread that has registered
itself sleep for longer than it has to.
-/
namespace Orcos.Source.Comm
open Source.Tasks Lib.WordBits

/-- The socket of a connection and its control block: `newsock->state`, whether
`newsock->arg` and the argument of the block's callbacks are set, and whether lwIP still has
the block. -/
structure Connection where
  state : BitVec 32
  arg : Bool
  callbackArg : Bool
  isOpen : Bool

namespace Connection

/-- The new socket is connected to its control block. -/
def fresh : Connection := ⟨socketConnected, true, true, true⟩

/-- A control block for which no socket is made. -/
def refused : Connection := ⟨0, false, false, false⟩

/-- `tcp_close`; the block is left open when its last segment cannot be sent. -/
def tcpClose (err : ErrT) (c : Connection) : Connection :=
  { c with isOpen := c.isOpen && decide (err ≠ errOk) }

/-- `tcp_abort`. -/
def tcpAbort (c : Connection) : Connection := { c with isOpen := false }

/-- `unregister_socket`. -/
def unregister (err : ErrT) (c : Connection) : Connection :=
  if c.arg then { c with callbackArg := false, arg := false }.tcpClose err else c

/-- `~Socket`. -/
def destroy (type : SockType) (err : ErrT) (c : Connection) : Connection :=
  if c.state &&& (socketConnected ||| socketListening) ≠ 0 ∨ type = .dgram then c.unregister err
  else c

/-- `tcp_recv_wrapper` without data: the peer closes the connection. -/
def closedByPeer (err : ErrT) (c : Connection) : Connection :=
  (if c.callbackArg then { c with arg := false, state := socketDisconnected } else c).tcpClose err

/-- `tcp_err_wrapper` for a fatal error, after which lwIP has no block any more. -/
def failed (c : Connection) : Connection :=
  { (if c.callbackArg then { c with state := socketDisconnected } else c) with isOpen := false }

end Connection

/-- A resource of a task: the socket of a connection, or something else. -/
inductive Held
  | socket (connection : Nat)
  | other (number : Nat)
  deriving DecidableEq

/-- Where a thread is in `addResource`: at a word of the map, to clear a bit of the word that it
has read, at the slot; and in `removeResource`: at a slot, at the one with the resource, at its
bit, to set the bit in the word that it has read. -/
inductive TablePlace
  | searching (held : Held) (i : Nat)
  | taking (held : Held) (i : Nat) (word : BitVec 32)
  | storing (held : Held) (fd : Nat)
  | scanning (held : Held) (i : Nat) (err : ErrT)
  | emptying (held : Held) (i : Nat) (err : ErrT)
  | freeing (held : Held) (i : Nat) (err : ErrT)
  | giving (held : Held) (i : Nat) (word : BitVec 32) (err : ErrT)
  deriving DecidableEq

/-- Where a thread is in `listen`, in another call that acquires a resource, or in one that
gives one back. -/
inductive ListenPlace
  | away
  | opened (backlogSize : Nat)
  | creating (backlogSize : Nat)
  | listed
  | marking
  | calling
  | registering
  | registered
  | committed
  | asleep
  | fetching
  | adding (newConn : Nat)
  | table (place : TablePlace)
  | closing (held : Held) (err : ErrT)
  | leaving (newConn : Option Nat) (ret : ErrorT)
  deriving DecidableEq

/-- What a call of `listen` has come to, with the connection it took. -/
structure Listened (τ : Type) where
  thread : τ
  newConn : Option Nat
  ret : ErrorT

/-- `closed` are the connections whose sockets a task has given back. -/
structure Listening (κ τ : Type) where
  type : SockType
  state : BitVec 32
  acceptedConnections : Option (ArrayList Nat)
  blockedThread : Option τ
  hasListeningThread : Bool
  threadToUnblock : Option τ
  place : τ → ListenPlace
  returned : List (Listened τ)
  closed : List Nat
  arrived : Nat
  connection : Nat → Connection
  owner : τ → κ
  task : κ → Task τ Held

inductive ListenOp (κ τ : Type)
  | listen (thread : τ) (backlogSize : Nat)
  | advance (thread : τ)
  | protocolListen (thread : τ) (ret : ErrorT)
  | timeout (thread : τ)
  | accept (listens : Bool) (err : ErrT)
  | unblock
  | otherCall (state : BitVec 32) (blockedThread : Option τ)
  | closedByPeer (connection : Nat) (err : ErrT)
  | failed (connection : Nat)
  | acquire (thread : τ) (number : Nat)
  | close (thread : τ) (fd : Nat) (err : ErrT)

namespace Listening

variable {κ τ : Type} [DecidableEq κ] [DecidableEq τ] (s : Listening κ τ)

/-- A new socket, the tasks of the threads and what else the tasks have. -/
def start (type : SockType) (owner : τ → κ) (task : κ → Task τ Nat) : Listening κ τ where
  type := type
  state := socketDisconnected
  acceptedConnections := none
  blockedThread := none
  hasListeningThread := false
  threadToUnblock := none
  place _ := .away
  returned := []
  closed := []
  arrived := 0
  connection _ := .refused
  owner := owner
  task k := ⟨fun i => ((task k).acquiredResources i).map .other, (task k).numResources,
    (task k).freeResourceIds, (task k).threadDb⟩

def setPlace (thread : τ) (place : ListenPlace) : Listening κ τ :=
  { s with place := Function.update s.place thread place }

def setConnection (c : Nat) (connection : Connection) : Listening κ τ :=
  { s with connection := Function.update s.connection c connection }

def setTask (k : κ) (task : Task τ Held) : Listening κ τ :=
  { s with task := Function.update s.task k task }

/-- The call of a thread ends. -/
def return_ (thread : τ) (newConn : Option Nat) (ret : ErrorT) : Listening κ τ :=
  { s.setPlace thread .away with returned := s.returned ++ [⟨thread, newConn, ret⟩] }

/-- `sc_listen` and the first statements of `listen`. -/
def listen (thread : τ) (backlogSize : Nat) : Listening κ τ :=
  if 50 < backlogSize ∨ backlogSize = 0 then s.return_ thread none cInvalidArgument
  else if s.type ≠ .stream then s.return_ thread none cInvalidSocketType
  else { s with state := socketListening }.setPlace thread (.opened backlogSize)

def size : Nat := (s.acceptedConnections.map ArrayList.size).getD 0

def removeHead (thread : τ) : Listening κ τ :=
  match s.acceptedConnections with
  | none => s.setPlace thread (.leaving none cTimeout)
  | some list =>
    { s with acceptedConnections := some list.removeHead.1 }.setPlace thread
      (match list.removeHead.2 with
      | some newConn => .adding newConn
      | none => .leaving none cTimeout)

def setMap (thread : τ) (i : Nat) (word : BitVec 32) : Listening κ τ :=
  let task := s.task (s.owner thread)
  s.setTask (s.owner thread) { task with
    freeResourceIds := { task.freeResourceIds with map := task.freeResourceIds.map.set i word } }

def setSlot (thread : τ) (fd : Nat) (held : Option Held) (more : Int) : Listening κ τ :=
  let task := s.task (s.owner thread)
  s.setTask (s.owner thread) { task with
    acquiredResources := Function.update task.acquiredResources fd held
    numResources := task.numResources + more }

/-- `addResource` returns to `listen`, or to another call. -/
def added (thread : τ) (ret : ErrorT) : Held → Listening κ τ
  | .socket newConn => s.setPlace thread (.leaving (some newConn) ret)
  | .other _ => s.setPlace thread .away

/-- The next access of a thread to the table of its task. -/
def advanceTable (thread : τ) : TablePlace → Listening κ τ
  | .searching held i =>
    match (s.task (s.owner thread)).freeResourceIds.map[i]? with
    | none => s.added thread cDatabaseOverflow held
    | some word =>
      s.setPlace thread (.table (if word.clz.toNat < 32 then .taking held i word
        else .searching held (i + 1)))
  | .taking held i word =>
    (s.setMap thread i (word &&& ~~~mask word.clz.toNat)).setPlace thread
      (.table (.storing held (word.clz.toNat + i * 32)))
  | .storing held fd => (s.setSlot thread fd (some held) 1).added thread fd held
  | .scanning held i err =>
    if i < maxTaskResources then
      s.setPlace thread (.table (if (s.task (s.owner thread)).acquiredResources i = some held then
        .emptying held i err else .scanning held (i + 1) err))
    else s.setPlace thread (.closing held err)
  | .emptying held i err =>
    { s.setSlot thread i none (-1) with
      closed := (match held with
        | .socket c => [c]
        | .other _ => []) ++ s.closed }.setPlace thread (.table (.freeing held i err))
  | .freeing held i err =>
    if i < (s.task (s.owner thread)).freeResourceIds.ids then
      match (s.task (s.owner thread)).freeResourceIds.map[i / 32]? with
      | some word => s.setPlace thread (.table (.giving held i word err))
      | none => s.setPlace thread (.closing held err)
    else s.setPlace thread (.closing held err)
  | .giving held i word err =>
    (s.setMap thread (i / 32) (word ||| mask (i % 32))).setPlace thread (.closing held err)

/-- What `releaseResource` does last: `~Socket`. -/
def destroy (thread : τ) (held : Held) (err : ErrT) : Listening κ τ :=
  match held with
  | .socket c =>
    (s.setConnection c ((s.connection c).destroy s.type err)).setPlace thread .away
  | .other _ => s.setPlace thread .away

/-- The next access of a thread in `listen`. -/
def advance (thread : τ) : Listening κ τ :=
  match s.place thread with
  | .opened backlogSize =>
    s.setPlace thread (if s.acceptedConnections.isNone then .creating backlogSize else .listed)
  | .creating backlogSize =>
    { s with acceptedConnections := some (ArrayList.fresh backlogSize) }.setPlace thread .listed
  | .listed => s.setPlace thread (if s.hasListeningThread then .registering else .marking)
  | .marking => { s with hasListeningThread := true }.setPlace thread .calling
  | .registering =>
    if s.blockedThread = none then
      { s with blockedThread := some thread }.setPlace thread .registered
    else s.return_ thread none cSocketAlreadyListened
  | .registered => s.setPlace thread (if s.size = 0 then .committed else .fetching)
  | .committed => s.setPlace thread .asleep
  | .fetching => s.removeHead thread
  | .adding newConn => s.setPlace thread (.table (.searching (.socket newConn) 0))
  | .table place => s.advanceTable thread place
  | .closing held err => s.destroy thread held err
  | .leaving newConn ret => { s with blockedThread := none }.return_ thread newConn ret
  | .away | .calling | .asleep => s

/-- `tproto->listen` and the test of its result. -/
def protocolListen (thread : τ) (ret : ErrorT) : Listening κ τ :=
  if s.place thread = .calling then
    if ret < 0 then s.return_ thread none ret else s.setPlace thread .registering
  else s

/-- `Thread::unblock`. -/
def unblock (thread : τ) : Listening κ τ :=
  if s.place thread = .asleep then s.setPlace thread .fetching else s

/-- `Socket::accepted` up to the end of its section. -/
def accepted (newConnection : Nat) : Listening κ τ × ErrorT :=
  if s.state &&& socketListening = 0 then (s, cError)
  else
    match s.acceptedConnections with
    | none => (s, cError)
    | some list =>
      let (list, error) := list.addTail (some newConnection)
      ({ s with
        acceptedConnections := some list
        threadToUnblock := if isOk error then s.blockedThread else none }, error)

/-- `tcp_accept_wrapper`, with whether the socket has a control block that listens; lwIP
aborts the connection unless the result is `ERR_OK`. -/
def tcpAcceptWrapper (listens : Bool) (err : ErrT) : Listening κ τ :=
  let newsock := s.arrived
  let s := { s with arrived := s.arrived + 1 }
  if !listens then s.setConnection newsock .refused
  else
    let (s, error) := (s.setConnection newsock .fresh).accepted newsock
    if isOk error then s
    else s.setConnection newsock ((s.connection newsock).destroy s.type err).tcpAbort

/-- `releaseResource` for what the task of the thread has under this number. -/
def close (thread : τ) (fd : Nat) (err : ErrT) : Listening κ τ :=
  match (s.task (s.owner thread)).getOwnedResourceByFileDescriptor fd with
  | none => s
  | some held => s.setPlace thread (.table (.scanning held 0 err))

/-- A step is made by a thread that is at its place. What other calls on the same socket do
to its state and `blockedThread` may be any change. -/
def step : ListenOp κ τ → Listening κ τ
  | .listen thread backlogSize =>
    if s.place thread = .away then s.listen thread backlogSize else s
  | .advance thread => s.advance thread
  | .protocolListen thread ret => s.protocolListen thread ret
  | .timeout thread => s.unblock thread
  | .accept listens err =>
    if s.threadToUnblock = none then s.tcpAcceptWrapper listens err else s
  | .unblock =>
    match s.threadToUnblock with
    | some thread => { s.unblock thread with threadToUnblock := none }
    | none => s
  | .otherCall state blockedThread => { s with state := state, blockedThread := blockedThread }
  | .closedByPeer c err => s.setConnection c ((s.connection c).closedByPeer err)
  | .failed c => s.setConnection c (s.connection c).failed
  | .acquire thread number =>
    if s.place thread = .away then s.setPlace thread (.table (.searching (.other number) 0)) else s
  | .close thread fd err => if s.place thread = .away then s.close thread fd err else s

end Listening

end Orcos.Source.Comm
