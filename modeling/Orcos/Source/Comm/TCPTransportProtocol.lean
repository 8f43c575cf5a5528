import Orcos.Source.Comm.PBufList

/-!
# The TCP transport protocol

Source: src/source/comm/TCPTransportProtocol.cc, `send`, `received`, `connect`, `listen`,
`register_socket`, `unregister_socket`; src/source/comm/lwip/core/tcp.c, the functions they
call.

lwIP is any implementation of those functions, over a state of its own, so that its answers
are not restricted. An operation records when it acquires and releases the mutex of the
communication stack, when it sleeps and when it calls lwIP.
-/
namespace Orcos.Source.Comm

abbrev ErrT := Int

def errOk : ErrT := 0

structure SockAddr where
  saData : BitVec 32
  portData : BitVec 16

/-- The functions of lwIP, for sockets `τ` and control blocks `π`. -/
structure Lwip (σ τ π : Type) where
  tcpWrite : π → List Byte → σ → ErrT × σ
  tcpOutput : π → σ → ErrT × σ
  tcpRecved : π → Nat → σ → σ
  pbufFree : PBuf → σ → σ
  tcpConnect : π → BitVec 32 → BitVec 16 → σ → ErrT × σ
  tcpListen : π → σ → Option π × σ
  tcpArg : π → Option τ → σ → σ
  tcpAccept : π → σ → σ
  tcpNew : σ → Option π × σ
  tcpBind : π → BitVec 16 → σ → ErrT × σ
  tcpClose : π → σ → ErrT × σ
  /-- `pcb->state == LISTEN`. -/
  isListening : π → σ → Bool
  /-- `pcb->local_port`. -/
  localPort : π → σ → BitVec 16

inductive Action
  | acquire
  | release
  | sleep
  | lwip
  deriving DecidableEq

/-- The state of lwIP, the handles `arg` of the sockets, and what was done so far. -/
structure CommStack (σ τ π : Type) where
  lwip : σ
  arg : τ → Option π
  trace : List Action

abbrev CommM (σ τ π : Type) := StateM (CommStack σ τ π)

namespace TCPTransportProtocol

variable {σ τ π : Type}

def record (action : Action) : CommM σ τ π Unit :=
  modify fun s => { s with trace := s.trace ++ [action] }

def acquire : CommM σ τ π Unit := record .acquire

def release : CommM σ τ π Unit := record .release

/-- The thread blocks until data was sent, or for a second. -/
def sleep : CommM σ τ π Unit := record .sleep

/-- A call of lwIP. -/
def call {α : Type} (function : σ → α × σ) : CommM σ τ π α := do
  record .lwip
  modifyGet fun s => ((function s.lwip).1, { s with lwip := (function s.lwip).2 })

def run (function : σ → σ) : CommM σ τ π Unit := call fun s => ((), function s)

def getArg (socket : τ) : CommM σ τ π (Option π) := return (← get).arg socket

variable [DecidableEq τ] (lwip : Lwip σ τ π)

def setArg (socket : τ) (pcb : Option π) : CommM σ τ π Unit :=
  modify fun s => { s with arg := Function.update s.arg socket pcb }

def send (payload : List Byte) (fromsock : τ) : CommM σ τ π ErrorT := do
  acquire
  match ← getArg fromsock with
  | none => return cInvalidArgument
  | some pcb =>
    let ret ← call (lwip.tcpWrite pcb payload)
    if ret ≠ errOk then
      let _ ← call (lwip.tcpOutput pcb)
      release
      sleep
      acquire
      let ret ← call (lwip.tcpWrite pcb payload)
      if ret ≠ errOk then
        release
        return cTCPEnqueueFailed
    let _ ← call (lwip.tcpOutput pcb)
    release
    return cOk

def received (socket : τ) (p : PBuf) : CommM σ τ π Unit := do
  let pcb ← getArg socket
  acquire
  if let some pcb := pcb then
    run (lwip.tcpRecved pcb p.totLen)
  run (lwip.pbufFree p)
  release

def connect (toaddr : SockAddr) (fromsocket : τ) : CommM σ τ π ErrorT := do
  acquire
  match ← getArg fromsocket with
  | some pcb =>
    release
    let _ ← call (lwip.tcpConnect pcb toaddr.saData toaddr.portData)
    return cOk
  | none =>
    release
    return cInvalidArgument

/-- The state of the control block is read without the mutex. -/
def listen (socket : τ) : CommM σ τ π ErrorT := do
  match ← getArg socket with
  | some pcb =>
    if lwip.isListening pcb (← get).lwip then return cOk
    else
      acquire
      match ← call (lwip.tcpListen pcb) with
      | some lpcb =>
        run (lwip.tcpArg pcb none)
        setArg socket (some lpcb)
        run (lwip.tcpAccept lpcb)
        release
        return cOk
      | none =>
        release
        return cError
  | none =>
    release
    return cOk

/-- With the port that was assigned, when there is one. -/
def registerSocket (port : BitVec 16) (socket : τ) : CommM σ τ π (ErrorT × BitVec 16) := do
  acquire
  match ← call lwip.tcpNew with
  | none =>
    release
    return (cErrorAllocatingMemory, port)
  | some pcb =>
    let err ← call (lwip.tcpBind pcb port)
    if err ≠ errOk then
      release
      let _ ← call (lwip.tcpClose pcb)
      return (cErrorBindingPort, port)
    else
      let assigned := lwip.localPort pcb (← get).lwip
      run (lwip.tcpArg pcb (some socket))
      setArg socket (some pcb)
      release
      return (cOk, assigned)

def unregisterSocket (socket : τ) : CommM σ τ π ErrorT := do
  match ← getArg socket with
  | some pcb =>
    acquire
    run (lwip.tcpArg pcb none)
    setArg socket none
    let _ ← call (lwip.tcpClose pcb)
    release
    return cOk
  | none => return cInvalidArgument

end TCPTransportProtocol

/-- The operations that take the mutex, with their arguments. -/
inductive Operation (τ : Type)
  | send (payload : List Byte) (fromsock : τ)
  | connect (toaddr : SockAddr) (fromsocket : τ)
  | listen (socket : τ)
  | registerSocket (port : BitVec 16) (socket : τ)
  | unregisterSocket (socket : τ)
  | received (socket : τ) (p : PBuf)

namespace Operation
open TCPTransportProtocol

variable {σ τ π : Type} [DecidableEq τ] (lwip : Lwip σ τ π)

def run : Operation τ → CommM σ τ π Unit
  | send payload fromsock => do let _ ← TCPTransportProtocol.send lwip payload fromsock
  | connect toaddr fromsocket => do let _ ← TCPTransportProtocol.connect lwip toaddr fromsocket
  | listen socket => do let _ ← TCPTransportProtocol.listen lwip socket
  | registerSocket port socket => do
    let _ ← TCPTransportProtocol.registerSocket lwip port socket
  | unregisterSocket socket => do
    let _ ← TCPTransportProtocol.unregisterSocket lwip socket
  | received socket p => TCPTransportProtocol.received lwip socket p

/-- What an operation does with the mutex and lwIP. -/
def actions (s : CommStack σ τ π) (operation : Operation τ) : List Action :=
  (Id.run <| (operation.run lwip).run { s with trace := [] }).2.trace

end Operation
end Orcos.Source.Comm
