import Orcos.Source.Comm.TCPTransportProtocol
import Orcos.Lib.Runs
import Orcos.Source.Comm.StackCalls

/-!
# The mutex of the communication stack

Source: src/source/comm/TCPTransportProtocol.cc, `send`, `connect`, `listen`,
`register_socket`, `unregister_socket`, `received`.

`send` returns with the mutex when its socket has no control block, `listen` releases it there
without having acquired it, `connect` calls lwIP after releasing it, and so does
`register_socket` to close the control block of a port that is taken.
-/
namespace Orcos.Guarantees.StackMutex
open Source Source.Comm TCPTransportProtocol

/-- Every call of lwIP is made while the mutex is held. -/
def Protected (held : Bool) : List Action → Prop
  | [] => True
  | .acquire :: actions => Protected true actions
  | .release :: actions => Protected false actions
  | .sleep :: actions => Protected held actions
  | .lwip :: actions => held = true ∧ Protected held actions

instance decidableProtected (held : Bool) (actions : List Action) :
    Decidable (Protected held actions) :=
  match actions with
  | [] => inferInstanceAs (Decidable True)
  | .acquire :: actions => decidableProtected true actions
  | .release :: actions => decidableProtected false actions
  | .sleep :: actions => decidableProtected held actions
  | .lwip :: actions =>
    have := decidableProtected held actions
    inferInstanceAs (Decidable (held = true ∧ Protected held actions))

/-- The mutex is released as often as it was acquired, and held in every call of lwIP. -/
def Disciplined (actions : List Action) : Prop :=
  actions.count .release = actions.count .acquire ∧ Protected false actions

instance (actions : List Action) : Decidable (Disciplined actions) :=
  inferInstanceAs (Decidable (_ ∧ _))

variable {σ τ π : Type} [DecidableEq τ] (lwip : Lwip σ τ π) (s : CommStack σ τ π)

/-- Without a free control block nothing is bound. -/
def Binds (port : BitVec 16) : Prop :=
  match lwip.tcpNew s.lwip with
  | (none, _) => True
  | (some pcb, after) => (lwip.tcpBind pcb port after).1 = errOk

/-- The condition of each operation. -/
def Served : Operation τ → Prop
  | .send _ fromsock => s.arg fromsock ≠ none
  | .connect _ fromsocket => s.arg fromsocket = none
  | .listen socket => s.arg socket ≠ none
  | .registerSocket port _ => Binds lwip s port
  | .unregisterSocket _ => True
  | .received _ _ => True

variable {lwip s}

section Traces

attribute [local simp] Operation.actions Operation.run acquire release record sleep call
  TCPTransportProtocol.run getArg setArg

theorem send_none {payload : List Byte} {socket : τ} (handle : s.arg socket = none) :
    Operation.actions lwip s (.send payload socket) = [.acquire] := by
  simp [send, handle]

theorem send_some {payload : List Byte} {socket : τ} {pcb : π}
    (handle : s.arg socket = some pcb) :
    Operation.actions lwip s (.send payload socket) ∈
      [[.acquire, .lwip, .lwip, .release],
       [.acquire, .lwip, .lwip, .release, .sleep, .acquire, .lwip, .lwip, .release],
       [.acquire, .lwip, .lwip, .release, .sleep, .acquire, .lwip, .release]] := by
  by_cases wrote : (lwip.tcpWrite pcb payload s.lwip).1 = errOk
  · simp [send, handle, wrote]
  · by_cases again : (lwip.tcpWrite pcb payload
        (lwip.tcpOutput pcb (lwip.tcpWrite pcb payload s.lwip).2).2).1 = errOk
    · simp [send, handle, wrote, again]
    · simp [send, handle, wrote, again]

theorem connect_none {toaddr : SockAddr} {socket : τ} (handle : s.arg socket = none) :
    Operation.actions lwip s (.connect toaddr socket) = [.acquire, .release] := by
  simp [connect, handle]

theorem connect_some {toaddr : SockAddr} {socket : τ} {pcb : π}
    (handle : s.arg socket = some pcb) :
    Operation.actions lwip s (.connect toaddr socket) = [.acquire, .release, .lwip] := by
  simp [connect, handle]

theorem listen_none {socket : τ} (handle : s.arg socket = none) :
    Operation.actions lwip s (.listen socket) = [.release] := by
  simp [TCPTransportProtocol.listen, handle]

theorem listen_listening {socket : τ} {pcb : π} (handle : s.arg socket = some pcb)
    (listening : lwip.isListening pcb s.lwip = true) :
    Operation.actions lwip s (.listen socket) = [] := by
  simp [TCPTransportProtocol.listen, handle, listening]

theorem listen_closed {socket : τ} {pcb : π} (handle : s.arg socket = some pcb)
    (closed : lwip.isListening pcb s.lwip = false) :
    Operation.actions lwip s (.listen socket) ∈
      [[.acquire, .lwip, .lwip, .lwip, .release], [.acquire, .lwip, .release]] := by
  cases created : (lwip.tcpListen pcb s.lwip).1 with
  | some lpcb => simp [TCPTransportProtocol.listen, handle, closed, created]
  | none => simp [TCPTransportProtocol.listen, handle, closed, created]

theorem listen_some {socket : τ} {pcb : π} (handle : s.arg socket = some pcb) :
    Operation.actions lwip s (.listen socket) ∈
      [[], [.acquire, .lwip, .lwip, .lwip, .release], [.acquire, .lwip, .release]] := by
  cases listening : lwip.isListening pcb s.lwip with
  | true =>
    rw [listen_listening handle listening]
    exact List.mem_cons_self
  | false => exact List.mem_cons_of_mem _ (listen_closed handle listening)

theorem registerSocket_binds {port : BitVec 16} {socket : τ} (binds : Binds lwip s port) :
    Operation.actions lwip s (.registerSocket port socket) ∈
      [[.acquire, .lwip, .release], [.acquire, .lwip, .lwip, .lwip, .release]] := by
  unfold Binds at binds
  rcases created : lwip.tcpNew s.lwip with ⟨pcb, after⟩
  cases pcb with
  | none => simp [registerSocket, created]
  | some pcb =>
    rw [created] at binds
    have bound : (lwip.tcpBind pcb port after).1 = errOk := binds
    simp [registerSocket, created, bound]

theorem registerSocket_fails {port : BitVec 16} {socket : τ} (fails : ¬ Binds lwip s port) :
    Operation.actions lwip s (.registerSocket port socket) =
      [.acquire, .lwip, .lwip, .release, .lwip] := by
  unfold Binds at fails
  rcases created : lwip.tcpNew s.lwip with ⟨pcb, after⟩
  rw [created] at fails
  cases pcb with
  | none => exact absurd trivial fails
  | some pcb =>
    have refused : (lwip.tcpBind pcb port after).1 ≠ errOk := fails
    simp [registerSocket, created, refused]

theorem unregisterSocket_none {socket : τ} (handle : s.arg socket = none) :
    Operation.actions lwip s (.unregisterSocket socket) = [] := by
  simp [unregisterSocket, handle]

theorem unregisterSocket_some {socket : τ} {pcb : π} (handle : s.arg socket = some pcb) :
    Operation.actions lwip s (.unregisterSocket socket) = [.acquire, .lwip, .lwip, .release] := by
  simp [unregisterSocket, handle]

theorem unregisterSocket_actions (socket : τ) :
    Operation.actions lwip s (.unregisterSocket socket) ∈
      [[], [.acquire, .lwip, .lwip, .release]] := by
  cases handle : s.arg socket with
  | none =>
    rw [unregisterSocket_none handle]
    exact List.mem_cons_self
  | some pcb =>
    rw [unregisterSocket_some handle]
    exact List.mem_cons_of_mem _ List.mem_cons_self

theorem received_none {socket : τ} (handle : s.arg socket = none) (p : PBuf) :
    Operation.actions lwip s (.received socket p) = [.acquire, .lwip, .release] := by
  simp [received, handle]

theorem received_some {socket : τ} {pcb : π} (handle : s.arg socket = some pcb) (p : PBuf) :
    Operation.actions lwip s (.received socket p) = [.acquire, .lwip, .lwip, .release] := by
  simp [received, handle]

theorem received_actions (socket : τ) (p : PBuf) :
    Operation.actions lwip s (.received socket p) ∈
      [[.acquire, .lwip, .release], [.acquire, .lwip, .lwip, .release]] := by
  cases handle : s.arg socket with
  | none =>
    rw [received_none handle]
    exact List.mem_cons_self
  | some pcb =>
    rw [received_some handle]
    exact List.mem_cons_of_mem _ List.mem_cons_self

end Traces

/-- What is one of several sequences keeps to the rules when all of them do. -/
theorem disciplined_of_mem {actions : List Action} {possible : List (List Action)}
    (among : actions ∈ possible) (all : possible.all fun actions => Disciplined actions) :
    Disciplined actions :=
  of_decide_eq_true (List.all_eq_true.mp all actions among)

theorem disciplined_send (lwip : Lwip σ τ π) (s : CommStack σ τ π) (payload : List Byte)
    (socket : τ) :
    Disciplined (Operation.actions lwip s (.send payload socket)) ↔ s.arg socket ≠ none := by
  cases handle : s.arg socket with
  | none =>
    rw [send_none handle]
    exact iff_of_false (by decide) fun other => other rfl
  | some pcb =>
    apply iff_of_true
    · exact disciplined_of_mem (send_some handle) (by decide)
    · exact Option.some_ne_none pcb

theorem disciplined_connect (lwip : Lwip σ τ π) (s : CommStack σ τ π) (toaddr : SockAddr)
    (socket : τ) :
    Disciplined (Operation.actions lwip s (.connect toaddr socket)) ↔ s.arg socket = none := by
  cases handle : s.arg socket with
  | none =>
    rw [connect_none handle]
    exact iff_of_true (by decide) rfl
  | some pcb =>
    rw [connect_some handle]
    exact iff_of_false (by decide) (Option.some_ne_none pcb)

theorem disciplined_listen (lwip : Lwip σ τ π) (s : CommStack σ τ π) (socket : τ) :
    Disciplined (Operation.actions lwip s (.listen socket)) ↔ s.arg socket ≠ none := by
  cases handle : s.arg socket with
  | none =>
    rw [listen_none handle]
    exact iff_of_false (by decide) fun other => other rfl
  | some pcb =>
    apply iff_of_true
    · exact disciplined_of_mem (listen_some handle) (by decide)
    · exact Option.some_ne_none pcb

theorem disciplined_registerSocket (lwip : Lwip σ τ π) (s : CommStack σ τ π)
    (port : BitVec 16) (socket : τ) :
    Disciplined (Operation.actions lwip s (.registerSocket port socket)) ↔
      Binds lwip s port := by
  by_cases binds : Binds lwip s port
  · exact iff_of_true (disciplined_of_mem (registerSocket_binds binds) (by decide)) binds
  · rw [registerSocket_fails binds]
    exact iff_of_false (by decide) binds

/-- An operation keeps to the rules exactly under its condition. -/
theorem disciplined_iff (lwip : Lwip σ τ π) (s : CommStack σ τ π) (operation : Operation τ) :
    Disciplined (operation.actions lwip s) ↔ Served lwip s operation := by
  cases operation with
  | send payload fromsock => exact disciplined_send lwip s payload fromsock
  | connect toaddr fromsocket => exact disciplined_connect lwip s toaddr fromsocket
  | listen socket => exact disciplined_listen lwip s socket
  | registerSocket port socket => exact disciplined_registerSocket lwip s port socket
  | unregisterSocket socket =>
    exact iff_of_true (disciplined_of_mem (unregisterSocket_actions socket) (by decide)) trivial
  | received socket p =>
    exact iff_of_true (disciplined_of_mem (received_actions socket p) (by decide)) trivial

/-- lwIP with nothing to do, and a socket that has no control block. -/
def quiet : Lwip Unit Unit Unit where
  tcpWrite _ _ _ := (errOk, ())
  tcpOutput _ _ := (errOk, ())
  tcpRecved _ _ _ := ()
  pbufFree _ _ := ()
  tcpConnect _ _ _ _ := (errOk, ())
  tcpListen _ _ := (some (), ())
  tcpArg _ _ _ := ()
  tcpAccept _ _ := ()
  tcpNew _ := (some (), ())
  tcpBind _ _ _ := (errOk, ())
  tcpClose _ _ := (errOk, ())
  isListening _ _ := false
  localPort _ _ := 0

/-- After a peer has closed the connection, `send` leaves the mutex with the caller. -/
theorem disconnected_send :
    ¬ ∀ (s : CommStack Unit Unit Unit) (operation : Operation Unit),
      Disciplined (operation.actions quiet s) := by
  intro all
  have sent := all ⟨(), fun _ => none, []⟩ (.send [] ())
  rw [send_none rfl] at sent
  exact absurd sent (by decide)

end Orcos.Guarantees.StackMutex

/-! ## The order of the locks of the communication stack

Source: src/source/comm/Socket.cc, `recvfrom`, `addMessage`, `accepted`, `disconnected`;
src/source/comm/TCPTransportProtocol.cc, `received`, `tcp_recv_wrapper`.

Callbacks take the lock of a socket with the mutex of the communication stack held, and
`recvfrom` calls `received`, which takes that mutex, with the lock of its socket held.
-/
namespace Orcos.Guarantees.LockOrder
open Lib.Locking Lib.Runs Source Source.Comm Source.Comm.StackCalls

variable {τ ι α : Type} [DecidableEq ι]

/-! ### The programs of the operations -/

section Programs

variable {σ π β : Type}

/-- What a call does that nothing comes between: its actions on the mutex of the stack, and those
that it takes an answer from. -/
def solo : CallM τ ι α → (ι → Sock τ ι) → List (Action × Int) → List Action
  | .ret _, _, _ => []
  | .access f next, s, answers => solo (next s) (f s) answers
  | .ask _, _, [] => []
  | .ask next, s, (action, n) :: answers => action :: solo (next n) s answers
  | .acquire .outer next, s, answers => .acquire :: solo next s answers
  | .acquire (.inner _) next, s, answers => solo next s answers
  | .release .outer next, s, answers => .release :: solo next s answers
  | .release (.inner _) next, s, answers => solo next s answers

/-- lwIP and the sleep of the thread can have come to these answers. -/
def Does (call : CallM τ ι α) (s : ι → Sock τ ι) (actions : List Action) : Prop :=
  ∃ answers : List (Action × Int), (∀ a ∈ answers, a.1 = .lwip ∨ a.1 = .sleep) ∧
    solo call s answers = actions

section Solo

variable {g : α → CallM τ ι β} {g' : ErrT → CallM τ ι β} {next : CallM τ ι β}
  {socks : ι → Sock τ ι} {x : ι} {answers : List (Action × Int)} {action : Action} {n : Int}

omit [DecidableEq ι] in
theorem solo_pure (b : β) : solo (pure b : CallM τ ι β) socks answers = [] := rfl

omit [DecidableEq ι] in
theorem solo_pure_bind (a : α) :
    solo (pure a >>= g) socks answers = solo (g a) socks answers := rfl

omit [DecidableEq ι] in
theorem solo_get (f : Sock τ ι → α) :
    solo (StackCalls.get x f >>= g) socks answers = solo (g (f (socks x))) socks answers := rfl

theorem solo_set (f : Sock τ ι → Sock τ ι) :
    solo (do StackCalls.set x f; next) socks answers =
      solo next (Function.update socks x (f (socks x))) answers := rfl

omit [DecidableEq ι] in
theorem solo_lwip : solo (StackCalls.lwip >>= g') socks ((action, n) :: answers) =
    action :: solo (g' n) socks answers := rfl

omit [DecidableEq ι] in
theorem solo_block : solo (do StackCalls.block; next) socks ((action, n) :: answers) =
    action :: solo next socks answers := rfl

omit [DecidableEq ι] in
theorem solo_acquire : solo (do StackCalls.acquire; next) socks answers =
    .acquire :: solo next socks answers := rfl

omit [DecidableEq ι] in
theorem solo_release : solo (do StackCalls.release; next) socks answers =
    .release :: solo next socks answers := rfl

omit [DecidableEq ι] in
/-- What a call returns is not an action. -/
theorem solo_discard (call : CallM τ ι α) (socks : ι → Sock τ ι) (answers : List (Action × Int)) :
    solo (do let _ ← call) socks answers = solo call socks answers := by
  induction call generalizing socks answers with
  | ret a => rfl
  | access f next ih => exact ih socks (f socks) answers
  | ask next ih =>
    cases answers with
    | nil => rfl
    | cons answer answers => exact congrArg (answer.1 :: ·) (ih answer.2 socks answers)
  | acquire l next ih =>
    cases l with
    | outer => exact congrArg (Action.acquire :: ·) (ih socks answers)
    | inner x => exact ih socks answers
  | release l next ih =>
    cases l with
    | outer => exact congrArg (Action.release :: ·) (ih socks answers)
    | inner x => exact ih socks answers

omit [DecidableEq ι] in
theorem solo_last : solo (StackCalls.release : CallM τ ι Unit) socks answers = [.release] := rfl

end Solo

attribute [local simp] solo_pure solo_pure_bind solo_get solo_set solo_lwip solo_block solo_acquire
  solo_release
  solo_last solo_discard

variable {lwip : Lwip σ ι π} {s : CommStack σ ι π} {socks : ι → Sock τ ι} {x : ι}

/-- The programs of the operations of a stream; no connection is aborted for another one. -/
def stepsOf (thread : τ) : Operation ι → CallM τ ι Unit
  | .send _ x => do let _ ← tcpSend thread x
  | .connect _ x => do let _ ← protocolConnect x
  | .listen x => do let _ ← protocolListen x
  | .registerSocket _ x => do let _ ← registerSocket x []
  | .unregisterSocket x => do let _ ← unregisterSocket x
  | .received x _ => received x

/-- The streams have the control blocks that lwIP has for them. -/
structure Agrees (lwip : Lwip σ ι π) (s : CommStack σ ι π) (socks : ι → Sock τ ι) : Prop where
  stream : ∀ x, (socks x).tproto = .tcp
  arg : ∀ x, (socks x).arg = (s.arg x).isSome
  listens : ∀ x pcb, s.arg x = some pcb → (socks x).listens = lwip.isListening pcb s.lwip

/-- The actions of an operation are those of its program, for some answers. -/
theorem does_actions (agrees : Agrees lwip s socks) (thread : τ) (operation : Operation ι) :
    Does (stepsOf thread operation) socks (operation.actions lwip s) := by
  obtain ⟨stream, handle, listens⟩ := agrees
  cases operation with
  | send payload x =>
    cases known : s.arg x with
    | none =>
      rw [StackMutex.send_none known]
      exact ⟨[], by simp, by simp [stepsOf, tcpSend, handle, known]⟩
    | some pcb =>
      have among : Operation.actions lwip s (.send payload x) ∈ _ := StackMutex.send_some known
      simp only [List.mem_cons, List.not_mem_nil, or_false] at among
      rcases among with actions | actions | actions
      · rw [actions]
        exact ⟨[(.lwip, 0), (.lwip, 0)], by simp,
          by simp [stepsOf, tcpSend, handle, known, errOk]⟩
      · rw [actions]
        exact ⟨[(.lwip, 1), (.lwip, 0), (.sleep, 0), (.lwip, 0), (.lwip, 0)], by simp,
          by simp [stepsOf, tcpSend, handle, known, errOk]⟩
      · rw [actions]
        exact ⟨[(.lwip, 1), (.lwip, 0), (.sleep, 0), (.lwip, 1)], by simp,
          by simp [stepsOf, tcpSend, handle, known, errOk]⟩
  | connect toaddr x =>
    cases known : s.arg x with
    | none =>
      rw [StackMutex.connect_none known]
      exact ⟨[], by simp, by simp [stepsOf, protocolConnect, stream, handle, known]⟩
    | some pcb =>
      rw [StackMutex.connect_some known]
      exact ⟨[(.lwip, 0)], by simp, by simp [stepsOf, protocolConnect, stream, handle, known]⟩
  | listen x =>
    cases known : s.arg x with
    | none =>
      rw [StackMutex.listen_none known]
      exact ⟨[], by simp, by simp [stepsOf, protocolListen, stream, handle, known]⟩
    | some pcb =>
      cases listening : lwip.isListening pcb s.lwip with
      | true =>
        rw [StackMutex.listen_listening known listening]
        exact ⟨[], by simp, by
          simp [stepsOf, protocolListen, stream, handle, known, listens x pcb known, listening]⟩
      | false =>
        have among := StackMutex.listen_closed known listening
        simp only [List.mem_cons, List.not_mem_nil, or_false] at among
        rcases among with actions | actions
        · rw [actions]
          exact ⟨[(.lwip, 1), (.lwip, 0), (.lwip, 0)], by simp, by
            simp [stepsOf, protocolListen, stream, handle, known, listens x pcb known, listening]⟩
        · rw [actions]
          exact ⟨[(.lwip, 0)], by simp, by
            simp [stepsOf, protocolListen, stream, handle, known, listens x pcb known, listening]⟩
  | registerSocket port x =>
    have among : Operation.actions lwip s (.registerSocket port x) ∈
        [[.acquire, .lwip, .release], [.acquire, .lwip, .lwip, .lwip, .release],
          [.acquire, .lwip, .lwip, .release, .lwip]] := by
      by_cases binds : StackMutex.Binds lwip s port
      · have bound : Operation.actions lwip s (.registerSocket port x) ∈ _ :=
          StackMutex.registerSocket_binds binds
        simp only [List.mem_cons, List.not_mem_nil, or_false] at bound ⊢
        exact bound.imp_right .inl
      · simp [StackMutex.registerSocket_fails binds]
    simp only [List.mem_cons, List.not_mem_nil, or_false] at among
    rcases among with actions | actions | actions
    · rw [actions]
      exact ⟨[(.lwip, 0)], by simp, by simp [stepsOf, registerSocket, stream]⟩
    · rw [actions]
      exact ⟨[(.lwip, 1), (.lwip, 0), (.lwip, 0)], by simp,
        by simp [stepsOf, registerSocket, stream, errOk]⟩
    · rw [actions]
      exact ⟨[(.lwip, 1), (.lwip, 1), (.lwip, 0)], by simp,
        by simp [stepsOf, registerSocket, stream, errOk]⟩
  | unregisterSocket x =>
    cases known : s.arg x with
    | none =>
      rw [StackMutex.unregisterSocket_none known]
      exact ⟨[], by simp, by simp [stepsOf, unregisterSocket, stream, handle, known]⟩
    | some pcb =>
      rw [StackMutex.unregisterSocket_some known]
      exact ⟨[(.lwip, 0), (.lwip, 0)], by simp,
        by simp [stepsOf, unregisterSocket, stream, handle, known]⟩
  | received x p =>
    cases known : s.arg x with
    | none =>
      rw [StackMutex.received_none known]
      exact ⟨[(.lwip, 0)], by simp, by simp [stepsOf, received, stream, handle, known]⟩
    | some pcb =>
      rw [StackMutex.received_some known]
      exact ⟨[(.lwip, 0), (.lwip, 0)], by simp,
        by simp [stepsOf, received, stream, handle, known]⟩

end Programs

section Discipline

set_option synthInstance.maxSize 20000

instance (x : ι) (f : Sock τ ι → α) : Balanced (get x f) :=
  inferInstanceAs (Balanced (Prog.read _))

instance (x : ι) (f : Sock τ ι → Sock τ ι) : Balanced (set x f) :=
  inferInstanceAs (Balanced (Prog.update _))

instance : Balanced (lwip : CallM τ ι ErrT) := inferInstanceAs (Balanced Prog.answer)

instance : Balanced (acquire : CallM τ ι Unit) := inferInstanceAs (Balanced (Prog.lock .outer))

instance : Balanced (release : CallM τ ι Unit) := inferInstanceAs (Balanced (Prog.unlock .outer))

instance : Balanced (block : CallM τ ι Unit) := by
  unfold block
  infer_instance

instance (x : ι) : Balanced (received x : CallM τ ι Unit) := by
  unfold received
  refine balanced_bind inferInstance fun tproto => ?_
  cases tproto with
  | tcp => infer_instance
  | udp => infer_instance

instance (thread : τ) (x : ι) : Balanced (tcpSend thread x) := by
  unfold tcpSend
  dsimp only
  infer_instance

instance (x : ι) : Balanced (udpSendto x : CallM τ ι ErrorT) := by
  unfold udpSendto
  infer_instance

instance (x : ι) : Balanced (protocolConnect x : CallM τ ι ErrorT) := by
  unfold protocolConnect
  refine balanced_bind inferInstance fun tproto => ?_
  cases tproto with
  | tcp => infer_instance
  | udp => infer_instance

instance (x : ι) : Balanced (protocolListen x : CallM τ ι ErrorT) := by
  unfold protocolListen
  refine balanced_bind inferInstance fun tproto => ?_
  cases tproto with
  | tcp => infer_instance
  | udp => infer_instance

instance (x : ι) : Balanced (unregisterSocket x : CallM τ ι ErrorT) := by
  unfold unregisterSocket
  refine balanced_bind inferInstance fun tproto => ?_
  cases tproto with
  | tcp => infer_instance
  | udp => infer_instance

instance (x : ι) : Balanced (disconnect x : CallM τ ι ErrorT) := by
  unfold disconnect
  refine balanced_bind inferInstance fun tproto => ?_
  cases tproto with
  | tcp => infer_instance
  | udp => infer_instance

instance (x : ι) (p : PBuf) : Balanced (addMessage x p : CallM τ ι ErrorT) := by
  unfold addMessage
  refine balanced_bind inferInstance fun missing => ?_
  cases missing with
  | true => exact inferInstanceAs (Balanced (pure cError))
  | false =>
    exact ⟨disciplined_lock (disciplined_update (disciplined_update (disciplined_unlock rfl rfl)))⟩

instance (x : ι) : Balanced (disconnected x : CallM τ ι Unit) := by
  unfold disconnected
  refine balanced_bind inferInstance fun _ => ?_
  exact ⟨disciplined_lock (disciplined_update (disciplined_unlock rfl rfl))⟩

instance (x : ι) (error : ErrorT) : Balanced (connected x error : CallM τ ι Unit) := by
  unfold connected
  infer_instance

instance (x newConnection : ι) : Balanced (accepted x newConnection : CallM τ ι ErrorT) := by
  have taken : Balanced (do
      spinlockGet x
      let error ← get x fun s : Sock τ ι => (s.acceptedConnections.map fun l =>
        (l.addTail (some newConnection)).2).getD cError
      set x fun s => { s with acceptedConnections :=
        s.acceptedConnections.map fun l => (l.addTail (some newConnection)).1 }
      spinlockFree x
      return error) :=
    ⟨disciplined_lock (disciplined_read fun _ => disciplined_update (disciplined_unlock rfl rfl))⟩
  unfold accepted
  infer_instance

instance (x : ι) : Balanced (destroySocket x : CallM τ ι Unit) := by
  unfold destroySocket
  dsimp only
  infer_instance

theorem balanced_destroyAccepted (x : ι) (count : Nat) :
    Balanced (destroyAccepted x count : CallM τ ι Unit) := by
  induction count with
  | zero => exact inferInstanceAs (Balanced (pure ()))
  | succ count ih =>
    unfold destroyAccepted
    refine balanced_bind inferInstance fun first => balanced_bind inferInstance fun _ => ?_
    cases first with
    | none => exact inferInstanceAs (Balanced (pure ()))
    | some t => exact balanced_bind inferInstance fun _ => ih

instance (x : ι) : Balanced (destroy x : CallM τ ι Unit) := by
  unfold destroy
  refine balanced_bind inferInstance fun _ => balanced_bind inferInstance fun count => ?_
  exact balanced_bind (balanced_destroyAccepted x _) fun _ => inferInstance

theorem balanced_handle (event : Event ι) : Balanced (handle event : CallM τ ι Unit) := by
  cases event with
  | tcpRecv sock p =>
    unfold handle tcpRecvWrapper
    cases p <;> cases sock <;> infer_instance
  | tcpErr sock fatal =>
    unfold handle tcpErrWrapper
    cases sock <;> infer_instance
  | tcpConnected sock err =>
    unfold handle StackCalls.tcpConnected
    cases sock <;> infer_instance
  | tcpAccept oldsock newsock =>
    unfold handle tcpAcceptWrapper
    cases oldsock <;> infer_instance
  | tcpSent sock =>
    unfold handle tcpSentWrapper
    cases sock <;> infer_instance
  | udpRecv sock p =>
    unfold handle udpRecvWrapper
    cases p <;> cases sock <;> infer_instance

instance (events : List (Event ι)) : Balanced (events.forM handle : CallM τ ι Unit) :=
  balanced_forM handle balanced_handle events

instance (x : ι) (aborted : List (Event ι)) :
    Balanced (registerSocket x aborted : CallM τ ι ErrorT) := by
  unfold registerSocket
  refine balanced_bind inferInstance fun tproto => ?_
  cases tproto with
  | tcp => infer_instance
  | udp => infer_instance

instance (thread : τ) (x : ι) : Balanced (protocolSend thread x : CallM τ ι ErrorT) := by
  unfold protocolSend
  refine balanced_bind inferInstance fun type => balanced_bind inferInstance fun tproto => ?_
  cases type <;> cases tproto <;> infer_instance

instance (thread : τ) (x : ι) : Balanced (awaitConnection thread x) := by
  have taken : Balanced (do
      spinlockGet x
      let newConn ← get x fun s : Sock τ ι => s.acceptedConnections.bind fun l => l.removeHead.2
      set x fun s => { s with
        acceptedConnections := s.acceptedConnections.map fun l => l.removeHead.1 }
      spinlockFree x
      set x fun s => { s with blockedThread := none }
      return (if newConn.isNone then cTimeout else cOk, newConn)) :=
    ⟨disciplined_lock (disciplined_read fun _ => disciplined_update (disciplined_unlock rfl
      Balanced.disciplined))⟩
  unfold awaitConnection
  refine ⟨disciplined_lock (disciplined_read fun free => ?_)⟩
  cases free with
  | true => exact disciplined_update (disciplined_unlock rfl Balanced.disciplined)
  | false => exact disciplined_unlock rfl Balanced.disciplined

instance (thread : τ) (x : ι) (backlogSize : Nat) :
    Balanced (StackCalls.listen thread x backlogSize) := by
  unfold StackCalls.listen
  dsimp only
  infer_instance

instance (thread : τ) (x : ι) : Balanced (sendto thread x) := by
  have cleared : ∀ ret, Balanced (do
      spinlockGet x
      set x fun s : Sock τ ι => { s with state := s.state &&& ~~~socketSending }
      spinlockFree x
      return ret : CallM τ ι ErrorT) := fun ret =>
    ⟨disciplined_lock (disciplined_update (disciplined_unlock rfl rfl))⟩
  unfold sendto
  refine balanced_bind inferInstance fun sends => ?_
  cases sends with
  | false => exact inferInstanceAs (Balanced (pure cError))
  | true =>
    refine ⟨disciplined_lock (disciplined_read fun sending => ?_)⟩
    cases sending with
    | true => exact disciplined_unlock rfl rfl
    | false => exact disciplined_update (disciplined_unlock rfl Balanced.disciplined)

/-- `received` with the lock of the socket held. -/
theorem received_inside (x : ι) : Disciplined (received x : CallM τ ι Unit)
    (fun _ h => h = .both x) (.one x) := by
  unfold received
  refine disciplined_read fun tproto => ?_
  cases tproto with
  | tcp =>
    refine disciplined_read fun pcb => ?_
    cases pcb with
    | true => exact ⟨.both x, rfl, fun _ _ => ⟨.both x, rfl, rfl⟩⟩
    | false => exact ⟨.both x, rfl, fun _ => ⟨.both x, rfl, rfl⟩⟩
  | udp => exact ⟨.both x, rfl, fun _ => ⟨.both x, rfl, rfl⟩⟩

instance (x : ι) (dataSize : Nat) : Balanced (fetch x dataSize : CallM τ ι ErrorT) := by
  unfold fetch
  refine ⟨disciplined_lock (disciplined_read fun first => disciplined_update ?_)⟩
  split
  · refine (received_inside x).bind fun _ h held => ?_
    rw [held]
    exact disciplined_unlock rfl rfl
  · exact disciplined_unlock rfl rfl

instance (thread : τ) (x : ι) (dataSize : Nat) (wait : Bool) :
    Balanced (recvfrom thread x dataSize wait) := by
  unfold recvfrom
  refine ⟨disciplined_lock (disciplined_read fun hasData => ?_)⟩
  cases hasData with
  | true => exact disciplined_unlock rfl Balanced.disciplined
  | false =>
    refine disciplined_read fun isEnd => ?_
    cases isEnd with
    | true => exact disciplined_unlock rfl rfl
    | false =>
      cases wait with
      | false => exact disciplined_unlock rfl rfl
      | true =>
        refine disciplined_read fun free => ?_
        cases free with
        | true => exact disciplined_update (disciplined_unlock rfl Balanced.disciplined)
        | false => exact disciplined_unlock rfl rfl

/-- All calls take and release the locks in order. -/
theorem balanced_program (thread : τ) (call : Call ι) : Balanced (program thread call) := by
  cases call with
  | bind x saData aborted =>
    unfold program StackCalls.bind
    dsimp only
    infer_instance
  | connect x =>
    unfold program connect
    dsimp only
    infer_instance
  | listen x backlogSize =>
    unfold program
    infer_instance
  | sendto x =>
    unfold program
    infer_instance
  | recvfrom x dataSize wait =>
    unfold program
    infer_instance
  | destroy x =>
    unfold program
    infer_instance
  | network events =>
    unfold program
    infer_instance

end Discipline

section Runs

variable [DecidableEq τ]

/-- Calls and callbacks of threads in any order: no thread waits in a cycle in any state, when the
mutex is taken for what leads to the lock of a socket only while nobody who has that lock is on
the way to the mutex, and that lock for what leads to the mutex only while nobody who has the
mutex is on the way to the lock. -/
theorem lock_waits_acyclic (sockets : ι → Sock τ ι) (ops : List (Op τ (Call ι)))
    (apart : Admissible (Machine.step program) (Machine.Fits program) (Machine.start sockets) ops) :
    Throughout (Machine.step program) Machine.Acyclic (Machine.start sockets) ops := by
  refine throughout_of_invariant (fun m => Machine.Sound m ∧ Machine.Uncrossed m)
    (fun m inv => inv.1.acyclic_of_uncrossed inv.2) (fun m op inv fits => ?_) ops _
    ⟨Machine.sound_start sockets, Machine.uncrossed_start sockets⟩ apart
  exact ⟨inv.1.step balanced_program op, inv.2.step fits⟩

/-- A packet is delivered while the other thread spins on the lock of its socket; that receives
it with the mutex, and another one is delivered. -/
def deliverAndReceive : List (Op (Fin 2) (Call Unit)) :=
  let deliver : Op (Fin 2) (Call Unit) :=
    .begin (Fin.last 1) (.network [.udpRecv (some ()) (some ⟨[1], []⟩)])
  let receive : Op (Fin 2) (Call Unit) := .begin (Fin.last 0).castSucc (.recvfrom () 10 false)
  deliver :: List.replicate 3 (.run (Fin.last 1) 0) ++ receive ::
    List.replicate 2 (.run (Fin.last 0).castSucc 0) ++ List.replicate 4 (.run (Fin.last 1) 0) ++
    List.replicate 11 (.run (Fin.last 0).castSucc 0) ++
    deliver :: List.replicate 7 (.run (Fin.last 1) 0)

/-- With one socket, a thread begins a call without a lock, and takes a free lock when the other
one has none. -/
def alone (m : Machine (Fin 2) (Unit → Sock (Fin 2) Unit) Unit) : Op (Fin 2) (Call Unit) → Bool
  | .begin t _ => m.holder .outer ≠ some t && m.holder (.inner ()) ≠ some t
  | .run t _ =>
    match m.program t with
    | .acquire l _ =>
      (m.holder l).isSome || (m.holder .outer).all (· = t) && (m.holder (.inner ())).all (· = t)
    | _ => true

theorem fits_of_alone {m : Machine (Fin 2) (Unit → Sock (Fin 2) Unit) Unit}
    {op : Op (Fin 2) (Call Unit)} (apart : alone m op = true) : Machine.Fits program m op := by
  cases op with
  | begin t call =>
    intro _ l holds
    simp only [alone, ne_eq, decide_not, Bool.and_eq_true, Bool.not_eq_true',
      decide_eq_false_iff_not] at apart
    cases l with
    | outer => exact absurd holds apart.1
    | inner x => exact absurd holds apart.2
  | run t answer =>
    intro l next program free
    simp only [alone, program, free, Option.isSome_none, Bool.false_or, Bool.and_eq_true,
      Option.all_eq_true, decide_eq_true_eq] at apart
    refine Machine.apart_of_alone fun k u holds => ?_
    cases k with
    | outer => exact apart.1 u holds
    | inner x => exact apart.2 u holds

theorem lock_waits_acyclic_inTurn : Throughout (Machine.step program) Machine.Acyclic
    (Machine.start fun _ : Unit => .fresh .dgram .udp) deliverAndReceive :=
  lock_waits_acyclic _ _ (Admissible.imp (fun _ _ => fits_of_alone)
    (show Admissible (Machine.step program) (fun m op => alone m op = true) _ _ by decide +kernel))

/-- A packet is delivered; the one thread receives it until it asks for the mutex, and the
other delivers another one until it asks for the lock of the socket. -/
def receiveAndDeliver : List (Op (Fin 2) (Call Unit)) :=
  let deliver : Op (Fin 2) (Call Unit) :=
    .begin (Fin.last 1) (.network [.udpRecv (some ()) (some ⟨[1], []⟩)])
  deliver :: List.replicate 7 (.run (Fin.last 1) 0) ++
    .begin (Fin.last 0).castSucc (.recvfrom () 10 false) ::
      List.replicate 7 (.run (Fin.last 0).castSucc 0) ++
      deliver :: List.replicate 2 (.run (Fin.last 1) 0)

/-- The two threads wait for each other. -/
theorem receiver_and_network_wait : ¬Machine.Acyclic (exec (Machine.step program)
    (Machine.start fun _ => .fresh .dgram .udp) receiveAndDeliver) := by
  intro acyclic
  have first : Machine.WaitsFor (exec (Machine.step program)
      (Machine.start fun _ => .fresh .dgram .udp) receiveAndDeliver) 0 (Fin.last 1) :=
    ⟨.outer, ⟨_, rfl⟩, rfl, fun _ => by decide⟩
  have second : Machine.WaitsFor (exec (Machine.step program)
      (Machine.start fun _ => .fresh .dgram .udp) receiveAndDeliver) (Fin.last 1) 0 :=
    ⟨.inner (), ⟨_, rfl⟩, rfl, fun same => by cases same⟩
  exact acyclic 0 (Relation.TransGen.tail (Relation.TransGen.single first) second)

end Runs

end Orcos.Guarantees.LockOrder
