import Orcos.Lib.Runs
import Orcos.Source.Comm.Socket

/-!
# Bytes of a stream

Source: src/source/comm/TCPTransportProtocol.cc, `tcp_recv_wrapper`, `received`;
src/source/comm/Socket.cc, `addMessage`, `recvfrom`;
src/source/comm/FixedSizePBufList.cc, `addPbuf`, `getFirst`.

`addMessage` takes a segment over also when there is no room for it, and `getFirst` copies
the first buffer of a chain while the whole chain is reported and freed.
-/
namespace Orcos.Guarantees.SegmentStreams
open Source Source.Comm Lib.Runs

variable {τ : Type}

/-- The bytes of segments, one after the other. -/
def bytesOf (segments : List PBuf) : List Byte := segments.flatMap PBuf.bytes

/-- What receivers got is the beginning of what was taken over, all of it once nothing is
buffered any more, and the protocol was told of just these bytes. -/
structure Faithful (s : Socket τ) : Prop where
  inOrder : s.obtained <+: bytesOf s.acknowledged
  complete : s.messageBuffer.hasData = false → s.obtained = bytesOf s.acknowledged
  reported : bytesOf s.received = s.obtained

/-- A segment comes in one buffer, and finds room. -/
def Buffered (s : Socket τ) : Step τ → Prop
  | .tcpRecv p => s.network = .idle → p.next.flatten = [] ∧ s.messageBuffer.isFull = false
  | _ => True

/-- What a step does to the bytes: the buffer, the segments taken over and reported, and the
bytes that receivers got. -/
def stream (s : Socket τ) : PBufList × List PBuf × List PBuf × List Byte :=
  (s.messageBuffer, s.acknowledged, s.received, s.obtained)

/-- Some packets are buffered, none with a chain; with them the receivers would have got all
that was taken over. -/
structure Tracked (l : PBufList) (acknowledged received : List PBuf) (obtained : List Byte)
    (queue : List PBuf) : Prop where
  holds : l.Holds queue
  single : ∀ p ∈ queue, p.next.flatten = []
  whole : obtained ++ bytesOf queue = bytesOf acknowledged
  reported : bytesOf received = obtained

def Tracks (s : Socket τ) : Prop :=
  ∃ queue, Tracked s.messageBuffer s.acknowledged s.received s.obtained queue

variable {s s' : Socket τ} {thread : τ}

theorem Tracks.of_stream (tracks : Tracks s) (same : stream s' = stream s) : Tracks s' := by
  obtain ⟨queue, tracked⟩ := tracks
  have buffer : s'.messageBuffer = s.messageBuffer := congrArg Prod.fst same
  have rest := congrArg Prod.snd same
  have acknowledged : s'.acknowledged = s.acknowledged := congrArg Prod.fst rest
  have received : s'.received = s.received := congrArg (fun r => r.2.1) rest
  have obtained : s'.obtained = s.obtained := congrArg (fun r => r.2.2) rest
  refine ⟨queue, ?_⟩
  rw [buffer, acknowledged, received, obtained]
  exact tracked

@[simp] theorem bytesOf_nil : bytesOf [] = [] := rfl

@[simp] theorem bytesOf_append (segments more : List PBuf) :
    bytesOf (segments ++ more) = bytesOf segments ++ bytesOf more := List.flatMap_append

theorem bytesOf_cons (p : PBuf) (segments : List PBuf) :
    bytesOf (p :: segments) = p.bytes ++ bytesOf segments := List.flatMap_cons

@[simp] theorem bytesOf_singleton (p : PBuf) : bytesOf [p] = p.bytes := by
  rw [bytesOf_cons, bytesOf_nil, List.append_nil]

/-- Without a chain a segment is the payload of its buffer. -/
theorem bytes_of_single {p : PBuf} (single : p.next.flatten = []) : p.bytes = p.payload := by
  rw [PBuf.bytes, single, List.append_nil]

theorem Tracks.faithful (tracks : Tracks s) : Faithful s := by
  obtain ⟨queue, tracked⟩ := tracks
  refine ⟨⟨bytesOf queue, tracked.whole⟩, fun empty => ?_, tracked.reported⟩
  have none_ : queue = [] := by
    by_contra some_
    rw [tracked.holds.hasData_iff.mpr some_] at empty
    cases empty
  have whole := tracked.whole
  rw [none_, bytesOf_nil, List.append_nil] at whole
  exact whole

/-- A segment that finds room is taken over and buffered. -/
theorem Tracks.tcpRecv {p : PBuf} (tracks : Tracks s) (single : p.next.flatten = [])
    (free : s.messageBuffer.isFull = false) : Tracks (s.tcpRecvWrapper p) := by
  obtain ⟨queue, tracked⟩ := tracks
  have added := tracked.holds.addPbuf p free
  refine ⟨queue ++ [p], added.2, ?_, ?_, tracked.reported⟩
  · intro q member
    rcases List.mem_append.mp member with old | new
    · exact tracked.single q old
    · rw [List.mem_singleton.mp new]
      exact single
  · change s.obtained ++ bytesOf (queue ++ [p]) = bytesOf (s.acknowledged ++ [p])
    rw [bytesOf_append, bytesOf_append, ← List.append_assoc, tracked.whole]

variable [DecidableEq τ]

/-- A receiver gets the first packet, or nothing. -/
theorem Tracks.recvfromFetch {dataSize : Nat} (tracks : Tracks s) :
    Tracks (s.recvfromFetch thread dataSize) := by
  obtain ⟨queue, tracked⟩ := tracks
  unfold Socket.recvfromFetch
  rcases tracked.holds.getFirst dataSize with ⟨_, same⟩ | ⟨p, rest, _, _, same⟩ |
    ⟨p, rest, front, _, left, first⟩
  · refine ⟨queue, ?_⟩
    simp only [same, Option.toList_none, ite_self, List.append_nil]
    exact tracked
  · refine ⟨queue, ?_⟩
    simp only [same, Option.toList_none, ite_self, List.append_nil]
    exact tracked
  · have single := tracked.single p (by rw [front]; exact List.mem_cons_self)
    refine ⟨rest, left, fun q later => tracked.single q (by simp [front, later]), ?_, ?_⟩
    · have whole := tracked.whole
      rw [front, bytesOf_cons, bytes_of_single single] at whole
      simp only [first]
      rw [List.append_assoc, whole]
      rfl
    · simp only [first, Option.toList_some]
      -- a packet without bytes is not reported
      split
      · rw [bytesOf_append, bytesOf_singleton, bytes_of_single single, tracked.reported]
      · next none_ =>
        have length : ¬(0 : Int) < p.payload.length := none_
        have empty : p.payload = [] := List.length_eq_zero_iff.mp (by omega)
        rw [List.append_nil, empty, List.append_nil, tracked.reported]

theorem stream_recvfrom (s : Socket τ) (thread : τ) (wait : Bool) :
    stream (s.recvfrom thread wait) = stream s := by
  unfold Socket.recvfrom
  split
  · rfl
  · split
    · rfl
    · split
      · split <;> rfl
      · rfl

theorem stream_listen (s : Socket τ) (thread : τ) (backlogSize : Nat) :
    stream (s.listen thread backlogSize) = stream s := by
  unfold Socket.listen
  split
  · rfl
  · dsimp only
    split <;> rfl

theorem stream_connect (s : Socket τ) (thread : τ) : stream (s.connect thread) = stream s := by
  unfold Socket.connect
  split
  · rfl
  · split <;> rfl

theorem stream_recvfromResume (s : Socket τ) (thread : τ) :
    stream (s.recvfromResume thread) = stream s := by
  unfold Socket.recvfromResume
  dsimp only
  split <;> rfl

omit [DecidableEq τ] in
theorem stream_accepted (s : Socket τ) (newConnection : Nat) :
    stream (s.accepted newConnection) = stream s := by
  unfold Socket.accepted
  split
  · rfl
  · split
    · rfl
    · dsimp only
      split <;> rfl

theorem stream_unflag (s : Socket τ) (thread : τ) : stream (s.unflag thread) = stream s := by
  unfold Socket.unflag
  split <;> rfl

/-- Only deliveries and receivers move bytes. -/
theorem stream_step (s : Socket τ) {op : Step τ} (noSegment : ∀ p, op ≠ .tcpRecv p)
    (noFetch : ∀ thread dataSize, op ≠ .getFirst thread dataSize) :
    stream (s.step op) = stream s := by
  cases op with
  | tcpRecv p => exact absurd rfl (noSegment p)
  | getFirst thread dataSize => exact absurd rfl (noFetch thread dataSize)
  | dispatcherBlock thread =>
    unfold Socket.step Socket.dispatcherBlock
    dsimp only
    split <;> rfl
  | expire =>
    unfold Socket.step
    dsimp only
    split
    · next thread _ => exact stream_unflag s thread
    · rfl
  | isBlocked =>
    unfold Socket.step
    dsimp only
    split
    · split <;> rfl
    · rfl
  | recvfrom thread wait =>
    unfold Socket.step
    dsimp only
    split
    · exact stream_recvfrom s thread wait
    · rfl
  | listen thread backlogSize =>
    unfold Socket.step
    dsimp only
    split
    · exact stream_listen s thread backlogSize
    · rfl
  | connect thread =>
    unfold Socket.step
    dsimp only
    split
    · exact stream_connect s thread
    · rfl
  | lookForConnections thread =>
    unfold Socket.step Socket.lookForConnections
    dsimp only
    split
    · split <;> rfl
    · rfl
  | resume thread =>
    unfold Socket.step
    dsimp only
    split
    · exact stream_recvfromResume s thread
    · rfl
    · rfl
    · rfl
  | removeHead thread =>
    unfold Socket.step Socket.removeHead
    dsimp only
    split
    · split <;> rfl
    · rfl
  | accepted newConnection =>
    unfold Socket.step
    dsimp only
    split
    · exact stream_accepted s newConnection
    · rfl
  | connected error =>
    unfold Socket.step Socket.connected
    dsimp only
    split
    · split <;> rfl
    · rfl
  | unblock =>
    unfold Socket.step
    dsimp only
    split
    · next thread _ _ => exact stream_unflag s thread
    · rfl
  | _ =>
    unfold Socket.step
    dsimp only
    split <;> rfl

theorem Tracks.step {op : Step τ} (tracks : Tracks s) (buffered : Buffered s op) :
    Tracks (s.step op) := by
  cases op with
  | tcpRecv p =>
    unfold Socket.step
    dsimp only
    split
    · next idle => exact tracks.tcpRecv (buffered idle).1 (buffered idle).2
    · exact tracks
  | getFirst thread dataSize =>
    unfold Socket.step
    dsimp only
    split
    · exact tracks.recvfromFetch
    · exact tracks
  | _ => exact tracks.of_stream (stream_step s nofun nofun)

/-- Of a new socket, every run in which each segment comes in one buffer and finds room
hands to receivers what was taken over, in order and without a gap. -/
theorem segments_delivered (type : SockType) (steps : List (Step τ))
    (buffered : Admissible Socket.step Buffered (Socket.fresh type) steps) :
    Faithful (exec Socket.step (Socket.fresh type : Socket τ) steps) := by
  have started : Tracks (Socket.fresh type : Socket τ) :=
    ⟨[], PBufList.holds_fresh (by decide), nofun, rfl, rfl⟩
  have tracks : Tracks (exec Socket.step (Socket.fresh type : Socket τ) steps) :=
    exec_invariant Tracks (fun _ _ tracks buffered => tracks.step buffered) steps _ started buffered
  exact tracks.faithful

/-- Two segments, and a receiver whose first buffer is too short. -/
theorem segments_delivered_two :
    Faithful (exec Socket.step (Socket.fresh .stream : Socket Unit)
      [.tcpRecv ⟨[1, 2], []⟩, .tcpRecv ⟨[3], []⟩, .recvfrom () true, .getFirst () 1,
        .recvfrom () true, .getFirst () 10]) :=
  segments_delivered .stream _
    ⟨fun _ => ⟨rfl, rfl⟩, fun _ => ⟨rfl, rfl⟩, trivial, trivial, trivial, trivial, trivial⟩

/-- A receiver asks for what is there. -/
def fetch : List (Step Unit) := [.recvfrom () true, .getFirst () 10]

/-- A segment in two buffers, and one behind it. -/
def chained : List (Step Unit) :=
  .tcpRecv ⟨[1], [[2]]⟩ :: fetch ++ .tcpRecv ⟨[3], []⟩ :: fetch

/-- Twenty segments while nobody receives. -/
def twenty : List (Step Unit) :=
  List.replicate 20 (.tcpRecv ⟨[1], []⟩) ++ (List.replicate 19 fetch).flatten

/-- The second buffer of a segment is never handed out; and of twenty segments that wait
the last one is lost, though it was taken over. -/
theorem segments_lost :
    ¬Faithful (exec Socket.step (Socket.fresh .stream) chained) ∧
      ¬Faithful (exec Socket.step (Socket.fresh .stream) twenty) := by
  refine ⟨fun faithful => ?_, fun faithful => ?_⟩
  · exact absurd faithful.inOrder (by decide +kernel)
  · exact absurd (faithful.complete (by decide +kernel)) (by decide +kernel)

end Orcos.Guarantees.SegmentStreams
