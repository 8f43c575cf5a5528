import Orcos.Lib.Runs
import Orcos.Source.Comm.PBufList

/-!
# Received messages as a queue

Source: src/source/comm/FixedSizePBufList.cc.

`getFirst` compares only the first buffer of a chain with the room of the caller, and copies
no other.
-/
namespace Orcos.Guarantees.MessageQueues
open Source Source.Comm Lib.Runs Lib.Ring

variable {α : Type} [Zero α]

inductive Call (α : Type)
  | addPbuf (p : PBuf) (sender : Option α)
  | getFirst (len : Nat) (wanted : Bool)
  | hasData

inductive Answer (α : Type)
  | added (ret : ErrorT)
  | got (first : First) (sender : Option α)
  | available (yes : Bool)

def call (l : AddressedList α) : Call α → AddressedList α × Answer α
  | .addPbuf p sender => ((l.addPbuf p sender).1, .added (l.addPbuf p sender).2)
  | .getFirst len wanted =>
    ((l.getFirst len wanted).1, .got (l.getFirst len wanted).2.1 (l.getFirst len wanted).2.2)
  | .hasData => (l, .available l.list.hasData)

/-- A queue of at most `n - 1` messages, each with its sender. -/
def queueCall (n : Nat) (queue : List (PBuf × α)) : Call α → List (PBuf × α) × Answer α
  | .addPbuf p sender =>
    if queue.length + 1 < n then (queue ++ [(p, sender.getD 0)], .added cOk)
    else (queue, .added cDatabaseOverflow)
  | .getFirst len wanted =>
    match queue with
    | [] => (queue, .got ⟨cNoData, none, []⟩ none)
    | (p, sender) :: rest =>
      if p.totLen ≤ len then
        (rest, .got ⟨p.totLen, some p, p.bytes⟩ (if wanted then some sender else none))
      else (queue, .got ⟨cError, none, []⟩ none)
  | .hasData => (queue, .available (!queue.isEmpty))

/-- The oldest message is in one buffer, or its first buffer is already too long. -/
def InOneBuffer (queue : List (PBuf × α)) : Call α → Prop
  | .getFirst len _ => ∀ message ∈ queue.head?, message.1.len ≤ len → message.1.next.flatten = []
  | _ => True

/-- The list holds the messages of a queue, and the address of each beside it. -/
structure Represents (n : Nat) (l : AddressedList α) (queue : List (PBuf × α)) : Prop where
  holds : l.list.Holds (queue.map Prod.fst)
  size : l.list.size = n
  senders : window l.addrList n l.list.headId queue.length = queue.map Prod.snd

variable {n : Nat} {l : AddressedList α} {queue : List (PBuf × α)}

theorem represents_fresh (capacity : 1 < n) :
    Represents n (AddressedList.fresh n : AddressedList α) [] where
  holds := PBufList.holds_fresh (Nat.lt_of_succ_lt capacity)
  size := rfl
  senders := rfl

omit [Zero α] in
theorem Represents.isFull_iff (represents : Represents n l queue) :
    l.list.isFull = true ↔ ¬queue.length + 1 < n := by
  have room := represents.holds.room
  rw [represents.holds.isFull_iff, represents.size, List.length_map]
  rw [represents.size, List.length_map] at room
  omega

theorem Represents.addPbuf (represents : Represents n l queue) (p : PBuf) (sender : Option α) :
    Represents n (call l (.addPbuf p sender)).1 (queueCall n queue (.addPbuf p sender)).1 ∧
      (call l (.addPbuf p sender)).2 = (queueCall n queue (.addPbuf p sender)).2 := by
  dsimp only [call, queueCall, AddressedList.addPbuf]
  cases full : l.list.isFull with
  | true =>
    rw [if_pos rfl, if_neg (represents.isFull_iff.mp full)]
    exact ⟨represents, rfl⟩
  | false =>
    have more : queue.length + 1 < n := by
      apply Decidable.of_not_not
      intro less
      rw [represents.isFull_iff.mpr less] at full
      cases full
    have size := represents.size
    rw [if_neg Bool.false_ne_true, if_pos more]
    apply And.intro _ rfl
    constructor
    · rw [List.map_append]
      exact (represents.holds.addPbuf p full).2
    · simp [size]
    · have last := represents.holds.last
      rw [size, List.length_map] at last
      rw [PBufList.addPbuf_headId, List.length_append, List.length_singleton, last,
        window_update_concat (by omega), represents.senders, List.map_append]
      rfl

omit [Zero α] in
/-- A message is taken with its sender, when its first buffer fits. -/
theorem Represents.take {p : PBuf} {sender : α} {rest : List (PBuf × α)} {len : Nat}
    (represents : Represents n l ((p, sender) :: rest)) (fits : p.len ≤ len) (wanted : Bool) :
    Represents n (l.getFirst len wanted).1 rest ∧ (l.getFirst len wanted).2 =
      (⟨p.len, some p, p.payload⟩, if wanted then some sender else none) := by
  have holds := represents.holds
  have size := represents.size
  have inside := holds.inside
  have room := holds.room
  have senders := represents.senders
  rw [List.map_cons] at holds
  rw [List.length_map, List.length_cons, size] at room
  rw [size] at inside
  rw [List.length_cons, window_cons inside (by omega), List.map_cons] at senders
  obtain ⟨empty, -⟩ | ⟨q, queue, same, long, -⟩ | ⟨q, queue, same, -, left, got⟩ :=
    holds.getFirst len
  · cases empty
  · cases same
    exact absurd fits (Nat.not_le.mpr long)
  · cases same
    dsimp only [AddressedList.getFirst]
    rw [got, (List.cons.inj senders).1]
    constructor
    · constructor
      · exact left
      · rw [PBufList.getFirst_size, size]
      · change window l.addrList n (l.list.getFirst len).1.headId rest.length = _
        rw [holds.getFirst_headId fits, size]
        exact (List.cons.inj senders).2
    · simp

omit [Zero α] in
/-- A message whose first buffer is too long stays. -/
theorem Represents.refuse {p : PBuf} {sender : α} {rest : List (PBuf × α)} {len : Nat}
    (represents : Represents n l ((p, sender) :: rest)) (long : p.len > len) (wanted : Bool) :
    l.getFirst len wanted = (l, ⟨cError, none, []⟩, none) := by
  have holds := represents.holds
  rw [List.map_cons] at holds
  obtain ⟨empty, -⟩ | ⟨q, queue, same, -, got⟩ | ⟨q, queue, same, fits, -⟩ := holds.getFirst len
  · cases empty
  · simp [AddressedList.getFirst, got]
  · cases same
    exact absurd fits (Nat.not_le.mpr long)

omit [Zero α] in
theorem Represents.nothing {len : Nat} (represents : Represents n l []) (wanted : Bool) :
    l.getFirst len wanted = (l, ⟨cNoData, none, []⟩, none) := by
  obtain ⟨-, got⟩ | ⟨q, queue, same, -⟩ | ⟨q, queue, same, -⟩ := represents.holds.getFirst len
  · simp [AddressedList.getFirst, got]
  · cases same
  · cases same

theorem len_le_totLen (p : PBuf) : p.len ≤ p.totLen := by
  simp [PBuf.len, PBuf.totLen, PBuf.bytes]

theorem totLen_of_single {p : PBuf} (single : p.next.flatten = []) :
    p.bytes = p.payload ∧ p.totLen = p.len := by
  simp [PBuf.len, PBuf.totLen, PBuf.bytes, single]

/-- A call answers as the queue does, when the message it takes is in one buffer. -/
theorem Represents.call (represents : Represents n l queue) (op : Call α)
    (single : InOneBuffer queue op) :
    Represents n (call l op).1 (queueCall n queue op).1 ∧
      (MessageQueues.call l op).2 = (queueCall n queue op).2 := by
  cases op with
  | addPbuf p sender => exact represents.addPbuf p sender
  | getFirst len wanted =>
    dsimp only [MessageQueues.call, queueCall]
    cases queue with
    | nil =>
      rw [represents.nothing]
      exact ⟨represents, rfl⟩
    | cons message rest =>
      obtain ⟨p, sender⟩ := message
      have longer := len_le_totLen p
      by_cases fits : p.len ≤ len
      · obtain ⟨bytes, total⟩ := totLen_of_single (single _ rfl fits)
        obtain ⟨left, got⟩ := represents.take fits wanted
        have all : p.totLen ≤ len := by rwa [total]
        rw [got]
        dsimp only
        rw [if_pos all, bytes, total]
        exact ⟨left, rfl⟩
      · have long : p.len > len := Nat.lt_of_not_le fits
        rw [represents.refuse long]
        dsimp only
        rw [if_neg (by omega)]
        exact ⟨represents, rfl⟩
  | hasData =>
    refine ⟨represents, congrArg Answer.available ?_⟩
    have iff := represents.holds.hasData_iff
    cases queue with
    | nil => simpa using iff
    | cons message rest => simpa using iff

/-- Of a message in more buffers, only the first is copied. -/
theorem Represents.call_ne (represents : Represents n l queue) (op : Call α)
    (chained : ¬InOneBuffer queue op) :
    (MessageQueues.call l op).2 ≠ (queueCall n queue op).2 := by
  cases op with
  | addPbuf p sender => exact absurd trivial chained
  | hasData => exact absurd trivial chained
  | getFirst len wanted =>
    cases queue with
    | nil => exact absurd (by simp [InOneBuffer]) chained
    | cons message rest =>
      obtain ⟨p, sender⟩ := message
      have more : p.len ≤ len ∧ p.next.flatten ≠ [] := by
        simpa only [InOneBuffer, List.head?_cons, Option.mem_some_iff, forall_eq',
          Classical.not_imp]
          using chained
      obtain ⟨-, got⟩ := represents.take more.1 wanted
      dsimp only [MessageQueues.call, queueCall]
      rw [got]
      dsimp only
      intro same
      by_cases all : p.totLen ≤ len
      · rw [if_pos all, Answer.got.injEq, First.mk.injEq, PBuf.bytes] at same
        exact more.2 (List.self_eq_append_right.mp same.1.2.2)
      · rw [if_neg all, Answer.got.injEq, First.mk.injEq] at same
        exact Option.some_ne_none p same.1.2.1

/-- A list of capacity `n` answers as a queue of at most `n - 1` messages just when every
message that is asked for is in one buffer, or its first buffer is too long for the caller. -/
theorem answers_iff_inOneBuffer (capacity : 1 < n) (ops : List (Call α)) :
    outputs call (AddressedList.fresh n) ops = outputs (queueCall n) [] ops ↔
      Admissible (fun queue op => (queueCall n queue op).1) InOneBuffer [] ops := by
  apply outputs_eq_iff (Represents n)
  · intro l queue op represents single
    exact represents.call op single
  · intro l queue op represents chained
    exact represents.call_ne op chained
  · exact represents_fresh capacity

/-- Two messages are added and received in turn, the first one with its sender, and then there
is none. -/
theorem answers_iff_inOneBuffer_two :
    outputs call (AddressedList.fresh 3)
        [.addPbuf ⟨[1, 2], []⟩ (some 7), .addPbuf ⟨[3], []⟩ none, .getFirst 4 true,
          .getFirst 4 false, .hasData] =
      [.added cOk, .added cOk, .got ⟨2, some ⟨[1, 2], []⟩, [1, 2]⟩ (some 7),
        .got ⟨1, some ⟨[3], []⟩, [3]⟩ none, .available false] := by
  refine ((answers_iff_inOneBuffer (by decide) _).mpr ?_).trans rfl
  refine ⟨trivial, trivial, ?_, ?_, trivial, trivial⟩
  · intro message oldest fits
    cases oldest
    rfl
  · intro message oldest fits
    cases oldest
    rfl

/-- A message of two bytes in two buffers is received as one byte. -/
theorem chain_truncated : ¬∀ n, 1 < n → ∀ ops : List (Call Nat),
    outputs call (AddressedList.fresh n) ops = outputs (queueCall n) [] ops := by
  intro all
  have same := all 2 (by decide) [.addPbuf ⟨[1], [[2]]⟩ none, .getFirst 4 true]
  have got := (List.cons.inj (List.cons.inj same).2).1
  have data := (First.mk.inj (Answer.got.inj got).1).2.2
  exact absurd data (by decide)

end Orcos.Guarantees.MessageQueues
