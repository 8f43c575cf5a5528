import Mathlib.Logic.Function.Basic
import Orcos.Lib.Ring
import Orcos.Source.Alignment

/-!
# The buffer of received packets

Source: src/source/comm/FixedSizePBufList.cc and FixedSizePBufList.hh;
src/source/comm/lwip/include/lwip/pbuf.h, `pbuf`.

Memory comes zeroed, so the constructor leaves all entries empty. The sockets use the list
of packets; with the addresses that are kept beside them it is an `AddressedList`.
-/
namespace Orcos.Source.Comm
open Lib.Ring

abbrev Byte := BitVec 8

/-- A packet buffer: its own payload, and those of the buffers chained to it. -/
structure PBuf where
  payload : List Byte
  next : List (List Byte)
  deriving DecidableEq

namespace PBuf

variable (p : PBuf)

def len : Nat := p.payload.length

/-- All bytes of the chain. -/
def bytes : List Byte := p.payload ++ p.next.flatten

/-- `tot_len`. -/
def totLen : Nat := p.bytes.length

end PBuf

structure PBufList where
  pbufList : Nat → Option PBuf
  headId : Nat
  lastId : Nat
  size : Nat

/-- What `getFirst` returns, the packet it hands out and the bytes it copies. -/
structure First where
  ret : ErrorT
  pb : Option PBuf
  data : List Byte

namespace PBufList

def fresh (size : Nat) : PBufList := ⟨fun _ => none, 0, 0, size⟩

variable (l : PBufList)

def hasData : Bool := (l.pbufList l.headId).isSome

/-- The entry behind the last one. -/
def next : Nat := if l.lastId + 1 ≥ l.size then 0 else l.lastId + 1

/-- All entries but one are used. -/
def isFull : Bool := l.next = l.headId

def addPbuf (p : PBuf) : PBufList × ErrorT :=
  if l.isFull then (l, cDatabaseOverflow)
  else ({ l with pbufList := Function.update l.pbufList l.lastId (some p), lastId := l.next }, cOk)

def getFirst (len : Nat) : PBufList × First :=
  match l.pbufList l.headId with
  | none => (l, ⟨cNoData, none, []⟩)
  | some p =>
    if p.len > len then (l, ⟨cError, none, []⟩)
    else ({ l with
        pbufList := Function.update l.pbufList l.headId none
        headId := if l.headId + 1 ≥ l.size then 0 else l.headId + 1 },
      ⟨p.len, some p, p.payload⟩)

/-- The packets from the head on are those of a queue, and the entries behind them are
empty; one entry always is. -/
structure Holds (queue : List PBuf) : Prop where
  inside : l.headId < l.size
  room : queue.length < l.size
  last : l.lastId = modulo (l.headId + queue.length) l.size
  full : window l.pbufList l.size l.headId queue.length = queue.map some
  empty : ∀ k, queue.length ≤ k → k < l.size → l.pbufList (modulo (l.headId + k) l.size) = none

theorem holds_fresh {size : Nat} (positive : 0 < size) : (fresh size).Holds [] where
  inside := positive
  room := positive
  last := (modulo_zero positive).symm
  full := rfl
  empty _ _ _ := rfl

variable {l} {queue : List PBuf} {p : PBuf}

/-- The first entry is that of the head. -/
theorem Holds.head (holds : l.Holds queue) : l.pbufList l.headId = queue.head? := by
  cases queue with
  | nil =>
    have first := holds.empty 0 (Nat.le_refl 0) holds.room
    rw [modulo_zero holds.inside] at first
    exact first
  | cons p queue =>
    have full := holds.full
    rw [List.length_cons, window_cons holds.inside (Nat.lt_of_succ_lt holds.room)] at full
    exact (List.cons.inj full).1

theorem Holds.hasData_iff (holds : l.Holds queue) : l.hasData = true ↔ queue ≠ [] := by
  unfold hasData
  rw [holds.head]
  cases queue <;> simp

theorem Holds.next_eq (holds : l.Holds queue) :
    l.next = modulo (l.headId + (queue.length + 1)) l.size := by
  have inside := holds.inside
  have room := holds.room
  unfold next
  rw [holds.last]
  unfold modulo
  split <;> split <;> split <;> omega

theorem Holds.isFull_iff (holds : l.Holds queue) : l.isFull = true ↔ queue.length + 1 = l.size := by
  unfold isFull
  rw [decide_eq_true_eq, holds.next_eq]
  constructor
  · intro same
    have room := holds.room
    have turn : ¬queue.length + 1 < l.size := fun more =>
      modulo_ne_start (Nat.succ_pos _) more same
    omega
  · intro turn
    rw [turn, modulo_turn]

/-- A packet is appended, unless only one entry is left. -/
theorem Holds.addPbuf (holds : l.Holds queue) (p : PBuf) (free : l.isFull = false) :
    (l.addPbuf p).2 = cOk ∧ (l.addPbuf p).1.Holds (queue ++ [p]) := by
  have more : queue.length + 1 < l.size := by
    have room := holds.room
    have open_ : ¬queue.length + 1 = l.size := by
      rw [← holds.isFull_iff, free]
      exact Bool.false_ne_true
    omega
  unfold PBufList.addPbuf
  rw [if_neg (by rw [free]; exact Bool.false_ne_true)]
  refine ⟨rfl, holds.inside, by simpa using more, by simp [holds.next_eq], ?_, ?_⟩
  · change window (Function.update l.pbufList l.lastId (some p)) l.size l.headId _ = _
    rw [holds.last, List.length_append, List.length_singleton,
      window_update_concat holds.room, holds.full, List.map_append, List.map_singleton]
  · intro k behind inside
    rw [List.length_append, List.length_singleton] at behind
    have other : modulo (l.headId + k) l.size ≠ l.lastId := by
      rw [holds.last, ne_eq, modulo_inj inside holds.room]
      omega
    change Function.update l.pbufList l.lastId (some p) _ = none
    rw [Function.update_of_ne other]
    exact holds.empty k (by omega) inside

/-- The packet at the head is taken, when the bytes of its own buffer fit. -/
theorem Holds.getFirst (holds : l.Holds queue) (len : Nat) :
    (queue = [] ∧ l.getFirst len = (l, ⟨cNoData, none, []⟩)) ∨
    (∃ p rest, queue = p :: rest ∧ p.len > len ∧ l.getFirst len = (l, ⟨cError, none, []⟩)) ∨
    ∃ p rest, queue = p :: rest ∧ p.len ≤ len ∧ (l.getFirst len).1.Holds rest ∧
      (l.getFirst len).2 = ⟨p.len, some p, p.payload⟩ := by
  have head := holds.head
  unfold PBufList.getFirst
  cases queue with
  | nil =>
    refine .inl ⟨rfl, ?_⟩
    rw [head]
    rfl
  | cons p rest =>
    rw [head]
    by_cases long : p.len > len
    · exact .inr (.inl ⟨p, rest, rfl, long, by simp [long]⟩)
    · refine .inr (.inr ⟨p, rest, rfl, Nat.le_of_not_lt long, ?_⟩)
      have inside := holds.inside
      have room := holds.room
      rw [List.length_cons] at room
      have onward : (if l.headId + 1 ≥ l.size then 0 else l.headId + 1) =
          modulo (l.headId + 1) l.size := by
        unfold modulo
        split <;> omega
      simp only [List.head?_cons, if_neg long, and_true]
      rw [onward]
      refine ⟨modulo_lt inside (by omega), (by omega : rest.length < l.size), ?_, ?_, ?_⟩
      · have last := holds.last
        rw [List.length_cons] at last
        change l.lastId = _
        rw [last, modulo_add inside (by omega), Nat.add_comm 1]
      · have full := holds.full
        rw [List.length_cons, window_cons inside (by omega)] at full
        change window (Function.update l.pbufList l.headId none) l.size _ _ = _
        rw [window_update_start inside (by omega)]
        exact (List.cons.inj full).2
      · intro k behind below
        change k < l.size at below
        change Function.update l.pbufList l.headId none
          (modulo (modulo (l.headId + 1) l.size + k) l.size) = none
        rw [modulo_add inside (by omega)]
        by_cases turn : 1 + k = l.size
        · rw [turn, modulo_turn, Function.update_self]
        · rw [Function.update_of_ne (modulo_ne_start (by omega) (by omega))]
          exact holds.empty (1 + k) (by rw [List.length_cons]; omega) (by omega)

@[simp] theorem addPbuf_headId (l : PBufList) (p : PBuf) : (l.addPbuf p).1.headId = l.headId := by
  unfold addPbuf
  split <;> rfl

@[simp] theorem addPbuf_size (l : PBufList) (p : PBuf) : (l.addPbuf p).1.size = l.size := by
  unfold addPbuf
  split <;> rfl

@[simp] theorem getFirst_size (l : PBufList) (len : Nat) : (l.getFirst len).1.size = l.size := by
  unfold getFirst
  split
  · rfl
  · split <;> rfl

/-- When a packet is taken, the head moves on by one entry. -/
theorem Holds.getFirst_headId {rest : List PBuf} {len : Nat} (holds : l.Holds (p :: rest))
    (fits : p.len ≤ len) : (l.getFirst len).1.headId = modulo (l.headId + 1) l.size := by
  have inside := holds.inside
  unfold PBufList.getFirst
  rw [holds.head]
  simp only [List.head?_cons, if_neg (Nat.not_lt.mpr fits)]
  unfold modulo
  split <;> omega

end PBufList

/-- The list with the addresses of the senders, which are copied as a whole. -/
structure AddressedList (α : Type) where
  list : PBufList
  addrList : Nat → α

namespace AddressedList

variable {α : Type} [Zero α]

def fresh (size : Nat) : AddressedList α := ⟨PBufList.fresh size, fun _ => 0⟩

variable (l : AddressedList α)

/-- Without an address the entry is cleared. -/
def addPbuf (p : PBuf) (sender : Option α) : AddressedList α × ErrorT :=
  if l.list.isFull then (l, cDatabaseOverflow)
  else ({ list := (l.list.addPbuf p).1
          addrList := Function.update l.addrList l.list.lastId (sender.getD 0) }, cOk)

/-- The address goes with the packet, to a caller who wants it. -/
def getFirst (len : Nat) (wanted : Bool) : AddressedList α × First × Option α :=
  let first := (l.list.getFirst len).2
  ({ l with list := (l.list.getFirst len).1 }, first,
    if first.pb.isSome ∧ wanted then some (l.addrList l.list.headId) else none)

end AddressedList

end Orcos.Source.Comm
