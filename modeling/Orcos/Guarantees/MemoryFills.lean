import Orcos.Source.MemTools

/-!
# Filled areas

Source: src/source/inc/memtools.cc, `memset`.

Single bytes are written with the value modulo 256. In a long area that starts at a word the
argument is stored as it is, four bytes at a time, and the bytes behind the last word become
zero whatever the value is.
-/
namespace Orcos.Guarantees.MemoryFills
open Source.MemTools

/-- Exactly the `n` bytes from an address on have the value. -/
def filled (m : Space) (p : Address) (byte : BitVec 8) (n : Nat) : Space := fun x =>
  if (x - p).toNat < n then byte else m x

/-- The area is short or does not start at a word, or the four bytes of the argument are the
same, and zero if the area does not end with a word. -/
def Fills (p : Address) (c n : BitVec 32) : Prop :=
  n.toNat ≤ 20 ∨ p &&& 3 ≠ 0 ∨
    (∀ i < 4, c.extractLsb' (8 * i) 8 = c.truncate 8) ∧ (n.toNat % 4 = 0 ∨ c.truncate 8 = 0#8)

variable {order : ByteOrder} {m : Space} {p x : Address} {c n : BitVec 32}

/-- All bytes of a number are the same in one order exactly when they are in the other. -/
theorem byteAt_all_iff (order : ByteOrder) {byte : BitVec 8} :
    (∀ i < 4, order.byteAt c i = byte) ↔ ∀ i < 4, c.extractLsb' (8 * i) 8 = byte := by
  cases order with
  | little => rfl
  | big =>
    constructor
    · intro all i less
      have mirrored := all (3 - i) (by omega)
      rwa [ByteOrder.byteAt, Nat.sub_sub_self (by omega)] at mirrored
    · intro all i less
      exact all (3 - i) (by omega)

/-- A long area that starts at a word is filled exactly when each byte written is the value. -/
theorem memset_words_eq_iff (long : 20 < n.toNat ∧ p &&& 3 = 0) :
    memset order m p c n = filled m p (c.truncate 8) n.toNat ↔
      (∀ i < 4, c.extractLsb' (8 * i) 8 = c.truncate 8) ∧
        (n.toNat % 4 = 0 ∨ c.truncate 8 = 0#8) := by
  have size := n.isLt
  have place (i : Nat) (inside : i < 2 ^ 32) : (p + BitVec.ofNat 32 i - p).toNat = i := by bv_omega
  rw [← byteAt_all_iff order]
  constructor
  · intro same
    have here (i : Nat) (inside : i < n.toNat) :
        (if i < 4 * (n.toNat / 4) then order.byteAt c (i % 4) else 0#8) = c.truncate 8 := by
      have both := congrFun same (p + BitVec.ofNat 32 i)
      rw [memset_words long, filled, place i (by omega), if_pos inside, if_pos inside] at both
      exact both
    constructor
    · intro i less
      have word := here i (by omega)
      rwa [if_pos (by omega), Nat.mod_eq_of_lt less] at word
    · by_cases whole : n.toNat % 4 = 0
      · exact .inl whole
      · have last := here (4 * (n.toNat / 4)) (by omega)
        rw [if_neg (Nat.lt_irrefl _)] at last
        exact .inr last.symm
  · rintro ⟨words, tail⟩
    funext x
    rw [memset_words long, filled]
    by_cases front : (x - p).toNat < 4 * (n.toNat / 4)
    · rw [if_pos front, if_pos (by omega), words _ (Nat.mod_lt _ (by decide))]
    · rw [if_neg front]
      by_cases inside : (x - p).toNat < n.toNat
      · rw [if_pos inside, if_pos inside, tail.resolve_left (by omega)]
      · rw [if_neg inside, if_neg inside]

/-- The bytes of the area, and no others, get the value modulo 256 exactly when the area is
short, starts inside a word, or is filled with a number of four equal bytes. -/
theorem memset_eq_filled_iff (order : ByteOrder) (m : Space) (ptr : Address) (c n : BitVec 32) :
    memset order m ptr c n = filled m ptr (c.truncate 8) n.toNat ↔ Fills ptr c n := by
  by_cases long : 20 < n.toNat ∧ ptr &&& 3 = 0
  · rw [memset_words_eq_iff long, Fills]
    have short : ¬n.toNat ≤ 20 := by omega
    simp only [short, long.2, ne_eq, not_true_eq_false, false_or]
  · have bytes : memset order m ptr c n = filled m ptr (c.truncate 8) n.toNat := by
      funext x
      rw [memset, if_neg long, memsetBytes_apply (Nat.le_of_lt n.isLt), filled]
    apply iff_of_true bytes
    by_cases short : n.toNat ≤ 20
    · exact .inl short
    · exact .inr (.inl fun aligned => long ⟨by omega, aligned⟩)

/-- Twenty-four bytes are to be 1: the second one stays 0. -/
theorem second_byte_zero : ¬∀ order m ptr c n,
    memset order m ptr c n = filled m ptr (c.truncate 8) n.toNat := by
  intro all
  have both := congrFun (all .little (fun _ => 0) 0 1 24) 1
  revert both
  decide

end Orcos.Guarantees.MemoryFills