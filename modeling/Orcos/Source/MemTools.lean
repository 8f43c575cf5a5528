import Mathlib.Algebra.Order.Ring.Int
import Mathlib.Logic.Function.Basic

/-!
# Setting memory

Source: src/source/inc/memtools.cc, `memset`, `memsetlong`.

Addresses and sizes are words of 32 bits that wrap around.
-/
namespace Orcos.Source.MemTools

abbrev Address := BitVec 32

abbrev Space := Address → BitVec 8

/-- Where the bytes of an `int` lie in memory. -/
inductive ByteOrder
  | little
  | big

/-- The byte of an `int` at an offset from its address. -/
def ByteOrder.byteAt (order : ByteOrder) (c : BitVec 32) (i : Nat) : BitVec 8 :=
  match order with
  | .little => c.extractLsb' (8 * i) 8
  | .big => c.extractLsb' (8 * (3 - i)) 8

def storeInt (order : ByteOrder) (m : Space) (p : Address) (c : BitVec 32) : Space := fun x =>
  if (x - p).toNat < 4 then order.byteAt c (x - p).toNat else m x

/-- The loop of `memset` over single bytes. -/
def memsetBytes (m : Space) (p : Address) (c : BitVec 8) : Nat → Space
  | 0 => m
  | n + 1 => memsetBytes (Function.update m p c) (p + 1) c n

def memsetlong (order : ByteOrder) (m : Space) (p : Address) (c : BitVec 32) : Nat → Space
  | 0 => m
  | n + 1 => memsetlong order (storeInt order m p c) (p + 4) c n

/-- The `n` bytes from `ptr` on are set. A long area that starts at a word is written in words
of the argument as it is, and zeros behind the last word. -/
def memset (order : ByteOrder) (m : Space) (ptr : Address) (c : BitVec 32)
    (n : BitVec 32) : Space :=
  if 20 < n.toNat ∧ ptr &&& 3 = 0 then
    let words := n >>> 2
    let m := memsetlong order m ptr c words.toNat
    let leftbytes := n &&& 3
    memsetBytes m (ptr + words <<< 2) 0#8 leftbytes.toNat
  else memsetBytes m ptr (c.truncate 8) n.toNat

variable {order : ByteOrder} {m : Space} {p x : Address} {n : Nat}

theorem memsetBytes_apply {c : BitVec 8} (inside : n ≤ 2 ^ 32) :
    memsetBytes m p c n x = if (x - p).toNat < n then c else m x := by
  induction n generalizing m p with
  | zero => rfl
  | succ n ih =>
    rw [memsetBytes, ih (by omega)]
    by_cases here : x = p
    · rw [here, Function.update_self, BitVec.sub_self]
      simp
    · have step : (x - p).toNat = (x - (p + 1)).toNat + 1 := by bv_omega
      rw [Function.update_of_ne here, step]
      simp

theorem memsetlong_apply {c : BitVec 32} (inside : 4 * n ≤ 2 ^ 32) :
    memsetlong order m p c n x =
      if (x - p).toNat < 4 * n then order.byteAt c ((x - p).toNat % 4) else m x := by
  induction n generalizing m p with
  | zero => rfl
  | succ n ih =>
    rw [memsetlong, ih (by omega), storeInt]
    by_cases here : (x - p).toNat < 4
    · have before : ¬(x - (p + 4)).toNat < 4 * n := by bv_omega
      rw [if_neg before, if_pos here, if_pos (by omega), Nat.mod_eq_of_lt here]
    · have step : (x - p).toNat = (x - (p + 4)).toNat + 4 := by bv_omega
      rw [if_neg here, step, Nat.add_mod_right]
      simp [Nat.mul_succ]

/-- What a long area that starts at a word holds afterwards. -/
theorem memset_words {c n : BitVec 32} (long : 20 < n.toNat ∧ p &&& 3 = 0) :
    memset order m p c n x =
      if (x - p).toNat < 4 * (n.toNat / 4) then order.byteAt c ((x - p).toNat % 4)
      else if (x - p).toNat < n.toNat then 0#8 else m x := by
  have size := n.isLt
  have words : (n >>> 2).toNat = n.toNat / 4 := by
    rw [BitVec.toNat_ushiftRight, Nat.shiftRight_eq_div_pow]
  have leftbytes : (n &&& 3).toNat = n.toNat % 4 := by
    rw [BitVec.toNat_and]
    exact Nat.and_two_pow_sub_one_eq_mod _ 2
  have behind : (n >>> 2 <<< 2).toNat = 4 * (n.toNat / 4) := by
    rw [BitVec.toNat_shiftLeft, words, Nat.shiftLeft_eq]
    omega
  rw [memset, if_pos long]
  rw [memsetBytes_apply (by omega), words, leftbytes, memsetlong_apply (by omega)]
  generalize n >>> 2 <<< 2 = area at behind
  by_cases front : (x - p).toNat < 4 * (n.toNat / 4)
  · have before : ¬(x - (p + area)).toNat < n.toNat % 4 := by bv_omega
    rw [if_neg before, if_pos front, if_pos front]
  · have place : (x - (p + area)).toNat = (x - p).toNat - 4 * (n.toNat / 4) := by bv_omega
    rw [if_neg front, if_neg front, place]
    by_cases inside : (x - p).toNat < n.toNat
    · rw [if_pos inside, if_pos (by omega)]
    · rw [if_neg inside, if_neg (by omega)]

end Orcos.Source.MemTools
