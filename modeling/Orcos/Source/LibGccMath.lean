import Mathlib.Algebra.Order.Ring.Int
import Orcos.Lib.Loop

/-!
# Division of 64-bit numbers

Source: src/source/inc/libgccmath.cc, `__udivmoddi4`, `__divdi3`, `__moddi3`.

The unsigned division shifts and subtracts. The signed ones ask the upper half of each
argument for its sign, which is an unsigned number.
-/
namespace Orcos.Source.LibGccMath
open Lib.Loop

/-- The variables of `__udivmoddi4`. -/
structure Division where
  num : BitVec 64
  den : BitVec 64
  quot : BitVec 64
  qbit : BitVec 64

/-- A round of the loop that left-justifies the denominator and counts the shift. -/
def justify (s : Division) : Round Division Division :=
  if 0 ≤ s.den.toInt then .again { s with den := s.den <<< 1, qbit := s.qbit <<< 1 } else .done s

/-- A round of the loop that subtracts. -/
def subtract (s : Division) : Round Division Division :=
  if s.qbit ≠ 0 then
    let s := if s.den ≤ s.num then { s with num := s.num - s.den, quot := s.quot + s.qbit } else s
    .again { s with den := s.den >>> 1, qbit := s.qbit >>> 1 }
  else .done s

/-- The quotient, and what `rem_p` points to afterwards if it is not the null pointer. -/
def udivmoddi4 (rounds : Nat) (num den : BitVec 64) (rem_p : Option (BitVec 64)) :
    Option (BitVec 64 × Option (BitVec 64)) :=
  if den = 0 then some (0, rem_p)
  else do
    let s ← loop justify rounds ⟨num, den, 0, 1⟩
    let s ← loop subtract rounds s
    some (s.quot, rem_p.map fun _ => s.num)

/-- The upper half of a `DWunion`, an unsigned number. -/
def high (ll : BitVec 64) : BitVec 32 := ll.extractLsb' 32 32

def divdi3 (rounds : Nat) (u v : BitVec 64) : Option (BitVec 64) := do
  let c : BitVec 64 := 0
  let (c, uu) := if high u < 0 then (~~~c, -u) else (c, u)
  let (c, vv) := if high v < 0 then (~~~c, -v) else (c, v)
  let (w, _) ← udivmoddi4 rounds uu vv none
  return if c ≠ 0 then -w else w

/-- The local variable for the remainder has some value `w` at first. -/
def moddi3 (rounds : Nat) (w u v : BitVec 64) : Option (BitVec 64) := do
  let c : BitVec 32 := 0
  let (c, uu) := if high u < 0 then (~~~c, -u) else (c, u)
  let vv := if high v < 0 then -v else v
  let (_, rem) ← udivmoddi4 rounds uu vv (some w)
  let w := rem.getD w
  return if c ≠ 0 then -w else w

variable {num den quot qbit : BitVec 64} {d j k n rounds : Nat}

/-- The denominator is shifted until its first bit is set. -/
theorem loop_justify (steps : Nat) (enough : 2 ^ 63 ≤ den.toNat * 2 ^ steps) :
    ∃ k ≤ steps, den.toNat * 2 ^ k < 2 ^ 64 ∧ 2 ^ 63 ≤ den.toNat * 2 ^ k ∧
      ∀ num quot qbit, loop justify (steps + 1) ⟨num, den, quot, qbit⟩ =
        some ⟨num, den <<< k, quot, qbit <<< k⟩ := by
  induction steps generalizing den with
  | zero =>
    rw [Nat.pow_zero, Nat.mul_one] at enough
    have size := den.isLt
    refine ⟨0, Nat.le_refl 0, by omega, by omega, fun num quot qbit => ?_⟩
    have negative : ¬0 ≤ den.toInt := by
      rw [BitVec.toInt_eq_toNat_cond]
      omega
    rw [BitVec.shiftLeft_zero, BitVec.shiftLeft_zero]
    exact loop_done (by rw [justify, if_neg negative])
  | succ steps ih =>
    have size := den.isLt
    by_cases small : den.toNat < 2 ^ 63
    · have double : (den <<< 1).toNat = den.toNat * 2 := by
        rw [BitVec.toNat_shiftLeft, Nat.shiftLeft_eq]
        omega
      have positive : 0 ≤ den.toInt := by
        rw [BitVec.toInt_eq_toNat_cond]
        omega
      rw [Nat.pow_succ' (n := steps), ← Nat.mul_assoc, ← double] at enough
      obtain ⟨k, less, top, bottom, ends⟩ := ih enough
      rw [double, Nat.mul_assoc, ← Nat.pow_succ'] at top bottom
      refine ⟨k + 1, by omega, top, bottom, fun num quot qbit => ?_⟩
      have again : justify ⟨num, den, quot, qbit⟩ =
          .again ⟨num, den <<< 1, quot, qbit <<< 1⟩ := by rw [justify, if_pos positive]
      rw [loop_again again, ends, ← BitVec.shiftLeft_add, ← BitVec.shiftLeft_add, Nat.add_comm 1 k]
    · refine ⟨0, Nat.zero_le _, by omega, by omega, fun num quot qbit => ?_⟩
      have negative : ¬0 ≤ den.toInt := by
        rw [BitVec.toInt_eq_toNat_cond]
        omega
      rw [BitVec.shiftLeft_zero, BitVec.shiftLeft_zero]
      exact loop_done (by rw [justify, if_neg negative])

/-- A round brings the numerator below the denominator and keeps its value. -/
theorem subtract_round (bit : qbit.toNat = 2 ^ k) (multiple : den.toNat = d * 2 ^ k)
    (less : num.toNat < d * 2 ^ (k + 1)) (room : quot.toNat + num.toNat / d < 2 ^ 64) :
    ∃ num' quot' : BitVec 64,
      subtract ⟨num, den, quot, qbit⟩ = .again ⟨num', den >>> 1, quot', qbit >>> 1⟩ ∧
      num'.toNat < d * 2 ^ k ∧ num'.toNat % d = num.toNat % d ∧
      quot'.toNat + num'.toNat / d = quot.toNat + num.toNat / d := by
  have some_ : qbit ≠ 0 := by
    intro zero
    rw [zero] at bit
    exact absurd bit.symm (Nat.two_pow_pos k).ne'
  rw [Nat.pow_succ, ← Nat.mul_assoc, ← multiple] at less
  rw [subtract, if_pos some_]
  by_cases fits : den ≤ num
  · rw [if_pos fits]
    have fits : den.toNat ≤ num.toNat := fits
    have difference : (num - den).toNat = num.toNat - d * 2 ^ k := by
      rw [BitVec.toNat_sub_of_le fits, multiple]
    have positive : 0 < d := by
      apply Nat.pos_of_ne_zero
      intro zero
      rw [zero, Nat.zero_mul] at multiple
      omega
    have quotient : num.toNat / d = (num.toNat - d * 2 ^ k) / d + 2 ^ k := by
      rw [← Nat.add_mul_div_left _ _ positive, Nat.sub_add_cancel (multiple ▸ fits)]
    rw [quotient] at room
    have sum : (quot + qbit).toNat = quot.toNat + 2 ^ k := by
      rw [BitVec.toNat_add, bit]
      exact Nat.mod_eq_of_lt
        (Nat.lt_of_le_of_lt (Nat.add_le_add_left (Nat.le_add_left _ _) _) room)
    refine ⟨num - den, quot + qbit, rfl, ?_, ?_, ?_⟩
    · omega
    · rw [difference, Nat.sub_mul_mod (multiple ▸ fits)]
    · rw [difference, sum, quotient]
      omega
  · rw [if_neg fits]
    have below : num.toNat < den.toNat := Nat.lt_of_not_le fits
    exact ⟨num, quot, rfl, multiple ▸ below, rfl, rfl⟩

/-- From a multiple of the denominator by a power of two on, the quotient is added bit by bit and
the remainder is left. -/
theorem loop_subtract (k : Nat) (bit : qbit.toNat = 2 ^ k) (multiple : den.toNat = d * 2 ^ k)
    (less : num.toNat < d * 2 ^ (k + 1)) (room : quot.toNat + num.toNat / d < 2 ^ 64) :
    ∃ s, loop subtract (k + 2) ⟨num, den, quot, qbit⟩ = some s ∧
      s.quot.toNat = quot.toNat + num.toNat / d ∧ s.num.toNat = num.toNat % d := by
  induction k generalizing num den quot qbit with
  | zero =>
    obtain ⟨num', quot', again, below, mod, div⟩ := subtract_round bit multiple less room
    have last : qbit >>> 1 = 0 := by
      apply BitVec.eq_of_toNat_eq
      rw [BitVec.toNat_ushiftRight, bit]
      rfl
    rw [Nat.pow_zero, Nat.mul_one] at below
    rw [Nat.div_eq_of_lt below] at div
    rw [Nat.mod_eq_of_lt below] at mod
    refine ⟨⟨num', den >>> 1, quot', qbit >>> 1⟩, ?_, div, mod⟩
    rw [loop_again again]
    apply loop_done
    rw [subtract, if_neg (not_not.mpr last)]
  | succ k ih =>
    obtain ⟨num', quot', again, below, mod, div⟩ := subtract_round bit multiple less room
    have half : (den >>> 1).toNat = d * 2 ^ k := by
      rw [BitVec.toNat_ushiftRight, multiple, Nat.shiftRight_eq_div_pow, Nat.pow_succ,
        ← Nat.mul_assoc, Nat.pow_one, Nat.mul_div_cancel _ (by decide)]
    have bit' : (qbit >>> 1).toNat = 2 ^ k := by
      rw [BitVec.toNat_ushiftRight, bit, Nat.shiftRight_eq_div_pow, Nat.pow_succ, Nat.pow_one,
        Nat.mul_div_cancel _ (by decide)]
    rw [← div] at room ⊢
    rw [← mod]
    obtain ⟨s, ends, quotient, remainder⟩ := ih bit' half below room
    exact ⟨s, (loop_again again).trans ends, quotient, remainder⟩

/-- The unsigned division ends, with quotient and remainder. -/
theorem udivmoddi4_eq (nonzero : den ≠ 0) (enough : 65 ≤ rounds) (num : BitVec 64)
    (rem_p : Option (BitVec 64)) :
    udivmoddi4 rounds num den rem_p = some (num / den, rem_p.map fun _ => num % den) := by
  have positive : 0 < den.toNat := Nat.pos_of_ne_zero fun zero =>
    nonzero (BitVec.eq_of_toNat_eq zero)
  obtain ⟨k, steps, top, bottom, justified⟩ :=
    loop_justify 63 (show 2 ^ 63 ≤ den.toNat * 2 ^ 63 by omega)
  have size := num.isLt
  have bit : ((1 : BitVec 64) <<< k).toNat = 2 ^ k := by
    rw [BitVec.toNat_shiftLeft, show BitVec.toNat (1 : BitVec 64) = 1 by decide,
      Nat.one_shiftLeft]
    exact Nat.mod_eq_of_lt (Nat.pow_lt_pow_right (by decide) (by omega))
  have multiple : (den <<< k).toNat = den.toNat * 2 ^ k := by
    rw [BitVec.toNat_shiftLeft, Nat.shiftLeft_eq]
    exact Nat.mod_eq_of_lt top
  have less : num.toNat < den.toNat * 2 ^ (k + 1) := by
    rw [Nat.pow_succ, ← Nat.mul_assoc]
    omega
  have zero : (0 : BitVec 64).toNat = 0 := rfl
  have room : (0 : BitVec 64).toNat + num.toNat / den.toNat < 2 ^ 64 := by
    rw [zero, Nat.zero_add]
    exact Nat.lt_of_le_of_lt (Nat.div_le_self _ _) size
  obtain ⟨s, ends, quotient, remainder⟩ := loop_subtract k bit multiple less room
  rw [udivmoddi4, if_neg nonzero, loop_mono (justified num 0 1) (by omega), Option.bind_eq_bind,
    Option.bind_some, loop_mono ends (by omega), Option.bind_some]
  have quot : s.quot = num / den := by
    apply BitVec.eq_of_toNat_eq
    rw [quotient, zero, Nat.zero_add, BitVec.toNat_udiv]
  have rest : s.num = num % den := by
    apply BitVec.eq_of_toNat_eq
    rw [remainder, BitVec.toNat_umod]
  rw [quot, rest]

/-- The halves are unsigned, so neither argument counts as negative. -/
theorem divdi3_eq (nonzero : den ≠ 0) (enough : 65 ≤ rounds) (num : BitVec 64) :
    divdi3 rounds num den = some (num / den) := by
  simp [divdi3, udivmoddi4_eq nonzero enough]

theorem moddi3_eq (nonzero : den ≠ 0) (enough : 65 ≤ rounds) (w num : BitVec 64) :
    moddi3 rounds w num den = some (num % den) := by
  simp [moddi3, udivmoddi4_eq nonzero enough]

end Orcos.Source.LibGccMath
