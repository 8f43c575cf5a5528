import Orcos.Source.LibGccMath

/-!
# Quotients and remainders of 64-bit numbers

Source: src/source/inc/libgccmath.cc, `__udivmoddi4`, `__divdi3`, `__moddi3`.

The unsigned division returns quotient and remainder. The signed ones divide their arguments
as unsigned numbers, which gives the truncated quotient only where no sign matters.
-/
namespace Orcos.Guarantees.LongDivision
open Source.LibGccMath

/-- With enough rounds of its loops a call returns a result. -/
def Returns {ρ : Type} (call : Nat → Option ρ) (r : ρ) : Prop :=
  ∃ enough, ∀ rounds ≥ enough, call rounds = some r

/-- Quotient and remainder of the unsigned division. -/
def UdivmodRight (num den : BitVec 64) : Prop :=
  ∀ rem_p, ∃ q r, Returns (fun rounds => udivmoddi4 rounds num den (some rem_p)) (q, some r) ∧
    num.toNat = q.toNat * den.toNat + r.toNat ∧ r.toNat < den.toNat

/-- The truncated quotient. -/
def DivRight (u v : BitVec 64) : Prop :=
  ∃ w, Returns (fun rounds => divdi3 rounds u v) w ∧ w.toInt = u.toInt.tdiv v.toInt

/-- The remainder with the sign of the numerator. -/
def ModRight (u v : BitVec 64) : Prop :=
  ∀ local_, ∃ w, Returns (fun rounds => moddi3 rounds local_ u v) w ∧
    w.toInt = u.toInt.tmod v.toInt

/-- No argument is negative, or the denominator is and the quotient zero; or it does not matter
that the numerator is, for a denominator of one or equal to it. -/
def DivFits (u v : Int) : Prop :=
  0 ≤ u ∧ (0 < v ∨ u < -v) ∨ u < 0 ∧ (v = 1 ∨ u = v)

/-- As for the quotient, or the remainder is zero and a power of two is divided. -/
def ModFits (u v : Int) : Prop :=
  0 ≤ u ∧ (0 < v ∨ u < -v) ∨ u < 0 ∧ (0 < v ∧ v ∣ u ∧ v ∣ 2 ^ 64 ∨ u = v)

variable {u v : BitVec 64}

theorem Returns.unique {ρ : Type} {call : Nat → Option ρ} {r r' : ρ} (first : Returns call r)
    (second : Returns call r') : r = r' := by
  obtain ⟨enough, result⟩ := first
  obtain ⟨enough', result'⟩ := second
  have same := (result (max enough enough') (by omega)).symm.trans (result' _ (by omega))
  exact Option.some.inj same

/-- A number with a sign, as the unsigned number or the one that it lacks. -/
theorem toInt_cases (x : BitVec 64) :
    (x.toNat < 2 ^ 63 ∧ x.toInt = x.toNat) ∨
      ∃ a : Nat, 0 < a ∧ a ≤ 2 ^ 63 ∧ x.toNat = 2 ^ 64 - a ∧ x.toInt = -a := by
  have size := x.isLt
  have signed := x.toInt_eq_toNat_cond
  by_cases small : x.toNat < 2 ^ 63
  · exact .inl ⟨small, by rw [signed, if_pos (by omega)]⟩
  · refine .inr ⟨2 ^ 64 - x.toNat, by omega, by omega, by omega, ?_⟩
    rw [signed, if_neg (by omega)]
    omega

theorem toInt_of_toNat {x : BitVec 64} {n : Nat} (value : x.toNat = n) (small : n < 2 ^ 63) :
    x.toInt = n := by
  rw [BitVec.toInt_eq_toNat_cond, if_pos (by omega), value]

theorem div_toInt_iff (nonzero : v ≠ 0) :
    (u / v).toInt = u.toInt.tdiv v.toInt ↔ DivFits u.toInt v.toInt := by
  have positive : 0 < v.toNat := Nat.pos_of_ne_zero fun zero =>
    nonzero (BitVec.eq_of_toNat_eq zero)
  have quotient : (u / v).toNat = u.toNat / v.toNat := BitVec.toNat_udiv
  rw [DivFits]
  rcases toInt_cases u with ⟨small, signed⟩ | ⟨a, some_, most, value, signed⟩
  · rcases toInt_cases v with ⟨small', signed'⟩ | ⟨b, some', most', value', signed'⟩
    · have less := Nat.div_le_self u.toNat v.toNat
      rw [toInt_of_toNat quotient (by omega), signed, signed', ← Int.ofNat_tdiv]
      exact iff_of_true rfl (by omega)
    · rw [Nat.div_eq_of_lt (by omega)] at quotient
      rw [toInt_of_toNat quotient (by decide), signed, signed', Int.tdiv_neg, ← Int.ofNat_tdiv]
      have none : u.toNat / b = 0 ↔ u.toNat < b := Nat.div_eq_zero_iff_lt some'
      omega
  · rcases toInt_cases v with ⟨small', signed'⟩ | ⟨b, some', most', value', signed'⟩
    · rw [signed, signed', Int.neg_tdiv, ← Int.ofNat_tdiv]
      by_cases one : v.toNat = 1
      · rw [one, Nat.div_one] at quotient
        rw [BitVec.eq_of_toNat_eq quotient, signed, one, Nat.div_one]
        exact iff_of_true rfl (by omega)
      · have low : 0 < u.toNat / v.toNat := Nat.div_pos (by omega) positive
        have high : u.toNat / v.toNat ≤ u.toNat / 2 := Nat.div_le_div_left (by omega) (by decide)
        have size := u.isLt
        rw [toInt_of_toNat quotient (by omega)]
        generalize a / v.toNat = whole
        omega
    · rw [signed, signed', Int.neg_tdiv, Int.tdiv_neg, Int.neg_neg, ← Int.ofNat_tdiv]
      rcases Nat.lt_trichotomy u.toNat v.toNat with less | same | more
      · rw [Nat.div_eq_of_lt less] at quotient
        have one : 0 < a / b := Nat.div_pos (by omega) some'
        rw [toInt_of_toNat quotient (by decide)]
        omega
      · rw [same, Nat.div_self positive] at quotient
        obtain rfl : a = b := by omega
        rw [toInt_of_toNat quotient (by decide), Nat.div_self some']
        exact iff_of_true rfl (by omega)
      · have one : u.toNat / v.toNat = 1 := by
          rw [Nat.div_eq_iff positive]
          omega
        rw [one] at quotient
        rw [toInt_of_toNat quotient (by decide), Nat.div_eq_of_lt (show a < b by omega)]
        omega

theorem mod_toInt_iff (nonzero : v ≠ 0) :
    (u % v).toInt = u.toInt.tmod v.toInt ↔ ModFits u.toInt v.toInt := by
  have positive : 0 < v.toNat := Nat.pos_of_ne_zero fun zero =>
    nonzero (BitVec.eq_of_toNat_eq zero)
  have remainder : (u % v).toNat = u.toNat % v.toNat := BitVec.toNat_umod
  have below := Nat.mod_lt u.toNat positive
  rw [ModFits]
  rcases toInt_cases u with ⟨small, signed⟩ | ⟨a, some_, most, value, signed⟩
  · rcases toInt_cases v with ⟨small', signed'⟩ | ⟨b, some', most', value', signed'⟩
    · rw [toInt_of_toNat remainder (by omega), signed, signed', ← Int.ofNat_tmod]
      exact iff_of_true rfl (by omega)
    · rw [Nat.mod_eq_of_lt (by omega)] at remainder
      rw [toInt_of_toNat remainder small, signed, signed', Int.tmod_neg, ← Int.ofNat_tmod]
      have whole : u.toNat % b = u.toNat ↔ u.toNat < b := Nat.mod_eq_iff_lt (by omega)
      omega
  · rcases toInt_cases v with ⟨small', signed'⟩ | ⟨b, some', most', value', signed'⟩
    · rw [toInt_of_toNat remainder (by omega), signed, signed', Int.neg_tmod, ← Int.ofNat_tmod,
        Int.dvd_neg]
      have divides : (v.toNat : Int) ∣ a ↔ a % v.toNat = 0 := by
        rw [Int.natCast_dvd_natCast, Nat.dvd_iff_mod_eq_zero]
      have power : (v.toNat : Int) ∣ 2 ^ 64 ↔ v.toNat ∣ a + u.toNat := by
        rw [value, Nat.add_sub_cancel' (by omega)]
        exact Int.natCast_dvd_natCast (m := v.toNat) (n := 2 ^ 64)
      rw [power, divides]
      constructor
      · intro same
        have both : a % v.toNat = 0 ∧ u.toNat % v.toNat = 0 := by omega
        refine .inr ⟨by omega, .inl ⟨by omega, both.1, ?_⟩⟩
        exact Nat.dvd_add (Nat.dvd_of_mod_eq_zero both.1) (Nat.dvd_of_mod_eq_zero both.2)
      · intro fits
        have both : a % v.toNat = 0 ∧ v.toNat ∣ a + u.toNat := by omega
        have rest := (Nat.dvd_add_right (Nat.dvd_of_mod_eq_zero both.1)).mp both.2
        rw [both.1, Nat.mod_eq_zero_of_dvd rest]
        rfl
    · rw [signed, signed', Int.neg_tmod, Int.tmod_neg, ← Int.ofNat_tmod]
      rcases Nat.lt_trichotomy u.toNat v.toNat with less | same | more
      · rw [Nat.mod_eq_of_lt less] at remainder
        have smaller := Nat.mod_lt a some'
        rw [BitVec.eq_of_toNat_eq remainder, signed]
        omega
      · rw [same, Nat.mod_self] at remainder
        obtain rfl : a = b := by omega
        rw [toInt_of_toNat remainder (by decide), Nat.mod_self]
        exact iff_of_true rfl (by omega)
      · have rest : u.toNat % v.toNat = u.toNat - v.toNat := by
          rw [Nat.mod_eq_sub_mod (by omega), Nat.mod_eq_of_lt (by omega)]
        rw [rest] at remainder
        rw [toInt_of_toNat remainder (by omega)]
        omega

theorem divRight_iff (nonzero : v ≠ 0) : DivRight u v ↔ DivFits u.toInt v.toInt := by
  have div : Returns (fun rounds => divdi3 rounds u v) (u / v) :=
    ⟨65, fun rounds enough => divdi3_eq nonzero enough u⟩
  rw [← div_toInt_iff nonzero]
  constructor
  · rintro ⟨w, returns, right⟩
    rwa [returns.unique div] at right
  · exact fun right => ⟨_, div, right⟩

theorem modRight_iff (nonzero : v ≠ 0) : ModRight u v ↔ ModFits u.toInt v.toInt := by
  have mod (local_ : BitVec 64) : Returns (fun rounds => moddi3 rounds local_ u v) (u % v) :=
    ⟨65, fun rounds enough => moddi3_eq nonzero enough local_ u⟩
  rw [← mod_toInt_iff nonzero]
  constructor
  · intro all
    obtain ⟨w, returns, right⟩ := all 0
    rwa [returns.unique (mod 0)] at right
  · exact fun right local_ => ⟨_, mod local_, right⟩

/-- The unsigned division is right for each denominator but zero. The quotient and the remainder
of numbers with a sign are right exactly when it does not matter that both are taken for
unsigned ones. -/
theorem division_right_iff (u v : BitVec 64) (nonzero : v ≠ 0) :
    UdivmodRight u v ∧ (DivRight u v ↔ DivFits u.toInt v.toInt) ∧
      (ModRight u v ↔ ModFits u.toInt v.toInt) := by
  refine ⟨fun rem_p => ?_, divRight_iff nonzero, modRight_iff nonzero⟩
  have positive : 0 < v.toNat := Nat.pos_of_ne_zero fun zero =>
    nonzero (BitVec.eq_of_toNat_eq zero)
  refine ⟨u / v, u % v, ⟨65, fun rounds enough => udivmoddi4_eq nonzero enough u _⟩, ?_, ?_⟩
  · rw [BitVec.toNat_udiv, BitVec.toNat_umod, Nat.div_add_mod']
  · rw [BitVec.toNat_umod]
    exact Nat.mod_lt _ positive

theorem division_right_iff_seven :
    UdivmodRight 100 7 ∧ (DivRight 100 7 ↔ DivFits 100 7) ∧ (ModRight 100 7 ↔ ModFits 100 7) :=
  division_right_iff 100 7 (by decide)

/-- Minus six divided by three. -/
theorem negative_numerator : ¬∀ u v : BitVec 64, v ≠ 0 → UdivmodRight u v ∧ DivRight u v ∧
    ModRight u v := by
  intro all
  have fits := (divRight_iff (by decide)).mp (all (-6) 3 (by decide)).2.1
  revert fits
  unfold DivFits
  decide

end Orcos.Guarantees.LongDivision
