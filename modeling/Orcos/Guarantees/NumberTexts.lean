import Orcos.Source.StringTools

/-!
# Numbers in print

Source: src/source/inc/stringtools.cc, `uitoa`, `itoa`; src/source/inc/sprintf.cc, `print`.

A text is a sign and the digits of the number in its base. The most negative number stays
negative when its sign is taken off, and the index of a digit lies in front of the table.
-/
namespace Orcos.Guarantees.NumberTexts
open Lib.ByteMemory Source.StringTools

variable {b v : Nat}

/-- The number that digits denote. -/
def number (base : Nat) (digits : List (BitVec 8)) : Nat :=
  digits.foldl (fun n c => n * base + num.idxOf c) 0

/-- Digits of a base without a superfluous zero in front that denote a number. -/
structure Numeral (base v : Nat) (digits : List (BitVec 8)) : Prop where
  nonempty : digits ≠ []
  listed : ∀ c ∈ digits, c ∈ num.take base
  leading : digits.head? = some (code '0') → digits = [code '0']
  value : number base digits = v

theorem length_num : num.length = 36 := by decide

theorem nodup_num : num.Nodup := by decide

theorem digitAt_nat {i : Nat} (inside : i < num.length) : digitAt i = some num[i] := by
  rw [digitAt, if_pos (Int.natCast_nonneg i), Int.toNat_natCast, List.getElem?_eq_getElem inside]

theorem number_append (base : Nat) (front : List (BitVec 8)) (c : BitVec 8) :
    number base (front ++ [c]) = number base front * base + num.idxOf c := by
  rw [number, List.foldl_append]
  rfl

theorem idxOf_num {i : Nat} (inside : i < num.length) : num.idxOf num[i] = i :=
  nodup_num.idxOf_getElem i inside

theorem numeral_digit {i : Nat} (inside : i < num.length) (less : i < b) :
    Numeral b i [num[i]] where
  nonempty := List.cons_ne_nil _ _
  listed c member := by
    rw [List.mem_singleton.mp member]
    exact List.mem_take_iff_getElem.mpr ⟨i, by omega, rfl⟩
  leading zero := by
    rw [List.head?_cons, Option.some.injEq] at zero
    rw [zero]
  value := by
    rw [number, List.foldl_cons, List.foldl_nil, idxOf_num inside]
    omega

/-- A number is continued by one more digit. -/
theorem Numeral.append {front : List (BitVec 8)} {i : Nat} (numeral : Numeral b v front)
    (positive : v ≠ 0) (inside : i < num.length) (less : i < b) :
    Numeral b (v * b + i) (front ++ [num[i]]) where
  nonempty := List.append_ne_nil_of_left_ne_nil numeral.nonempty _
  listed c member := by
    rcases List.mem_append.mp member with old | new
    · exact numeral.listed c old
    · exact (numeral_digit inside less).listed c new
  leading zero := by
    rw [List.head?_append_of_ne_nil _ numeral.nonempty] at zero
    have value := numeral.value
    rw [numeral.leading zero] at value
    have none : number b [code '0'] = 0 := by
      rw [number, List.foldl_cons, List.foldl_nil, Nat.zero_mul]
      rfl
    exact absurd (value.symm.trans none) positive
  value := by rw [number_append, numeral.value, idxOf_num inside]

/-- The digits of a number that is not negative are written from the last one on. -/
theorem convert_nat (valid : (2 : Int) ≤ b) (table : b ≤ num.length) (m : Memory) (wstr v : Nat) :
    ∃ m' digits, convert m b valid wstr v = some (m', wstr + digits.length) ∧
      bytesAt m' wstr digits.length = digits.reverse ∧ Numeral b v digits ∧
      ChangedIn m m' wstr (wstr + digits.length) ∧
      ∀ k, v < b ^ (k + 1) → digits.length ≤ k + 1 := by
  induction v using Nat.strong_induction_on generalizing m wstr with
  | _ v ih =>
    have least : 2 ≤ b := Int.ofNat_le.mp valid
    have digit := Nat.mod_lt v (show 0 < b by omega)
    have inside : v % b < num.length := by omega
    have remainder : (v : Int).tmod b = (v % b : Nat) := (Int.ofNat_tmod v b).symm
    have quotient : (v : Int).tdiv b = (v / b : Nat) := (Int.ofNat_tdiv v b).symm
    rw [convert, remainder, quotient, digitAt_nat inside]
    by_cases last : v < b
    · rw [Nat.div_eq_of_lt last]
      refine ⟨Function.update m wstr num[v % b], [num[v % b]], rfl, ?_, ?_, ?_, ?_⟩
      · simp [bytesAt]
      · have numeral := numeral_digit inside digit
        have same := Nat.mod_eq_of_lt last
        exact same.subst (motive := fun i => Numeral b i [num[v % b]]) numeral
      · intro x apart
        rw [List.length_singleton] at apart
        exact Function.update_of_ne (by omega) _ _
      · intro k _
        exact Nat.le_add_left _ _
    · have rest : v / b ≠ 0 := (Nat.div_pos (Nat.le_of_not_lt last) (by omega)).ne'
      have smaller : v / b < v := Nat.div_lt_self (by omega) least
      obtain ⟨m', digits, written, bytes, numeral, changed, short⟩ :=
        ih _ smaller (Function.update m wstr num[v % b]) (wstr + 1)
      refine ⟨m', digits ++ [num[v % b]], ?_, ?_, ?_, ?_, ?_⟩
      · simp only [Option.bind_eq_bind, Option.bind_some]
        rw [if_pos (by omega), written, List.length_append, List.length_singleton,
          Nat.add_right_comm, Nat.add_assoc]
      · have first : m' wstr = num[v % b] := by
          rw [changed wstr (.inl (Nat.lt_succ_self _)), Function.update_self]
        have one : bytesAt m' wstr 1 = [num[v % b]] := by
          rw [← first]
          rfl
        rw [List.length_append, List.length_singleton, Nat.add_comm, bytesAt_add, one, bytes,
          List.reverse_append]
        rfl
      · have whole := numeral.append rest inside digit
        rwa [Nat.div_add_mod'] at whole
      · intro x apart
        rw [List.length_append, List.length_singleton] at apart
        rw [changed x (by omega), Function.update_of_ne (by omega)]
      · intro k less
        rw [List.length_append, List.length_singleton]
        cases k with
        | zero =>
          rw [Nat.zero_add, Nat.pow_one] at less
          exact absurd less last
        | succ k =>
          have fewer : v / b < b ^ (k + 1) := Nat.div_lt_of_lt_mul (by rwa [← Nat.pow_succ'])
          have := short k fewer
          omega

/-- A negative number asks for a digit in front of the table. -/
theorem convert_negative {base : Int} (valid : 2 ≤ base) (m : Memory) (wstr n : Nat) :
    convert m base valid wstr (-(n + 1 : Nat)) = none := by
  induction n using Nat.strong_induction_on generalizing m wstr with
  | _ n ih =>
    obtain ⟨b, rfl⟩ := Int.eq_ofNat_of_zero_le (show 0 ≤ base by omega)
    have least : 2 ≤ b := by omega
    have remainder : (-(n + 1 : Nat) : Int).tmod b = -((n + 1) % b : Nat) := by
      rw [Int.neg_tmod, Int.ofNat_tmod]
    have quotient : (-(n + 1 : Nat) : Int).tdiv b = -((n + 1) / b : Nat) := by
      rw [Int.neg_tdiv, Int.ofNat_tdiv]
    rw [convert, remainder, quotient]
    by_cases divides : (n + 1) % b = 0
    · have split := Nat.div_add_mod (n + 1) b
      have smaller : (n + 1) / b < n + 1 := Nat.div_lt_self (by omega) least
      obtain ⟨k, value⟩ : ∃ k, (n + 1) / b = k + 1 := by
        apply Nat.exists_eq_succ_of_ne_zero
        intro none
        rw [none, divides] at split
        omega
      have zero : digitAt (-(0 : Nat)) = some num[0] := digitAt_nat (by decide)
      rw [divides, zero, value]
      simp only [Option.bind_eq_bind, Option.bind_some]
      rw [if_pos (by omega), ih k (by omega)]
    · rw [digitAt, if_neg (by omega)]
      rfl

/-- The sign in front of the digits. -/
def sign (value : Int) : List (BitVec 8) := if value < 0 then [code '-'] else []

/-- The value of a text. -/
def parse (base : Nat) (text : List (BitVec 8)) : Int :=
  if text.head? = some (code '-') then -(number base text.tail : Nat) else number base text

/-- No digit outside the table is asked for. The text is a sign and a numeral with a zero behind
it, nothing else changes, and in base 10 or 16 it has room in the buffer of `print`. -/
def Writes (m : Memory) (str : Nat) (base value : Int) (result : Option Memory) : Prop :=
  ∃ m' text digits, result = some m' ∧ text = sign value ++ digits ∧
    Numeral base.toNat value.natAbs digits ∧ parse base.toNat text = value ∧
    bytesAt m' str text.length = text ∧ m' (str + text.length) = 0 ∧
    ChangedIn m m' str (str + text.length + 1) ∧ (base = 10 ∨ base = 16 → text.length + 1 ≤ 12)

variable {m m' : Memory} {str : Nat} {base value : Int} {text digits : List (BitVec 8)}

theorem parse_numeral (numeral : Numeral b value.natAbs digits) :
    parse b (sign value ++ digits) = value := by
  rw [sign]
  by_cases negative : value < 0
  · rw [if_pos negative, parse, List.singleton_append, List.head?_cons, if_pos rfl, List.tail_cons,
      numeral.value]
    omega
  · rw [if_neg negative, List.nil_append, parse, numeral.value, if_neg]
    · omega
    · intro dash
      have member := numeral.listed _ (List.mem_of_mem_head? dash)
      exact absurd (List.mem_of_mem_take member) (by decide)

/-- Reversed and ended by a zero. -/
theorem writes_reversed (value : Int) (whole : text = sign value ++ digits)
    (numeral : Numeral b value.natAbs digits)
    (written : bytesAt m' str text.length = text.reverse)
    (changed : ChangedIn m m' str (str + text.length))
    (fits : b = 10 ∨ b = 16 → text.length + 1 ≤ 12) :
    Writes m str b value (some (strreverse (Function.update m' (str + text.length) 0) str
      (str + text.length - 1))) := by
  obtain ⟨n, length⟩ : ∃ n, text.length = n + 1 := by
    apply Nat.exists_eq_succ_of_ne_zero
    rw [whole, List.length_append]
    have some_ := List.length_pos_iff.mpr numeral.nonempty
    omega
  refine ⟨_, text, digits, rfl, whole, numeral, whole ▸ parse_numeral numeral, ?_, ?_, ?_,
    fun known => fits (by omega)⟩
  · have kept : AgreeOn m' (Function.update m' (str + text.length) 0) str text.length :=
      fun x _ below => Function.update_of_ne (by omega) _ _
    rw [← kept.bytesAt] at written
    rw [length] at written ⊢
    rw [bytesAt_strreverse, written, List.reverse_reverse]
  · rw [strreverse_apply, if_neg (by omega), Function.update_self]
  · intro x apart
    rw [strreverse_apply, if_neg (by omega), Function.update_of_ne (by omega), changed x (by omega)]

theorem length_numeral (value : Int)
    (short : ∀ k, value.natAbs < b ^ (k + 1) → digits.length ≤ k + 1)
    (small : value.natAbs < 2 ^ 32) (known : b = 10 ∨ b = 16) : digits.length ≤ 10 := by
  rcases known with rfl | rfl
  · exact short 9 (by omega)
  · exact Nat.le_trans (short 7 (by omega)) (by decide)

theorem uitoa_writes (m : Memory) (str : Nat) (low : 2 ≤ base) (high : base ≤ 35)
    (value : BitVec 32) : Writes m str base value.toNat (uitoa m value str base) := by
  obtain ⟨b, rfl⟩ := Int.eq_ofNat_of_zero_le (show 0 ≤ base by omega)
  have size := value.isLt
  have table : b ≤ num.length := by
    rw [length_num]
    omega
  obtain ⟨m', digits, written, bytes, numeral, changed, short⟩ :=
    convert_nat low table m str value.toNat
  have none : digits = sign (value.toNat : Int) ++ digits := by
    rw [sign, if_neg (by omega), List.nil_append]
  rw [uitoa, dif_neg (by omega), written]
  apply writes_reversed (value.toNat : Int) none numeral bytes changed
  intro known
  have fits := length_numeral value.toNat short size known
  omega

/-- The most negative number is its own negative. -/
theorem neg_toInt {value : BitVec 32} (proper : value.toInt ≠ -2 ^ 31) :
    (-value).toInt = -value.toInt := by
  rw [BitVec.toInt_neg_of_ne_intMin]
  intro least
  rw [least] at proper
  exact proper (by decide)

theorem itoa_writes_iff (m : Memory) (str : Nat) (low : 2 ≤ base) (high : base ≤ 35)
    (value : BitVec 32) :
    Writes m str base value.toInt (itoa m value str base) ↔ value.toInt ≠ -2 ^ 31 := by
  obtain ⟨b, rfl⟩ := Int.eq_ofNat_of_zero_le (show 0 ≤ base by omega)
  have size := value.toInt_lt
  have least := value.le_toInt
  have table : b ≤ num.length := by
    rw [length_num]
    omega
  constructor
  · intro ⟨m', _, _, result, _⟩ worst
    have same : -value = value := by
      obtain rfl : value = BitVec.intMin 32 := BitVec.eq_of_toInt_eq worst
      decide
    have stops := convert_negative low m str (2 ^ 31 - 1)
    have none : convert m b low str value.toInt = none := by rwa [worst]
    have negative : value.toInt < 0 := by omega
    rw [itoa, dif_neg (by omega)] at result
    simp only [if_pos negative, same, none] at result
    cases result
  · intro proper
    have small : value.toInt.natAbs < 2 ^ 32 := by omega
    have absolute : (if value.toInt < 0 then -value else value).toInt = value.toInt.natAbs := by
      split
      · rw [neg_toInt proper]
        omega
      · omega
    obtain ⟨m', digits, written, bytes, numeral, changed, short⟩ :=
      convert_nat low table m str value.toInt.natAbs
    rw [itoa, dif_neg (by omega)]
    simp only [absolute, written, Option.bind_eq_bind, Option.bind_some]
    by_cases negative : value.toInt < 0
    · have dash : code '-' :: digits = sign value.toInt ++ digits := by
        rw [sign, if_pos negative, List.singleton_append]
      simp only [if_pos negative]
      have length : (code '-' :: digits).length = digits.length + 1 := rfl
      apply writes_reversed value.toInt dash numeral
      · have kept : AgreeOn m' (Function.update m' (str + digits.length) (code '-')) str
            digits.length := fun x _ below => Function.update_of_ne (by omega) _ _
        rw [length, bytesAt_add, kept.bytesAt, bytes, List.reverse_cons]
        congr 1
        simp [bytesAt]
      · intro x apart
        rw [length] at apart
        rw [Function.update_of_ne (by omega), changed x (by omega)]
      · intro known
        have fits := length_numeral value.toInt short small known
        omega
    · have none : digits = sign value.toInt ++ digits := by
        rw [sign, if_neg negative, List.nil_append]
      simp only [if_neg negative]
      apply writes_reversed value.toInt none numeral bytes changed
      intro known
      have fits := length_numeral value.toInt short small known
      omega

/-- Each number without a sign is written right, and each one with a sign but the most negative
one. -/
theorem number_text_iff (m : Memory) (str : Nat) (base : Int) (low : 2 ≤ base) (high : base ≤ 35)
    (value : BitVec 32) :
    Writes m str base value.toNat (uitoa m value str base) ∧
      (Writes m str base value.toInt (itoa m value str base) ↔ value.toInt ≠ -2 ^ 31) :=
  ⟨uitoa_writes m str low high value, itoa_writes_iff m str low high value⟩

/-- The bits of -255, without a sign and with one. -/
theorem number_text_iff_decimal :
    Writes (fun _ => 0) 0 10 4294967041 (uitoa (fun _ => 0) (-255) 0 10) ∧
      (Writes (fun _ => 0) 0 10 (-255) (itoa (fun _ => 0) (-255) 0 10) ↔ (-255 : Int) ≠ -2 ^ 31) :=
  number_text_iff (fun _ => 0) 0 10 (by decide) (by decide) (-255)

theorem most_negative_number : ¬∀ m str base, 2 ≤ base → base ≤ 35 → ∀ value : BitVec 32,
    Writes m str base value.toInt (itoa m value str base) := by
  intro all
  have proper := (itoa_writes_iff (fun _ => 0) 0 (by decide) (by decide) (BitVec.intMin 32)).mp
    (all (fun _ => 0) 0 10 (by decide) (by decide) _)
  exact proper (by decide)

end Orcos.Guarantees.NumberTexts
