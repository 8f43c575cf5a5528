import Mathlib.Algebra.Order.Ring.Int
import Mathlib.Data.List.Basic

/-!
Bit arrays stored in machine words, the most significant bit of the first word
first, and the search for the first set bit by leading-zero count.
-/
namespace Orcos.Lib.WordBits

variable {w : Nat}

/-- Bit `k` of the array; positions beyond the last word read as clear. -/
def bit (words : List (BitVec w)) (k : Nat) : Bool := (words.getD (k / w) 0#w).getMsbD (k % w)

/-- The word with only the bit at distance `k` from the most significant one. -/
def mask (k : Nat) : BitVec w := 1#w <<< (w - 1 - k)

def setBit (words : List (BitVec w)) (k : Nat) : List (BitVec w) :=
  words.modify (k / w) (· ||| mask (k % w))

def clearBit (words : List (BitVec w)) (k : Nat) : List (BitVec w) :=
  words.modify (k / w) (· &&& ~~~(mask (k % w)))

@[simp] theorem setBit_length (words : List (BitVec w)) (k : Nat) :
    (setBit words k).length = words.length := by simp [setBit]

@[simp] theorem clearBit_length (words : List (BitVec w)) (k : Nat) :
    (clearBit words k).length = words.length := by simp [clearBit]

theorem mask_getMsbD {j k : Nat} (left : j < w) (right : k < w) :
    (mask k : BitVec w).getMsbD j = decide (j = k) := by
  simp only [mask, BitVec.getMsbD_shiftLeft, BitVec.getMsbD_one]
  have : j + (w - 1 - k) = w - 1 ↔ j = k := by omega
  simp [this]
  omega

theorem div_mod_inj (j k : Nat) : j / w = k / w ∧ j % w = k % w ↔ j = k := by
  constructor
  · rintro ⟨sameDiv, sameMod⟩
    rw [← Nat.div_add_mod j w, ← Nat.div_add_mod k w, sameDiv, sameMod]
  · rintro rfl
    exact ⟨rfl, rfl⟩

theorem getD_modify (words : List (BitVec w)) (f : BitVec w → BitVec w) {i : Nat}
    (inside : i < words.length) (j : Nat) :
    (words.modify i f).getD j 0#w = if i = j then f (words.getD j 0#w) else words.getD j 0#w := by
  simp only [List.getD_eq_getElem?_getD, List.getElem?_modify]
  by_cases same : i = j
  · subst same
    simp [List.getElem?_eq_getElem inside]
  · simp [same]

/-- A set bit lies in one of the words. -/
theorem inside_of_bit {words : List (BitVec w)} {k : Nat}
    (set : bit words k = true) : k / w < words.length := by
  by_contra outside
  have beyond : words.getD (k / w) 0#w = 0#w := by
    rw [List.getD_eq_getElem?_getD, List.getElem?_eq_none (Nat.le_of_not_lt outside)]
    rfl
  rw [bit, beyond] at set
  simp at set

theorem clz_toNat_le (x : BitVec w) : x.clz.toNat ≤ w := by
  have le := BitVec.clz_le (x := x)
  rw [BitVec.le_def] at le
  simpa [Nat.mod_eq_of_lt (Nat.lt_two_pow_self (n := w))] using le

theorem clz_toNat_lt_iff (x : BitVec w) : x.clz.toNat < w ↔ x ≠ 0#w := by
  rw [← BitVec.clz_lt_iff_ne_zero, BitVec.lt_def]
  simp [Nat.mod_eq_of_lt (Nat.lt_two_pow_self (n := w))]

/-- The bits before the leading-zero count are clear. -/
theorem getMsbD_before_clz {x : BitVec w} {j : Nat} (before : j < x.clz.toNat) :
    x.getMsbD j = false := by
  have le := clz_toNat_le x
  have clear := BitVec.getLsbD_false_of_clzAuxRec (x := x) (n := w - 1)
    (fun i high => BitVec.getLsbD_of_ge x i (by omega)) (x.clz.toNat - 1 - j)
  have position : w - (x.clzAuxRec (w - 1)).toNat + (x.clz.toNat - 1 - j) = w - 1 - j := by
    change w - x.clz.toNat + (x.clz.toNat - 1 - j) = w - 1 - j
    omega
  rw [position] at clear
  simp [BitVec.getMsbD, clear]

/-- The word of `n` low bits, as computed by subtraction from a power of two. -/
theorem getLsbD_shiftLeft_sub_one {n : Nat} (small : n < w) (i : Nat) :
    ((1#w <<< n) - 1#w).getLsbD i = decide (i < n) := by
  have power : 2 ^ n < 2 ^ w := Nat.pow_lt_pow_right (by omega) small
  have one : 1 < 2 ^ w := Nat.one_lt_two_pow (by omega)
  have value : ((1#w <<< n) - 1#w).toNat = 2 ^ n - 1 := by
    have positive := Nat.two_pow_pos n
    rw [BitVec.toNat_sub, BitVec.toNat_shiftLeft, BitVec.toNat_ofNat, Nat.mod_eq_of_lt one,
      Nat.one_shiftLeft, Nat.mod_eq_of_lt power]
    have split : 2 ^ w - 1 + 2 ^ n = 2 ^ w + (2 ^ n - 1) := by omega
    rw [split, Nat.add_mod_left, Nat.mod_eq_of_lt (by omega)]
  rw [BitVec.getLsbD, value, Nat.testBit_two_pow_sub_one]

/-- Setting bits of one word by a mask. -/
theorem bit_modify_or {words : List (BitVec w)} (i : Nat) (m : BitVec w)
    (inside : i < words.length) (j : Nat) :
    bit (words.modify i (· ||| m)) j =
      (bit words j || (decide (j / w = i) && m.getMsbD (j % w))) := by
  rw [bit, getD_modify _ _ inside]
  by_cases here : i = j / w
  · simp [here, bit]
  · simp [here, Ne.symm here, bit]

/-- Clear `n` bits from `offset` on. -/
def clearRange (words : List (BitVec w)) (offset n : Nat) : List (BitVec w) :=
  (List.range' offset n).foldl clearBit words

@[simp] theorem clearRange_length (words : List (BitVec w)) (offset n : Nat) :
    (clearRange words offset n).length = words.length := by
  induction n generalizing words offset with
  | zero => rfl
  | succ n ih =>
    rw [clearRange, List.range'_succ, List.foldl_cons]
    exact (ih (clearBit words offset) (offset + 1)).trans (clearBit_length words offset)

section Positive

variable [NeZero w] {words : List (BitVec w)} {k : Nat}

private theorem width_pos : 0 < w := Nat.pos_of_ne_zero (NeZero.ne w)

theorem bit_setBit (inside : k / w < words.length) (j : Nat) :
    bit (setBit words k) j = (decide (j = k) || bit words j) := by
  have left := Nat.mod_lt j (width_pos (w := w))
  have right := Nat.mod_lt k (width_pos (w := w))
  have same := div_mod_inj (w := w) j k
  rw [bit, setBit, getD_modify _ _ inside]
  by_cases sameWord : k / w = j / w
  · rw [if_pos sameWord, BitVec.getMsbD_or, mask_getMsbD left right, Bool.or_comm]
    simp [← same, sameWord, bit]
  · simp [← same, sameWord, Ne.symm sameWord, bit]

theorem bit_clearBit (inside : k / w < words.length) (j : Nat) :
    bit (clearBit words k) j = (!decide (j = k) && bit words j) := by
  have left := Nat.mod_lt j (width_pos (w := w))
  have right := Nat.mod_lt k (width_pos (w := w))
  have same := div_mod_inj (w := w) j k
  rw [bit, clearBit, getD_modify _ _ inside]
  by_cases sameWord : k / w = j / w
  · rw [if_pos sameWord, BitVec.getMsbD_and, BitVec.getMsbD_not, mask_getMsbD left right,
      Bool.and_comm]
    simp [← same, sameWord, bit, left]
  · simp [← same, sameWord, Ne.symm sameWord, bit]

theorem bit_cons (word : BitVec w) (rest : List (BitVec w)) (k : Nat) :
    bit (word :: rest) k = if k < w then word.getMsbD k else bit rest (k - w) := by
  by_cases here : k < w
  · simp [bit, here, Nat.div_eq_of_lt here, Nat.mod_eq_of_lt here]
  · obtain ⟨j, rfl⟩ := Nat.exists_eq_add_of_le (Nat.le_of_not_lt here)
    rw [if_neg here, Nat.add_sub_cancel_left, bit, bit, Nat.add_div_left j width_pos,
      Nat.add_mod_left, List.getD_cons_succ]

/-- The bit at the leading-zero count is set. -/
theorem getMsbD_clz {x : BitVec w} (nonzero : x ≠ 0#w) : x.getMsbD x.clz.toNat = true := by
  have inside := (clz_toNat_lt_iff x).mpr nonzero
  have set := BitVec.getLsbD_true_clz_of_ne_zero width_pos nonzero
  simp [BitVec.getMsbD, inside, set]

omit [NeZero w] in
/-- A word that was read is stored with other bits. -/
theorem set_eq_modify {i : Nat} {word : BitVec w} (read : words[i]? = some word)
    (f : BitVec w → BitVec w) : words.set i (f word) = words.modify i f := by
  apply List.ext_getElem?
  intro j
  rw [List.getElem?_set, List.getElem?_modify]
  by_cases same : i = j
  · subst same
    obtain ⟨inside, entry⟩ := List.getElem?_eq_some_iff.mp read
    simp [inside, entry]
  · simp [same]

theorem clz_place {word : BitVec w} (some_ : word.clz.toNat < w) (i : Nat) :
    (word.clz.toNat + i * w) / w = i ∧ (word.clz.toNat + i * w) % w = word.clz.toNat := by
  constructor
  · rw [Nat.add_mul_div_right _ _ width_pos, Nat.div_eq_of_lt some_, Nat.zero_add]
  · rw [Nat.add_mul_mod_self_right, Nat.mod_eq_of_lt some_]

/-- The first set bit of a word of the array. -/
theorem bit_clz {i : Nat} {word : BitVec w} (read : words[i]? = some word)
    (some_ : word.clz.toNat < w) : bit words (word.clz.toNat + i * w) = true := by
  obtain ⟨place, offset⟩ := clz_place some_ i
  rw [bit, place, offset, List.getD_eq_getElem?_getD, read]
  exact getMsbD_clz ((clz_toNat_lt_iff word).mp some_)

/-- A word is stored without its first set bit. -/
theorem set_clz {i : Nat} {word : BitVec w} (read : words[i]? = some word)
    (some_ : word.clz.toNat < w) :
    words.set i (word &&& ~~~mask word.clz.toNat) =
      clearBit words (word.clz.toNat + i * w) := by
  obtain ⟨place, offset⟩ := clz_place some_ i
  rw [clearBit, place, offset]
  exact set_eq_modify read (· &&& ~~~mask word.clz.toNat)

/-- Arrays of one length are determined by their bits. -/
theorem ext_bit {words words' : List (BitVec w)} (length : words.length = words'.length)
    (same : ∀ k, bit words k = bit words' k) : words = words' := by
  apply List.ext_getElem length
  intro i inside inside'
  apply BitVec.eq_of_getMsbD_eq
  intro j small
  have position : (i * w + j) / w = i := by
    rw [Nat.mul_comm, Nat.mul_add_div width_pos, Nat.div_eq_of_lt small, Nat.add_zero]
  have offset : (i * w + j) % w = j := by
    rw [Nat.mul_comm, Nat.mul_add_mod, Nat.mod_eq_of_lt small]
  have here := same (i * w + j)
  simpa [bit, position, offset, List.getD_eq_getElem?_getD, inside, inside'] using here

theorem bit_clearRange {words : List (BitVec w)} {offset n : Nat}
    (inside : offset + n ≤ words.length * w) (j : Nat) :
    bit (clearRange words offset n) j =
      (bit words j && !decide (offset ≤ j ∧ j < offset + n)) := by
  induction n generalizing words offset with
  | zero =>
    have none : ¬ (offset ≤ j ∧ j < offset + 0) := by omega
    rw [decide_eq_false none]
    simp [clearRange]
  | succ n ih =>
    have here : offset / w < words.length := Nat.div_lt_of_lt_mul (by rw [Nat.mul_comm]; omega)
    have rest := @ih (clearBit words offset) (offset + 1) (by rw [clearBit_length]; omega)
    rw [clearRange, List.range'_succ, List.foldl_cons]
    rw [clearRange] at rest
    rw [rest, bit_clearBit here]
    by_cases first : j = offset
    · simp [first]
    · have same : (offset + 1 ≤ j ∧ j < offset + 1 + n) ↔ (offset ≤ j ∧ j < offset + (n + 1)) := by
        omega
      rw [decide_eq_false first, Bool.not_false, Bool.true_and, decide_eq_decide.mpr same]

/-- The first set bit. -/
def firstSet : List (BitVec w) → Option Nat
  | [] => none
  | word :: rest =>
    if word.clz.toNat < w then some word.clz.toNat else (firstSet rest).map (w + ·)

theorem firstSet_eq_none (none : firstSet words = none) (k : Nat) : bit words k = false := by
  induction words generalizing k with
  | nil => simp [bit]
  | cons word rest ih =>
    by_cases found : word.clz.toNat < w
    · simp [firstSet, found] at none
    · have zero : word = 0#w := by
        by_contra nonzero
        exact found ((clz_toNat_lt_iff word).mpr nonzero)
      have later : firstSet rest = Option.none := by simpa [firstSet, found] using none
      rw [bit_cons, ih later (k - w), zero]
      simp

theorem firstSet_eq_some (some : firstSet words = some k) :
    bit words k = true ∧ ∀ j < k, bit words j = false := by
  induction words generalizing k with
  | nil => simp [firstSet] at some
  | cons word rest ih =>
    by_cases found : word.clz.toNat < w
    · have here : word.clz.toNat = k := by simpa [firstSet, found] using some
      subst here
      refine ⟨?_, fun j before => ?_⟩
      · rw [bit_cons, if_pos found, getMsbD_clz ((clz_toNat_lt_iff word).mp found)]
      · rw [bit_cons, if_pos (by omega), getMsbD_before_clz before]
    · have zero : word = 0#w := by
        by_contra nonzero
        exact found ((clz_toNat_lt_iff word).mpr nonzero)
      obtain ⟨later, there, rfl⟩ : ∃ i, firstSet rest = Option.some i ∧ w + i = k := by
        simpa [firstSet, found] using some
      obtain ⟨set, clear⟩ := ih there
      refine ⟨?_, fun j before => ?_⟩
      · rw [bit_cons, if_neg (by omega), Nat.add_sub_cancel_left, set]
      · rw [bit_cons]
        split
        · rw [zero]
          simp
        · exact clear (j - w) (by omega)

end Positive

end Orcos.Lib.WordBits
