import Mathlib.Logic.Function.Basic
import Mathlib.Tactic.Linarith
import Orcos.Lib.ByteMemory

/-!
# Texts of numbers

Source: src/source/inc/stringtools.cc, `strreverse`, `uitoa`, `itoa`.

The digits are written from the last one on and then reversed in place.
-/
namespace Orcos.Source.StringTools
open Lib.ByteMemory

/-- The code of a character. -/
def code (c : Char) : BitVec 8 := BitVec.ofNat 8 c.toNat

/-- The loop of `strreverse`, with the pointers to the first and the last character. -/
def strreverse (m : Memory) (first last : Nat) : Memory :=
  if first < last then
    let aux := m last
    strreverse (Function.update (Function.update m last (m first)) first aux) (first + 1) (last - 1)
  else m
termination_by last - first

/-- The digit table. -/
def num : List (BitVec 8) :=
  ['0', '1', '2', '3', '4', '5', '6', '7', '8', '9', 'a', 'b', 'c', 'd', 'e', 'f', 'g', 'h', 'i',
    'j', 'k', 'l', 'm', 'n', 'o', 'p', 'q', 'r', 's', 't', 'u', 'v', 'w', 'x', 'y', 'z'].map code

/-- `num[index]`; there is no digit at an index outside the table. -/
def digitAt (index : Int) : Option (BitVec 8) := if 0 ≤ index then num[index.toNat]? else none

/-- The loop that writes the digits from the last one on, and the pointer behind them. -/
def convert (m : Memory) (base : Int) (valid : 2 ≤ base) (wstr : Nat) (value : Int) :
    Option (Memory × Nat) := do
  let digit ← digitAt (value.tmod base)
  let m := Function.update m wstr digit
  if value.tdiv base ≠ 0 then convert m base valid (wstr + 1) (value.tdiv base)
  else some (m, wstr + 1)
termination_by value.natAbs
decreasing_by
  have some_ : value ≠ 0 := by
    rintro rfl
    rename_i rest
    exact rest (Int.zero_tdiv base)
  rw [Int.natAbs_tdiv]
  exact Nat.div_lt_self (by omega) (by omega)

/-- The memory afterwards, if no digit outside the table was asked for. -/
def uitoa (m : Memory) (value : BitVec 32) (str : Nat) (base : Int) : Option Memory :=
  if valid : base < 2 ∨ 35 < base then some (Function.update m str 0)
  else do
    let (m, wstr) ← convert m base (by omega) str value.toNat
    let m := Function.update m wstr 0
    some (strreverse m str (wstr - 1))

def itoa (m : Memory) (value : BitVec 32) (str : Nat) (base : Int) : Option Memory :=
  if valid : base < 2 ∨ 35 < base then some (Function.update m str 0)
  else do
    let sign := value.toInt
    let value := if sign < 0 then -value else value
    let (m, wstr) ← convert m base (by omega) str value.toInt
    let (m, wstr) := if sign < 0 then (Function.update m wstr (code '-'), wstr + 1) else (m, wstr)
    let m := Function.update m wstr 0
    some (strreverse m str (wstr - 1))

variable {m : Memory} {x first last : Nat}

/-- Reversed in place: a character changes its place with the one as far from the other end. -/
theorem strreverse_apply : strreverse m first last x =
    if first ≤ x ∧ x ≤ last then m (first + last - x) else m x := by
  fun_induction strreverse m first last with
  | case1 m first last less aux ih =>
    rw [ih]
    by_cases inner : first + 1 ≤ x ∧ x ≤ last - 1
    · have mirrored : first + 1 + (last - 1) - x = first + last - x := by omega
      rw [if_pos inner, if_pos (by omega), mirrored, Function.update_of_ne (by omega),
        Function.update_of_ne (by omega)]
    · rw [if_neg inner]
      by_cases start : x = first
      · rw [start, Function.update_self, if_pos (by omega), Nat.add_sub_cancel_left]
      · rw [Function.update_of_ne start]
        by_cases stop : x = last
        · rw [stop, Function.update_self, if_pos (by omega), Nat.add_sub_cancel]
        · rw [Function.update_of_ne stop, if_neg (by omega)]
  | case2 m first last done =>
    by_cases inside : first ≤ x ∧ x ≤ last
    · have same : first + last - x = x := by omega
      rw [if_pos inside, same]
    · rw [if_neg inside]

theorem bytesAt_strreverse (m : Memory) (a n : Nat) :
    bytesAt (strreverse m a (a + (n + 1) - 1)) a (n + 1) = (bytesAt m a (n + 1)).reverse := by
  apply List.ext_getElem (by rw [List.length_reverse, length_bytesAt, length_bytesAt])
  intro i inside inside'
  rw [length_bytesAt] at inside
  rw [List.getElem_reverse, getElem_bytesAt, getElem_bytesAt, strreverse_apply,
    if_pos (by omega), length_bytesAt]
  congr 1
  omega

end Orcos.Source.StringTools
