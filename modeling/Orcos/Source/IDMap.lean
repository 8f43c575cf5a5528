import Orcos.Lib.WordBits

/-!
# The map of free identifiers

Source: src/source/inc/Bitmap.hh, class `IDMap`.

A set bit is a free ID, the most significant bit of the first word is ID 0. The
words are the 32-bit `unsigned long` of the supported processors. When the
number of IDs is a multiple of the word width, the constructor shifts `1ul` by
the whole width, which the language leaves undefined; `beyond` is the value the
compiler makes of it (zero on ARM). A negative ID indexes the map out of bounds
and is answered with `none`.
-/
namespace Orcos.Source
open Orcos.Lib.WordBits

structure IDMap where
  ids : Nat
  map : List (BitVec 32)
  deriving DecidableEq

namespace IDMap

def ceiling (x y : Nat) : Nat := (x + y - 1) / y

/-- `1ul << count`. -/
def shifted (beyond : BitVec 32) (count : Nat) : BitVec 32 :=
  if count < 32 then 1#32 <<< count else beyond

/-- The constructor. -/
def fresh (beyond : BitVec 32) (ids : Nat) : IDMap :=
  let map := List.replicate (ceiling ids 32) (BitVec.allOnes 32)
  let lastIds := ids % 32
  ⟨ids, map.modify (ceiling ids 32 - 1) (· &&& ~~~(shifted beyond (32 - lastIds) - 1#32))⟩

/-- The loop of `getNextID` from word `i` on: the words afterwards and the ID. -/
def nextFrom (i : Nat) : List (BitVec 32) → List (BitVec 32) × Int
  | [] => ([], -1)
  | word :: rest =>
    let freeindex := word.clz.toNat
    if freeindex < 32 then
      ((word &&& ~~~(1#32 <<< (32 - 1 - freeindex))) :: rest, freeindex + i * 32)
    else
      let (rest, id) := nextFrom (i + 1) rest
      (word :: rest, id)

def getNextID (m : IDMap) : IDMap × Int :=
  let (map, id) := nextFrom 0 m.map
  ({ m with map := map }, id)

def invalidateID (m : IDMap) (id : Int) : Option IDMap :=
  if id ≥ m.ids then some m
  else if id < 0 then none
  else
    let index := id.toNat / 32
    let bit := id.toNat - index * 32
    some { m with map := m.map.modify index (· &&& ~~~(1#32 <<< (32 - 1 - bit))) }

def freeID (m : IDMap) (id : Int) : Option IDMap :=
  if id ≥ m.ids then some m
  else if id < 0 then none
  else
    let index := id.toNat / 32
    let bit := id.toNat - index * 32
    some { m with map := m.map.modify index (· ||| (1#32 <<< (32 - 1 - bit))) }

/-- The search takes the first set bit and clears it. -/
theorem nextFrom_eq (i : Nat) (words : List (BitVec 32)) :
    nextFrom i words = match firstSet words with
      | some k => (clearBit words k, (k + i * 32 : Nat))
      | none => (words, -1) := by
  induction words generalizing i with
  | nil => rfl
  | cons word rest ih =>
    by_cases found : word.clz.toNat < 32
    · simp [nextFrom, firstSet, found, clearBit, mask, Nat.div_eq_of_lt found,
        Nat.mod_eq_of_lt found]
    · simp only [nextFrom, firstSet, found, if_false, ih (i + 1)]
      cases firstSet rest with
      | none => rfl
      | some k =>
        have onward : (32 + k) / 32 = k / 32 + 1 := by omega
        have within : (32 + k) % 32 = k % 32 := by omega
        have sum : k + (i + 1) * 32 = 32 + k + i * 32 := by omega
        simp [clearBit, onward, within, sum]

theorem getNextID_some {m : IDMap} {k : Nat} (first : firstSet m.map = some k) :
    m.getNextID = ({ m with map := clearBit m.map k }, (k : Int)) := by
  rw [getNextID, nextFrom_eq, first]
  simp

theorem getNextID_none {m : IDMap} (none_ : firstSet m.map = none) : m.getNextID = (m, -1) := by
  rw [getNextID, nextFrom_eq, none_]

theorem invalidateID_eq (m : IDMap) {id : Nat} (known : id < m.ids) :
    m.invalidateID id = some { m with map := clearBit m.map id } := by
  have within : id - id / 32 * 32 = id % 32 := by omega
  simp [invalidateID, show ¬ m.ids ≤ id by omega, clearBit, mask, within]

theorem freeID_eq (m : IDMap) {id : Nat} (known : id < m.ids) :
    m.freeID id = some { m with map := setBit m.map id } := by
  have within : id - id / 32 * 32 = id % 32 := by omega
  simp [freeID, show ¬ m.ids ≤ id by omega, setBit, mask, within]

/-- Which IDs a fresh map offers. -/
theorem fresh_bit (beyond : BitVec 32) {ids : Nat} (positive : 0 < ids) (k : Nat) :
    bit (fresh beyond ids).map k = (decide (k < ceiling ids 32 * 32) &&
      (decide (k / 32 ≠ ceiling ids 32 - 1) ||
        !(shifted beyond (32 - ids % 32) - 1#32).getMsbD (k % 32))) := by
  have width : k % 32 < 32 := Nat.mod_lt k (by decide)
  have words : 0 < ceiling ids 32 := by unfold ceiling; omega
  have last : ceiling ids 32 - 1 <
    (List.replicate (ceiling ids 32) (BitVec.allOnes 32)).length := by
    rw [List.length_replicate]
    omega
  have ones : (BitVec.allOnes 32).getMsbD (k % 32) = true := by
    rw [BitVec.getMsbD_allOnes]
    exact decide_eq_true width
  rw [fresh, bit, getD_modify _ _ last, List.getD_eq_getElem?_getD, List.getElem?_replicate]
  generalize BitVec.allOnes 32 = full at ones
  by_cases inside : k / 32 < ceiling ids 32
  · have below : k < ceiling ids 32 * 32 := by omega
    by_cases isLast : ceiling ids 32 - 1 = k / 32
    · simp [inside, below, isLast, ones, width]
    · simp [inside, below, isLast, ones, Ne.symm isLast]
  · have beyondEnd : ¬ k < ceiling ids 32 * 32 := by omega
    simp [inside, beyondEnd]

/-- A partial last word keeps as many bits as there are IDs left for it. -/
theorem fresh_bit_remainder (beyond : BitVec 32) {ids : Nat} (positive : 0 < ids)
    (isPartial : ids % 32 ≠ 0) (k : Nat) :
    bit (fresh beyond ids).map k = decide (k < ids) := by
  have words : ceiling ids 32 = ids / 32 + 1 := by unfold ceiling; omega
  have width : k % 32 < 32 := Nat.mod_lt k (by decide)
  have shift : shifted beyond (32 - ids % 32) = 1#32 <<< (32 - ids % 32) := if_pos (by omega)
  have low : ((1#32 <<< (32 - ids % 32)) - 1#32).getMsbD (k % 32) = decide (ids % 32 ≤ k % 32) := by
    rw [BitVec.getMsbD, getLsbD_shiftLeft_sub_one (by omega)]
    simp only [width, decide_true, Bool.true_and, decide_eq_decide]
    omega
  rw [fresh_bit beyond positive, shift, low, words]
  simp only [← decide_not, ← Bool.decide_or, ← Bool.decide_and, decide_eq_decide]
  omega

/-- A full last word depends on the value of the undefined shift. -/
theorem fresh_bit_full (beyond : BitVec 32) {ids : Nat} (positive : 0 < ids)
    (isFull : ids % 32 = 0) (k : Nat) :
    bit (fresh beyond ids).map k = (decide (k < ids) &&
      (decide (k < ids - 32) || !(beyond - 1#32).getMsbD (k % 32))) := by
  have words : ceiling ids 32 = ids / 32 := by unfold ceiling; omega
  have shift : shifted beyond (32 - ids % 32) = beyond := if_neg (by omega)
  have total : ids / 32 * 32 = ids := by omega
  rw [fresh_bit beyond positive, shift, words, total]
  by_cases known : k < ids
  · have early : k / 32 ≠ ids / 32 - 1 ↔ k < ids - 32 := by omega
    simp only [known, early]
  · simp [known]

end IDMap

end Orcos.Source
