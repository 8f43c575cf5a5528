import Mathlib.Algebra.Order.Ring.Int
import Mathlib.Data.List.Basic
import Mathlib.Data.Nat.Basic

/-!
Byte-addressed memory with little-endian 32-bit words, and the frame facts a
program proof needs: a write is seen by a read of the same word and by no read
of other bytes.
-/
namespace Orcos.Lib.ByteMemory

abbrev Memory := Nat → BitVec 8

def read32 (m : Memory) (a : Nat) : Nat :=
  (m a).toNat + (m (a + 1)).toNat * 2 ^ 8 + (m (a + 2)).toNat * 2 ^ 16 + (m (a + 3)).toNat * 2 ^ 24

def write32 (m : Memory) (a v : Nat) : Memory := fun x =>
  if x = a then BitVec.ofNat 8 v
  else if x = a + 1 then BitVec.ofNat 8 (v / 2 ^ 8)
  else if x = a + 2 then BitVec.ofNat 8 (v / 2 ^ 16)
  else if x = a + 3 then BitVec.ofNat 8 (v / 2 ^ 24)
  else m x

def read16 (m : Memory) (a : Nat) : Nat := (m a).toNat + (m (a + 1)).toNat * 2 ^ 8

def write16 (m : Memory) (a v : Nat) : Memory := fun x =>
  if x = a then BitVec.ofNat 8 v
  else if x = a + 1 then BitVec.ofNat 8 (v / 2 ^ 8)
  else m x

/-- `n` bytes from `a` on set to one value. -/
def fill (m : Memory) (a n : Nat) (byte : BitVec 8) : Memory := fun x =>
  if a ≤ x ∧ x < a + n then byte else m x

/-- `n` bytes from `a` on. -/
def bytesAt (m : Memory) (a n : Nat) : List (BitVec 8) := (List.range n).map fun i => m (a + i)

/-- Memory has these bytes from `a` on. -/
def Holds (m : Memory) (a : Nat) (bytes : List (BitVec 8)) : Prop :=
  bytesAt m a bytes.length = bytes

/-- The memory with bytes copied to `a`. -/
def copyInto (m : Memory) (a : Nat) (bytes : List (BitVec 8)) : Memory := fun x =>
  if a ≤ x ∧ x < a + bytes.length then bytes.getD (x - a) 0 else m x

/-- The word that four bytes make, the lowest first. -/
def wordOf (bytes : List (BitVec 8)) : Nat := read32 (fun i => bytes.getD i 0) 0

/-- Memory with words from an address on. -/
def wordsAt (base : Nat) (words : List Nat) : Memory := fun a =>
  if a < base then 0
  else BitVec.ofNat 8 (words.getD ((a - base) / 4) 0 / 2 ^ (8 * ((a - base) % 4)))

/-- The memories agree on the `n` bytes from `a` on. -/
def AgreeOn (m m' : Memory) (a n : Nat) : Prop := ∀ x, a ≤ x → x < a + n → m' x = m x

/-- Only bytes from `lo` up to but not including `hi` may differ. -/
def ChangedIn (m m' : Memory) (lo hi : Nat) : Prop := ∀ x, x < lo ∨ hi ≤ x → m' x = m x

variable {m m' m'' : Memory} {a b n v lo hi : Nat}

theorem read32_lt (m : Memory) (a : Nat) : read32 m a < 2 ^ 32 := by
  have := (m a).isLt
  have := (m (a + 1)).isLt
  have := (m (a + 2)).isLt
  have := (m (a + 3)).isLt
  rw [read32]
  omega

theorem read16_lt (m : Memory) (a : Nat) : read16 m a < 2 ^ 16 := by
  have := (m a).isLt
  have := (m (a + 1)).isLt
  rw [read16]
  omega

theorem AgreeOn.read32 (agree : AgreeOn m m' a n) (low : a ≤ b) (high : b + 4 ≤ a + n) :
    read32 m' b = read32 m b := by
  rw [ByteMemory.read32, ByteMemory.read32, agree b low (by omega), agree (b + 1) (by omega)
    (by omega), agree (b + 2) (by omega) (by omega), agree (b + 3) (by omega) (by omega)]

theorem ChangedIn.trans (first : ChangedIn m m' lo hi) (second : ChangedIn m' m'' lo hi) :
    ChangedIn m m'' lo hi := fun x apart => (second x apart).trans (first x apart)

theorem ChangedIn.mono (changed : ChangedIn m m' lo hi) (low : a ≤ lo) (high : hi ≤ b) :
    ChangedIn m m' a b := fun x apart => changed x (by omega)

theorem ChangedIn.agreeOn (changed : ChangedIn m m' lo hi) (apart : a + n ≤ lo ∨ hi ≤ a) :
    AgreeOn m m' a n := fun x low high => changed x (by omega)

theorem write32_changedIn (m : Memory) (a v : Nat) : ChangedIn m (write32 m a v) a (a + 4) := by
  intro x apart
  rw [write32, if_neg (by omega), if_neg (by omega), if_neg (by omega), if_neg (by omega)]

theorem fill_changedIn (m : Memory) (a n : Nat) (byte : BitVec 8) :
    ChangedIn m (fill m a n byte) a (a + n) := fun x apart => if_neg (by omega)

theorem copyInto_changedIn (m : Memory) (a : Nat) (bytes : List (BitVec 8)) :
    ChangedIn m (copyInto m a bytes) a (a + bytes.length) := fun x apart => if_neg (by omega)

theorem copyInto_inside {bytes : List (BitVec 8)} {i : Nat} (inside : i < bytes.length) :
    copyInto m a bytes (a + i) = bytes[i] := by
  rw [copyInto, if_pos (by omega), Nat.add_sub_cancel_left, List.getD_eq_getElem?_getD,
    List.getElem?_eq_getElem inside, Option.getD_some]

@[simp] theorem length_bytesAt : (bytesAt m a n).length = n := by
  rw [bytesAt, List.length_map, List.length_range]

theorem getElem_bytesAt {i : Nat} (inside : i < (bytesAt m a n).length) :
    (bytesAt m a n)[i] = m (a + i) := by
  simp [bytesAt]

theorem bytesAt_add (m : Memory) (a n k : Nat) :
    bytesAt m a (n + k) = bytesAt m a n ++ bytesAt m (a + n) k := by
  simp only [bytesAt, List.range_add, List.map_append, List.map_map]
  congr 1
  exact List.map_congr_left fun i _ => by simp [Nat.add_assoc]

theorem drop_bytesAt {k : Nat} : (bytesAt m a n).drop k = bytesAt m (a + k) (n - k) := by
  apply List.ext_getElem
  · simp
  · intro i _ _
    simp [bytesAt, Nat.add_assoc]

theorem take_bytesAt {k : Nat} (few : k ≤ n) : (bytesAt m a n).take k = bytesAt m a k := by
  apply List.ext_getElem
  · simp [few]
  · intro i _ _
    simp [bytesAt]

theorem wordOf_bytesAt (m : Memory) (a : Nat) : wordOf (bytesAt m a 4) = read32 m a := by
  simp [wordOf, read32, bytesAt, List.getD_eq_getElem?_getD]

theorem AgreeOn.bytesAt (agree : AgreeOn m m' a n) : bytesAt m' a n = bytesAt m a n :=
  List.map_congr_left fun i member => by
    have inside := List.mem_range.mp member
    exact agree (a + i) (by omega) (by omega)

theorem bytesAt_copyInto (m : Memory) (a : Nat) (bytes : List (BitVec 8)) :
    bytesAt (copyInto m a bytes) a bytes.length = bytes := by
  apply List.ext_getElem length_bytesAt
  intro i _ inside
  rw [getElem_bytesAt, copyInto_inside inside]

theorem read32_write32 (m : Memory) (a : Nat) (word : v < 2 ^ 32) :
    read32 (write32 m a v) a = v := by
  simp [read32, write32]
  omega

theorem read16_write16 (m : Memory) (a : Nat) (word : v < 2 ^ 16) :
    read16 (write16 m a v) a = v := by
  simp [read16, write16]
  omega

theorem read32_write32_of_apart (apart : b + 4 ≤ a ∨ a + 4 ≤ b) :
    read32 (write32 m a v) b = read32 m b :=
  ((write32_changedIn m a v).agreeOn (n := 4) (a := b) (by omega)).read32 (Nat.le_refl b)
    (Nat.le_refl _)

theorem read16_write16_of_apart (apart : b + 2 ≤ a ∨ a + 2 ≤ b) :
    read16 (write16 m a v) b = read16 m b := by
  rw [read16, read16, write16, write16, if_neg (by omega), if_neg (by omega), if_neg (by omega),
    if_neg (by omega)]

end Orcos.Lib.ByteMemory
