import Mathlib.Algebra.Order.Ring.Int
import Mathlib.Data.List.Basic
import Mathlib.Data.Nat.Basic
import Mathlib.Logic.Function.Basic

/-!
Contents indexed by natural numbers, one extent of which is replaced at a time:
memories written by the block, devices written by the sector. Two extents of
one length are apart or overlap. Lists that are read off rows of one length, and
lists of which a stretch is written over: a write may lengthen the list, and what
was behind the list it is written to is not looked at.
-/
namespace Orcos.Lib.Extents

variable {α : Type*}

/-- The `n` places from `a` on take the values of `g` from 0 on. -/
def overwrite (f : Nat → α) (a n : Nat) (g : Nat → α) : Nat → α := fun x =>
  if a ≤ x ∧ x < a + n then g (x - a) else f x

/-- The place lies in the extent of length `n` from `a` on. -/
def Inside (a n x : Nat) : Prop := a ≤ x ∧ x < a + n

/-- Two extents of length `n` have no place in common. -/
def Apart (n a b : Nat) : Prop := a + n ≤ b ∨ b + n ≤ a

instance (a n x : Nat) : Decidable (Inside a n x) := inferInstanceAs (Decidable (_ ∧ _))

variable {f g h : Nat → α} {a b n x : Nat}

theorem overwrite_inside (inside : Inside a n x) : overwrite f a n g x = g (x - a) :=
  if_pos inside

theorem overwrite_outside (outside : ¬Inside a n x) : overwrite f a n g x = f x :=
  if_neg outside

/-- Nothing changes where the new values are the ones already there. -/
theorem overwrite_eq (same : ∀ i < n, g i = h (a + i)) (inside : Inside a n x) :
    overwrite f a n g x = h x := by
  have low := inside.1
  have high := inside.2
  rw [overwrite_inside inside, same (x - a) (by omega)]
  congr 1
  omega

theorem Apart.symm (apart : Apart n a b) : Apart n b a := apart.elim Or.inr Or.inl

theorem Apart.not_inside (apart : Apart n a b) (inside : Inside a n x) : ¬Inside b n x := by
  intro other
  have := inside.1
  have := inside.2
  have := other.1
  have := other.2
  rcases apart with before | after <;> omega

/-- The first place is written alone and the rest after it. -/
theorem overwrite_update (f : Nat → α) (a n : Nat) (g : Nat → α) :
    overwrite (Function.update f a (g 0)) (a + 1) n (fun i => g (i + 1)) =
      overwrite f a (n + 1) g := by
  funext x
  by_cases first : x = a
  · subst first
    rw [overwrite_outside (fun inside => absurd inside.1 (by omega)), Function.update_self,
      overwrite_inside ⟨by omega, by omega⟩, Nat.sub_self]
  · by_cases inside : Inside (a + 1) n x
    · have low := inside.1
      have high := inside.2
      rw [overwrite_inside inside, overwrite_inside ⟨by omega, by omega⟩]
      congr 1
      omega
    · have outside : ¬Inside a (n + 1) x := fun within =>
        inside ⟨by have := within.1; omega, by have := within.2; omega⟩
      rw [overwrite_outside inside, overwrite_outside outside, Function.update_of_ne first]

theorem overwrite_nothing (f : Nat → α) (a : Nat) (g : Nat → α) : overwrite f a 0 g = f := by
  funext x
  exact overwrite_outside fun inside => by have := inside.1; have := inside.2; omega

/-- Multiples of the length start extents that coincide or are apart. -/
theorem apart_of_dvd (base : Nat) (left : n ∣ a) (right : n ∣ b) (different : a ≠ b) :
    Apart n (base + a) (base + b) := by
  obtain ⟨k, rfl⟩ := left
  obtain ⟨m, rfl⟩ := right
  rcases Nat.lt_or_gt_of_ne fun same : k = m => different (by rw [same]) with less | greater
  · have := Nat.mul_le_mul_left n less
    rw [Nat.mul_succ] at this
    exact .inl (by omega)
  · have := Nat.mul_le_mul_left n greater
    rw [Nat.mul_succ] at this
    exact .inr (by omega)

section Rows

variable {β : Type*} {n i r : Nat} {row : α → List β} {xs : List α}

theorem length_rows (even : ∀ x ∈ xs, (row x).length = n) :
    (xs.flatMap row).length = n * xs.length := by
  induction xs with
  | nil => rfl
  | cons x xs ih =>
    rw [List.flatMap_cons, List.length_append, even x (by simp),
      ih fun y member => even y (by simp [member]), List.length_cons, Nat.mul_succ, Nat.add_comm]

/-- What stands in a row. -/
theorem getElem?_rows (even : ∀ x ∈ xs, (row x).length = n) (inside : r < n) :
    (xs.flatMap row)[n * i + r]? = xs[i]?.bind fun x => (row x)[r]? := by
  induction xs generalizing i with
  | nil => simp
  | cons x xs ih =>
    have first : (row x).length = n := even x (by simp)
    cases i with
    | zero =>
      rw [List.flatMap_cons, Nat.mul_zero, Nat.zero_add, List.getElem?_append_left (by omega)]
      rfl
    | succ i =>
      have place : n * (i + 1) + r - n = n * i + r := by
        rw [Nat.mul_succ]
        omega
      rw [List.flatMap_cons, List.getElem?_append_right (by rw [first, Nat.mul_succ]; omega), first,
        place, ih fun y member => even y (by simp [member])]
      rfl

end Rows

section Overlay

/-- The list with a stretch from a place on written over. -/
def overlay (xs : List α) (place : Nat) (ys : List α) : List α :=
  xs.take place ++ ys ++ xs.drop (place + ys.length)

variable {xs ys zs : List α} {i place size : Nat}

@[simp] theorem overlay_nil (xs : List α) (place : Nat) : overlay xs place [] = xs := by
  simp [overlay]

theorem length_overlay (inside : place ≤ xs.length) :
    (overlay xs place ys).length = max xs.length (place + ys.length) := by
  simp only [overlay, List.length_append, List.length_take, List.length_drop]
  omega

theorem getElem?_overlay (inside : place ≤ xs.length) :
    (overlay xs place ys)[i]? =
      if i < place then xs[i]? else if i < place + ys.length then ys[i - place]? else xs[i]? := by
  have front : (xs.take place).length = place := by
    rw [List.length_take]
    omega
  rw [overlay, List.append_assoc]
  by_cases before : i < place
  · rw [if_pos before, List.getElem?_append_left (by omega), List.getElem?_take_of_lt before]
  · rw [if_neg before, List.getElem?_append_right (by omega), front]
    by_cases within : i < place + ys.length
    · rw [if_pos within, List.getElem?_append_left (by omega)]
    · rw [if_neg within, List.getElem?_append_right (by omega), List.getElem?_drop]
      congr 1
      omega

/-- A longer list has these elements at a place, and the others up to a size as before. -/
structure Stored (before after : List α) (place : Nat) (ys : List α) (size : Nat) : Prop where
  front : ∀ i < place, after[i]? = before[i]?
  here : ∀ i < ys.length, after[place + i]? = ys[i]?
  behind : ∀ i, place + ys.length ≤ i → i < size → after[i]? = before[i]?

theorem Stored.refl (xs : List α) (place size : Nat) : Stored xs xs place [] size :=
  ⟨fun _ _ => rfl, fun _ inside => absurd inside (Nat.not_lt_zero _), fun _ _ _ => rfl⟩

/-- Nothing is stored while the list grows behind its end. -/
theorem Stored.grow (xs ys : List α) (inside : place ≤ xs.length) (enough : size ≤ xs.length) :
    Stored xs (xs ++ ys) place [] size :=
  ⟨fun _ less => List.getElem?_append_left (by omega),
    fun _ none => absurd none (Nat.not_lt_zero _),
    fun _ _ less => List.getElem?_append_left (by omega)⟩

/-- What is stored piece by piece. -/
theorem Stored.append (first : Stored xs ys place zs size) {ws vs : List α}
    (second : Stored ys ws (place + zs.length) vs size) : Stored xs ws place (zs ++ vs) size := by
  constructor
  · intro i inside
    rw [second.front i (by omega), first.front i inside]
  · intro i inside
    rw [List.length_append] at inside
    by_cases early : i < zs.length
    · rw [second.front _ (by omega), first.here i early, List.getElem?_append_left early]
    · have late := second.here (i - zs.length) (by omega)
      rw [List.getElem?_append_right (by omega), ← late]
      congr 1
      omega
  · intro i above below
    rw [List.length_append] at above
    rw [second.behind i (by omega) below, first.behind i (by omega) below]

/-- The list as far as it counts. -/
theorem Stored.take_eq (stored : Stored xs ys place zs size) (inside : place ≤ size)
    (enough : size ≤ xs.length) :
    ys.take (max size (place + zs.length)) = overlay (xs.take size) place zs := by
  have length : (xs.take size).length = size := by
    rw [List.length_take]
    omega
  apply List.ext_getElem?
  intro i
  rw [getElem?_overlay (by omega), List.getElem?_take, List.getElem?_take]
  by_cases front : i < place
  · rw [if_pos (by omega), if_pos front, if_pos (by omega), stored.front i front]
  · rw [if_neg front]
    by_cases here : i < place + zs.length
    · have same := stored.here (i - place) (by omega)
      rw [if_pos (by omega), if_pos here, ← same]
      congr 1
      omega
    · rw [if_neg here]
      by_cases below : i < size
      · rw [if_pos (by omega), if_pos below, stored.behind i (by omega) below]
      · rw [if_neg (by omega), if_neg below]

end Overlay

end Orcos.Lib.Extents
