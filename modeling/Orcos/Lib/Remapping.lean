import Mathlib.Algebra.Order.Ring.Int
import Mathlib.Data.Nat.ModEq

/-!
The effect of mapping a range of addresses and of taking a page away again. A translation
gives the image of an address, if it has one; addresses wrap around at `width`.
-/
namespace Orcos.Lib.Remapping

abbrev Translation := Nat → Option Nat

variable {width log phys n m : Nat} {before middle after : Translation} {page : Nat → Prop}

/-- The `n` addresses from `log` on go to those from `phys` on, and all others as before. -/
structure Remaps (width : Nat) (before after : Translation) (log phys n : Nat) : Prop where
  maps : ∀ k < n, after ((log + k) % width) = some ((phys + k) % width)
  frame : ∀ x < width, (∀ k < n, x ≠ (log + k) % width) → after x = before x

/-- The addresses of a page lose their image, and no other does. -/
structure Unmaps (before after : Translation) (page : Nat → Prop) : Prop where
  gone : ∀ x, page x → after x = none
  frame : ∀ x, ¬ page x → after x = before x

theorem add_mod_mod (a n k width : Nat) :
    ((a + n) % width + k) % width = (a + (n + k)) % width := by
  rw [Nat.mod_add_mod, Nat.add_assoc]

/-- Two offsets less than a whole turn apart give different addresses. -/
theorem offsets_apart {j k : Nat} (less : k < j) (turn : j < k + width) :
    (log + k) % width ≠ (log + j) % width := by
  intro same
  have wrapped : (log + k) ≡ (log + j) [MOD width] := same
  have divides := (Nat.modEq_iff_dvd' (by omega)).mp wrapped
  have far := Nat.le_of_dvd (by omega) divides
  omega

theorem Remaps.nothing (before : Translation) (log phys : Nat) :
    Remaps width before before log phys 0 := ⟨nofun, fun _ _ _ => rfl⟩

/-- A range and the range behind it are one range. -/
theorem Remaps.append (first : Remaps width before middle log phys n)
    (second : Remaps width middle after ((log + n) % width) ((phys + n) % width) m)
    (turn : n + m ≤ width) : Remaps width before after log phys (n + m) := by
  constructor
  · intro k inside
    by_cases early : k < n
    · have outside : ∀ j < m, (log + k) % width ≠ ((log + n) % width + j) % width := by
        intro j within
        rw [add_mod_mod]
        exact offsets_apart (by omega) (by omega)
      rw [second.frame _ (Nat.mod_lt _ (by omega)) outside]
      exact first.maps k early
    · have mapped := second.maps (k - n) (by omega)
      rw [add_mod_mod, add_mod_mod, Nat.add_sub_cancel' (Nat.le_of_not_lt early)] at mapped
      exact mapped
  · intro x inside outside
    have behind : ∀ j < m, x ≠ ((log + n) % width + j) % width := by
      intro j within
      rw [add_mod_mod]
      exact outside (n + j) (by omega)
    rw [second.frame x inside behind]
    exact first.frame x inside fun k early => outside k (by omega)

/-- A page that is translated like this is mapped. -/
theorem Remaps.of_page {page : Nat} (positive : 0 < page) (turn : page ∣ width)
    (logical : log < width) (physical : phys < width) (alignedLog : log % page = 0)
    (alignedPhys : phys % page = 0)
    (translates : ∀ x, after x =
      if x / page = log / page then some (phys + x % page) else before x) :
    Remaps width before after log phys page := by
  have within {start k : Nat} (below : start < width) (aligned : start % page = 0)
      (inside : k < page) : (start + k) % width = start + k := by
    obtain ⟨turns, whole⟩ := turn
    obtain ⟨pages, rfl⟩ := Nat.dvd_of_mod_eq_zero aligned
    rw [whole] at below ⊢
    have less : pages < turns := Nat.lt_of_mul_lt_mul_left below
    have most := Nat.mul_le_mul_left page (Nat.succ_le_of_lt less)
    rw [Nat.mul_succ] at most
    exact Nat.mod_eq_of_lt (by omega)
  constructor
  · intro k inside
    have same : (log + k) / page = log / page := by
      obtain ⟨pages, rfl⟩ := Nat.dvd_of_mod_eq_zero alignedLog
      rw [Nat.mul_add_div positive, Nat.div_eq_of_lt inside, Nat.mul_div_cancel_left _ positive,
        Nat.add_zero]
    have offset : (log + k) % page = k := by
      rw [Nat.add_mod, alignedLog, Nat.zero_add, Nat.mod_mod, Nat.mod_eq_of_lt inside]
    rw [within logical alignedLog inside, within physical alignedPhys inside, translates,
      if_pos same, offset]
  · intro x below outside
    rw [translates, if_neg]
    intro same
    refine outside (x % page) (Nat.mod_lt x positive) ?_
    rw [within logical alignedLog (Nat.mod_lt x positive), ← Nat.div_add_mod log page, alignedLog,
      ← same, Nat.add_zero, Nat.div_add_mod]

/-- An address is mapped to its place in the range, or was mapped there before. -/
theorem Remaps.origin (remaps : Remaps width before after log phys n) {x y : Nat}
    (inside : x < width) (mapped : after x = some y) :
    (∃ k < n, x = (log + k) % width ∧ y = (phys + k) % width) ∨ before x = some y := by
  by_cases within : ∃ k < n, x = (log + k) % width
  · obtain ⟨k, below, rfl⟩ := within
    rw [remaps.maps k below] at mapped
    exact Or.inl ⟨k, below, rfl, (Option.some.inj mapped).symm⟩
  · have outside : ∀ k < n, x ≠ (log + k) % width := fun k below same => within ⟨k, below, same⟩
    rw [remaps.frame x inside outside] at mapped
    exact Or.inr mapped

/-- Unmapping leaves no address mapped that was not. -/
theorem Unmaps.none_of_none (unmaps : Unmaps before after page) {x : Nat}
    (none_ : before x = none) :
    after x = none := by
  by_cases within : page x
  · exact unmaps.gone x within
  · rw [unmaps.frame x within, none_]

end Orcos.Lib.Remapping
