import Mathlib.Algebra.Order.Ring.Int
import Mathlib.Data.List.Basic
import Mathlib.Logic.Function.Basic

/-!
Circular arrays. Positions wrap around by one subtraction, and a window is the
sequence of a number of cells from a start position on.
-/
namespace Orcos.Lib.Ring

/-- Reduction modulo `b` of an `a` below `2 * b`. -/
def modulo {α : Type} [LE α] [DecidableLE α] [Sub α] (a b : α) : α := if a ≥ b then a - b else a

variable {size start j k : Nat}

theorem modulo_lt (inside : start < size) (small : k ≤ size) : modulo (start + k) size < size := by
  unfold modulo
  split <;> omega

theorem modulo_zero (inside : start < size) : modulo (start + 0) size = start := by
  unfold modulo
  split <;> omega

theorem modulo_natCast (a b : Nat) : modulo (a : Int) (b : Int) = (modulo a b : Nat) := by
  unfold modulo
  split <;> split <;> omega

/-- A full turn leads back to the start. -/
theorem modulo_turn : modulo (start + size) size = start := by
  unfold modulo
  split <;> omega

theorem modulo_inj (left : j < size) (right : k < size) :
    modulo (start + j) size = modulo (start + k) size ↔ j = k := by
  unfold modulo
  split <;> split <;> omega

theorem modulo_ne_start (positive : 0 < k) (small : k < size) :
    modulo (start + k) size ≠ start := by
  unfold modulo
  split <;> omega

/-- Wrapping in the middle of a walk makes no difference. -/
theorem modulo_add (inside : start < size) (far : j + k ≤ size) :
    modulo (modulo (start + j) size + k) size = modulo (start + (j + k)) size := by
  unfold modulo
  split <;> split <;> split <;> omega

/-- The contents of `n` cells from the position `start` on. -/
def window {α : Type} (cells : Nat → α) (size start n : Nat) : List α :=
  (List.range n).map (fun k => cells (modulo (start + k) size))

variable {α : Type} {cells cells' : Nat → α} {n : Nat}

@[simp] theorem window_zero : window cells size start 0 = [] := rfl

@[simp] theorem window_length : (window cells size start n).length = n := by simp [window]

theorem window_getElem? (inside : k < n) :
    (window cells size start n)[k]? = some (cells (modulo (start + k) size)) := by
  simp [window, inside]

/-- Two windows of one length are equal when their cells are. -/
theorem window_congr {start' : Nat}
    (same : ∀ k < n, cells' (modulo (start' + k) size) = cells (modulo (start + k) size)) :
    window cells' size start' n = window cells size start n :=
  List.map_congr_left fun k member => same k (List.mem_range.mp member)

theorem window_concat : window cells size start (n + 1) =
    window cells size start n ++ [cells (modulo (start + n) size)] := by
  simp [window, List.range_succ]

theorem window_cons (inside : start < size) (fits : n < size) :
    window cells size start (n + 1) =
      cells start :: window cells size (modulo (start + 1) size) n := by
  rw [window, List.range_succ_eq_map, List.map_cons, List.map_map, modulo_zero inside]
  congr 1
  refine List.map_congr_left fun k member => ?_
  have := List.mem_range.mp member
  rw [modulo_add inside (by omega), Function.comp_apply, Nat.succ_eq_one_add]

/-- Storing behind the end of a window. -/
theorem window_update_concat (room : n < size) (v : α) :
    window (Function.update cells (modulo (start + n) size) v) size start (n + 1) =
      window cells size start n ++ [v] := by
  rw [window_concat, Function.update_self]
  congr 1
  refine window_congr fun k inWindow => Function.update_of_ne ?_ v cells
  rw [ne_eq, modulo_inj (by omega) room]
  omega

/-- Storing right before a window. -/
theorem window_update_start (inside : start < size) (fits : n < size) (v : α) :
    window (Function.update cells start v) size (modulo (start + 1) size) n =
      window cells size (modulo (start + 1) size) n := by
  refine window_congr fun k inWindow => Function.update_of_ne ?_ v cells
  rw [modulo_add inside (by omega)]
  exact modulo_ne_start (by omega) (by omega)

/-- A window falls into a window of its first cells and one that goes on from there. -/
theorem window_append (inside : start < size) (fits : j + k ≤ size) :
    window cells size start (j + k) =
      window cells size start j ++ window cells size (modulo (start + j) size) k := by
  unfold window
  rw [List.range_add, List.map_append, List.map_map]
  congr 1
  refine List.map_congr_left fun i member => ?_
  have := List.mem_range.mp member
  rw [modulo_add inside (by omega), Function.comp_apply]

theorem window_take (inside : start < size) (fits : n ≤ size) (part : k ≤ n) :
    (window cells size start n).take k = window cells size start k := by
  obtain ⟨rest, rfl⟩ := Nat.exists_eq_add_of_le part
  rw [window_append inside fits, List.take_left' window_length]

theorem window_drop (inside : start < size) (fits : n ≤ size) (part : k ≤ n) :
    (window cells size start n).drop k =
      window cells size (modulo (start + k) size) (n - k) := by
  obtain ⟨rest, rfl⟩ := Nat.exists_eq_add_of_le part
  rw [window_append inside fits, List.drop_left' window_length, Nat.add_sub_cancel_left]

/-- A window that does not reach the end. -/
theorem window_straight (short : start + n ≤ size) :
    window cells size start n = (List.range n).map fun k => cells (start + k) := by
  refine List.map_congr_left fun k member => ?_
  have := List.mem_range.mp member
  rw [modulo, if_neg (by omega)]

/-- A window over the end, in two pieces. -/
theorem window_wrapped (inside : start < size) (fits : n ≤ size) (long : size ≤ start + n) :
    window cells size start n =
      ((List.range (size - start)).map fun k => cells (start + k)) ++
        (List.range (n - (size - start))).map fun k => cells (0 + k) := by
  have whole : n = (size - start) + (n - (size - start)) := by omega
  have turned : modulo (start + (size - start)) size = 0 := by
    rw [modulo, if_pos (by omega)]
    omega
  conv_lhs => rw [whole]
  rw [window_append inside (by omega), turned, window_straight (by omega),
    window_straight (by omega)]

/-- The contents of a window, cell by cell. -/
theorem window_eq_map {bytes : Nat → α}
    (same : ∀ k < n, cells (modulo (start + k) size) = bytes k) :
    window cells size start n = (List.range n).map bytes :=
  List.map_congr_left fun k member => same k (List.mem_range.mp member)

end Orcos.Lib.Ring
