import Mathlib.Algebra.Order.Ring.Int
import Mathlib.Data.List.Basic
import Mathlib.Data.List.TakeWhile

/-!
The non-empty parts of a list between separators: they may be read off one by one
from the front, and the part behind the last separator from the end.
-/
namespace Orcos.Lib.Parts

variable {α : Type*} [DecidableEq α] {sep : α} {s front : List α}

def parts (sep : α) (s : List α) : List (List α) := (s.splitOn sep).filter (· ≠ [])

@[simp] theorem parts_nil : parts sep [] = [] := by
  simp [parts]

theorem parts_append (front s : List α) :
    parts sep (front ++ sep :: s) = parts sep front ++ parts sep s := by
  rw [parts, List.splitOn_append_cons_self, List.filter_append]
  rfl

theorem parts_single (plain : sep ∉ s) (some_ : s ≠ []) : parts sep s = [s] := by
  rw [parts, List.splitOn_eq_singleton plain]
  simp [some_]

@[simp] theorem parts_cons_self (s : List α) : parts sep (sep :: s) = parts sep s :=
  (parts_append [] s).trans (by rw [parts_nil, List.nil_append])

/-- Leading separators do not count. -/
theorem parts_dropWhile (s : List α) : parts sep (s.dropWhile (· = sep)) = parts sep s := by
  induction s with
  | nil => rfl
  | cons x s ih =>
    by_cases here : x = sep
    · subst here
      rw [List.dropWhile_cons_of_pos (by simp), parts_cons_self, ih]
    · rw [List.dropWhile_cons_of_neg (by simpa using here)]

/-- The first part, and those behind it. -/
theorem parts_takeWhile (first : s.takeWhile (· ≠ sep) ≠ []) :
    parts sep s = s.takeWhile (· ≠ sep) :: parts sep (s.dropWhile (· ≠ sep)) := by
  have plain : sep ∉ s.takeWhile (· ≠ sep) := fun member => by
    simpa using List.mem_takeWhile_imp member
  rcases rest : s.dropWhile (· ≠ sep) with _ | ⟨x, later⟩
  · have whole : s.takeWhile (· ≠ sep) = s := by
      have both := List.takeWhile_append_dropWhile (p := (· ≠ sep)) (l := s)
      rwa [rest, List.append_nil] at both
    rw [parts_nil]
    conv_lhs => rw [← whole]
    exact parts_single plain first
  · have here : x = sep := by
      have stop := List.head?_dropWhile_not (· ≠ sep) s
      rw [rest] at stop
      simpa using stop
    subst here
    have both := List.takeWhile_append_dropWhile (p := (· ≠ x)) (l := s)
    rw [rest] at both
    conv_lhs => rw [← both]
    rw [parts_append, parts_single plain first, parts_cons_self]
    rfl

theorem parts_eq_nil (empty : s.takeWhile (· ≠ sep) = []) (skipped : s.head? ≠ some sep) :
    s = [] := by
  cases s with
  | nil => rfl
  | cons x s =>
    have other : x ≠ sep := fun here => skipped (by rw [here]; rfl)
    rw [List.takeWhile_cons_of_pos (by simpa using other)] at empty
    cases empty

/-- No part has a separator in it. -/
theorem notMem_of_mem_parts {part : List α} (member : part ∈ parts sep s) : sep ∉ part := by
  rw [parts] at member
  have piece := (List.mem_filter.mp member).1
  clear member
  induction s generalizing part with
  | nil =>
    rw [List.splitOn_nil, List.mem_singleton] at piece
    subst piece
    exact List.not_mem_nil
  | cons x s ih =>
    rw [List.splitOn, List.splitOnP_cons_eq_if_modifyHead] at piece
    split at piece
    · rcases List.mem_cons.mp piece with rfl | later
      · exact List.not_mem_nil
      · exact ih later
    · next other =>
      have apart : ¬x = sep := by simpa using other
      rcases pieces : s.splitOn sep with _ | ⟨head, later⟩
      · exact absurd pieces (List.splitOnP_ne_nil _ s)
      · rw [List.splitOn] at pieces
        rw [pieces, List.modifyHead_cons] at piece
        rcases List.mem_cons.mp piece with rfl | behind
        · have inner : sep ∉ head := ih (by rw [List.splitOn, pieces]; exact List.mem_cons_self)
          rw [List.mem_cons, not_or]
          exact ⟨Ne.symm apart, inner⟩
        · exact ih (by rw [List.splitOn, pieces]; exact List.mem_cons_of_mem head behind)

/-- The part behind the last separator. -/
theorem parts_last (front : List α) {name : List α} (plain : sep ∉ name) :
    parts sep (front ++ sep :: name) = parts sep front ++ if name = [] then [] else [name] := by
  rw [parts_append]
  split
  · next empty => rw [empty, parts_nil]
  · next some_ => rw [parts_single plain some_]

end Orcos.Lib.Parts
