import Mathlib.Data.List.Basic
import Mathlib.Data.List.Nodup
import Mathlib.Logic.Function.Basic

/-!
Singly linked circles: each element leads to the next one and the last back to a fixed one, which
never leaves. An element is put in behind the fixed one and taken out behind the element that leads
to it, which a search from the fixed one finds; the search for an element that is not on the circle
never ends.
-/
namespace Orcos.Lib.Circles

variable {ι : Type*}

/-- Each element leads to the next one, the last to `back`. -/
def Linked (next : ι → ι) (back : ι) : List ι → Prop
  | [] => True
  | x :: xs => next x = xs.headD back ∧ Linked next back xs

structure Circle (next : ι → ι) (main : ι) (members : List ι) : Prop where
  linked : Linked next main (main :: members)
  nodup : (main :: members).Nodup

variable {next next' : ι → ι} {main back x y p : ι} {xs ys members : List ι}

theorem linked_append : Linked next back (xs ++ ys) ↔
    Linked next (ys.headD back) xs ∧ Linked next back ys := by
  induction xs with
  | nil => simp [Linked]
  | cons x xs ih =>
    have first : (xs ++ ys).headD back = xs.headD (ys.headD back) := by cases xs <;> rfl
    simp only [List.cons_append, Linked, ih, first, and_assoc]

theorem Linked.congr (linked : Linked next back xs) (same : ∀ y ∈ xs, next' y = next y) :
    Linked next' back xs := by
  induction xs with
  | nil => trivial
  | cons x xs ih =>
    exact ⟨(same x (List.mem_cons_self ..)).trans linked.1,
      ih linked.2 fun y member => same y (List.mem_cons_of_mem _ member)⟩

section Search

variable [DecidableEq ι]

/-- The first element from `x` on that leads to `y`. -/
def search (next : ι → ι) (y : ι) : Nat → ι → Option ι
  | 0, _ => none
  | fuel + 1, x => if next x = y then some x else search next y fuel (next x)

/-- It finds the element in front of `y` when it may go as far as that. -/
theorem search_linked (linked : Linked next back (x :: xs)) (member : y ∈ xs) :
    ∃ front p rest, x :: xs = front ++ p :: y :: rest ∧
      ∀ fuel, search next y fuel x = if front.length < fuel then some p else none := by
  induction xs generalizing x with
  | nil => cases member
  | cons z xs ih =>
    have leads : next x = z := linked.1
    by_cases here : z = y
    · refine ⟨[], x, xs, by rw [here]; rfl, fun fuel => ?_⟩
      cases fuel with
      | zero => rfl
      | succ fuel =>
        rw [search, leads, if_pos here, List.length_nil, if_pos (Nat.zero_lt_succ fuel)]
    · have later := (List.mem_cons.mp member).resolve_left fun same => here same.symm
      obtain ⟨front, p, rest, split, found⟩ := ih linked.2 later
      refine ⟨x :: front, p, rest, by rw [split]; rfl, fun fuel => ?_⟩
      cases fuel with
      | zero => rfl
      | succ fuel =>
        rw [search, leads, if_neg here, found, List.length_cons]
        simp only [Nat.add_lt_add_iff_right]

/-- All of a circle is visited and visited again. -/
theorem Circle.search_absent (circle : Circle next main members) (absent : y ∉ main :: members)
    (fuel : Nat) (member : x ∈ main :: members) : search next y fuel x = none := by
  induction fuel generalizing x with
  | zero => rfl
  | succ fuel ih =>
    obtain ⟨front, rest, split⟩ := List.append_of_mem member
    have linked := circle.linked
    rw [split] at linked
    have leads : next x = rest.headD main := (linked_append.mp linked).2.1
    have inside : next x ∈ main :: members := by
      rw [leads, split]
      cases rest with
      | nil =>
        rw [List.headD_nil, ← split]
        exact List.mem_cons_self ..
      | cons z rest => simp
    rw [search, if_neg fun same : next x = y => absent (same ▸ inside), ih inside]

end Search

section Changes

variable [DecidableEq ι]

/-- Link `x` to where the fixed element leads, then this to `x`. -/
def putIn (next : ι → ι) (main x : ι) : ι → ι :=
  Function.update (Function.update next x (next main)) main x

theorem Circle.putIn (circle : Circle next main members) (new : x ∉ main :: members) :
    Circle (putIn next main x) main (x :: members) := by
  obtain ⟨first, rest⟩ := circle.linked
  obtain ⟨fresh, nodup⟩ := List.nodup_cons.mp circle.nodup
  have other : x ≠ main := fun same => new (same ▸ List.mem_cons_self ..)
  have absent : x ∉ members := fun member => new (List.mem_cons_of_mem _ member)
  refine ⟨⟨?_, ?_, rest.congr fun z member => ?_⟩, ?_⟩
  · exact Function.update_self ..
  · rw [Circles.putIn, Function.update_of_ne other, Function.update_self]
    exact first
  · have apart : z ≠ main := fun same => fresh (same ▸ member)
    have different : z ≠ x := fun same => absent (same ▸ member)
    rw [Circles.putIn, Function.update_of_ne apart, Function.update_of_ne different]
  · refine List.nodup_cons.mpr ⟨?_, List.nodup_cons.mpr ⟨absent, nodup⟩⟩
    intro member
    exact (List.mem_cons.mp member).elim (fun same => other same.symm) fresh

/-- The circle of the fixed element alone. -/
theorem circle_alone (next : ι → ι) (main : ι) : Circle (Function.update next main main) main [] :=
  ⟨⟨Function.update_self .., trivial⟩, List.nodup_singleton main⟩

theorem circle_only (next : ι → ι) (other : x ≠ main) :
    Circle (Function.update (Function.update next x main) main x) main [x] := by
  refine ⟨⟨Function.update_self .., ?_, trivial⟩, by simp [other.symm]⟩
  rw [Function.update_of_ne other, Function.update_self]
  rfl

/-- Link the element in front of `y` to where `y` leads. -/
theorem Circle.takeOut {front rest : List ι} (circle : Circle next main members)
    (split : main :: members = front ++ p :: y :: rest) :
    Circle (Function.update next p (next y)) main (members.erase y) := by
  obtain ⟨linked, nodup⟩ := circle
  rw [split] at linked nodup
  obtain ⟨before, leads, onward, after⟩ := linked_append.mp linked
  obtain ⟨-, later, apart⟩ := List.nodup_append.mp nodup
  obtain ⟨fresh, later⟩ := List.nodup_cons.mp later
  have outside : y ∉ front := fun member => apart y member y (by simp) rfl
  have other : p ≠ y := fun same => fresh (same ▸ List.mem_cons_self ..)
  have whole : main :: members.erase y = front ++ p :: rest := by
    have first : main ≠ y := by
      intro same
      cases front with
      | nil => exact other ((List.cons.inj split).1.symm.trans same)
      | cons z front => exact outside ((List.cons.inj split).1 ▸ same ▸ List.mem_cons_self ..)
    rw [← List.erase_cons_tail (by simpa using first), split, List.erase_append_right _ outside,
      List.erase_cons_tail (by simpa using other), List.erase_cons_head]
  have kept : (front ++ p :: rest).Nodup :=
    nodup.sublist ((List.Sublist.refl front).append ((List.sublist_cons_self y rest).cons_cons p))
  refine ⟨?_, whole ▸ kept⟩
  rw [whole]
  refine linked_append.mpr ⟨before.congr fun z member => ?_, ?_, after.congr fun z member => ?_⟩
  · exact Function.update_of_ne (apart z member p (List.mem_cons_self ..)) ..
  · rw [Function.update_self]
    exact onward
  · exact Function.update_of_ne
      (fun same : z = p => fresh (same ▸ List.mem_cons_of_mem _ member)) ..

end Changes

end Orcos.Lib.Circles
