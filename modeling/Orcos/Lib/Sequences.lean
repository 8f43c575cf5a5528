import Mathlib.Algebra.Order.Ring.Int
import Mathlib.Data.List.Basic
import Mathlib.Data.List.Nodup
import Mathlib.Order.Defs.LinearOrder
import Mathlib.Algebra.BigOperators.Group.Finset.Piecewise
import Mathlib.Algebra.Order.BigOperators.Group.Finset

/-!
Insertion next to a given element of a sequence, and the list facts about
splitting a sequence at an element that the chain refinements use.
-/
namespace Orcos.Lib.Sequences

variable {α : Type*}

/-- A member of a duplicate-free sequence splits it in one way. -/
theorem exists_split {x : α} {xs : List α} (member : x ∈ xs) (nodup : xs.Nodup) :
    ∃ as bs, xs = as ++ x :: bs ∧ x ∉ as ∧ x ∉ bs := by
  obtain ⟨as, bs, rfl⟩ := List.append_of_mem member
  obtain ⟨fresh, _⟩ := List.nodup_cons.mp (List.nodup_middle.mp nodup)
  exact ⟨as, bs, rfl, fun left => fresh (by simp [left]), fun right => fresh (by simp [right])⟩

/-- The last element that meets a condition splits a sequence. -/
theorem split_of_find_reverse {p : α → Bool} {x : α} {xs : List α}
    (found : xs.reverse.find? p = some x) :
    ∃ as bs, xs = as ++ x :: bs ∧ p x = true ∧ ∀ b ∈ bs, p b = false := by
  obtain ⟨holds, front, back, split, fails⟩ := List.find?_eq_some_iff_append.mp found
  refine ⟨back.reverse, front.reverse, ?_, holds, fun b inB => ?_⟩
  · rw [← List.reverse_reverse xs, split]
    simp
  · simpa using fails b (by simpa using inB)

/-- Put `new` behind the last element that meets the condition, and in front
when no element does. -/
def insertBehind (p : α → Bool) (new : α) : List α → List α
  | [] => [new]
  | x :: xs => if (x :: xs).any p then x :: insertBehind p new xs else new :: x :: xs

section InsertBehind

variable {p : α → Bool} {new x : α} {xs as bs : List α}

theorem insertBehind_of_none (none : ∀ b ∈ xs, p b = false) :
    insertBehind p new xs = new :: xs := by
  cases xs with
  | nil => rfl
  | cons x xs =>
    rw [insertBehind, if_neg]
    rw [List.any_eq_true]
    rintro ⟨b, member, holds⟩
    exact absurd (none b member) (by simp [holds])

theorem insertBehind_split (holds : p x = true) (fails : ∀ b ∈ bs, p b = false) :
    insertBehind p new (as ++ x :: bs) = as ++ x :: new :: bs := by
  induction as with
  | nil =>
    rw [List.nil_append, insertBehind, if_pos (by simp [holds]), insertBehind_of_none fails]
    rfl
  | cons a as ih =>
    rw [List.cons_append, insertBehind, if_pos (by simp [holds]), ih]
    rfl

/-- The place is between elements of which the last one in front meets the
condition, and those behind do not. -/
theorem exists_insertBehind (p : α → Bool) (new : α) (xs : List α) :
    ∃ as bs, xs = as ++ bs ∧ insertBehind p new xs = as ++ new :: bs ∧
      (∀ b ∈ bs, p b = false) ∧ ∀ a ∈ as.getLast?, p a = true := by
  cases found : xs.reverse.find? p with
  | none =>
    have fails : ∀ b ∈ xs, p b = false := by
      intro b member
      simpa using List.find?_eq_none.mp found b (List.mem_reverse.mpr member)
    exact ⟨[], xs, rfl, insertBehind_of_none fails, fails, by simp⟩
  | some x =>
    obtain ⟨as, bs, rfl, holds, fails⟩ := split_of_find_reverse found
    refine ⟨as ++ [x], bs, by simp, ?_, fails, by simp [holds]⟩
    rw [insertBehind_split holds fails]
    simp

theorem perm_insertBehind (p : α → Bool) (new : α) (xs : List α) :
    (insertBehind p new xs).Perm (new :: xs) := by
  obtain ⟨as, bs, split, placed, _⟩ := exists_insertBehind p new xs
  rw [placed, split]
  exact List.perm_middle

@[simp] theorem mem_insertBehind : x ∈ insertBehind p new xs ↔ x = new ∨ x ∈ xs := by
  rw [(perm_insertBehind p new xs).mem_iff, List.mem_cons]

theorem insertBehind_all (all : ∀ a ∈ xs, p a = true) : insertBehind p new xs = xs ++ [new] := by
  obtain ⟨as, bs, rfl, placed, fails, _⟩ := exists_insertBehind p new xs
  cases bs with
  | nil => simpa using placed
  | cons b bs =>
    have := fails b (by simp)
    rw [all b (by simp)] at this
    cases this

/-- Insertion behind all elements with a key that is no larger keeps the order. -/
theorem sorted_insertBehind {β : Type*} [LinearOrder β] (key : α → β)
    (sorted : xs.Pairwise fun a b => key a ≤ key b) :
    (insertBehind (fun a => key a ≤ key new) new xs).Pairwise fun a b => key a ≤ key b := by
  obtain ⟨as, bs, rfl, placed, fails, last⟩ :=
    exists_insertBehind (fun a => decide (key a ≤ key new)) new xs
  obtain ⟨front, back, across⟩ := List.pairwise_append.mp sorted
  have high : ∀ b ∈ bs, key new ≤ key b := fun b member => by
    have := fails b member
    rw [decide_eq_false_iff_not, not_le] at this
    exact le_of_lt this
  have low : ∀ a ∈ as, key a ≤ key new := by
    intro a member
    rcases List.eq_nil_or_concat' as with rfl | ⟨front', z, rfl⟩
    · cases member
    · have bound : key z ≤ key new := by simpa using last z (by simp)
      rcases List.mem_append.mp member with inFront | inLast
      · exact le_trans ((List.pairwise_append.mp front).2.2 a inFront z (by simp)) bound
      · rw [List.mem_singleton.mp inLast]
        exact bound
  rw [placed]
  refine List.pairwise_append.mpr ⟨front, List.pairwise_cons.mpr ⟨high, back⟩, ?_⟩
  intro a inA b inB
  rcases List.mem_cons.mp inB with rfl | inB
  · exact low a inA
  · exact across a inA b inB

end InsertBehind

variable [DecidableEq α]

/-- Put `new` right behind the first occurrence of `old`. -/
def insertAfter (old new : α) : List α → List α
  | [] => []
  | x :: xs => if x = old then x :: new :: xs else x :: insertAfter old new xs

/-- Put `new` right before the first occurrence of `old`. -/
def insertBefore (old new : α) : List α → List α
  | [] => []
  | x :: xs => if x = old then new :: x :: xs else x :: insertBefore old new xs

theorem insertAfter_split {old new : α} {as bs : List α} (first : old ∉ as) :
    insertAfter old new (as ++ old :: bs) = as ++ old :: new :: bs := by
  induction as with
  | nil => simp [insertAfter]
  | cons a as ih =>
    obtain ⟨differ, later⟩ : old ≠ a ∧ old ∉ as := by simpa using first
    simp [insertAfter, Ne.symm differ, ih later]

theorem insertBefore_split {old new : α} {as bs : List α} (first : old ∉ as) :
    insertBefore old new (as ++ old :: bs) = as ++ new :: old :: bs := by
  induction as with
  | nil => simp [insertBefore]
  | cons a as ih =>
    obtain ⟨differ, later⟩ : old ≠ a ∧ old ∉ as := by simpa using first
    simp [insertBefore, Ne.symm differ, ih later]

theorem insertAfter_perm {old new : α} {xs : List α} (member : old ∈ xs) :
    (insertAfter old new xs).Perm (new :: xs) := by
  induction xs with
  | nil => cases member
  | cons x xs ih =>
    rw [insertAfter]
    by_cases same : x = old
    · rw [if_pos same]
      exact List.Perm.swap new x xs
    · rw [if_neg same]
      have later : old ∈ xs := (List.mem_cons.mp member).resolve_left (Ne.symm same)
      exact ((ih later).cons x).trans (List.Perm.swap new x xs)

theorem insertAfter_length_le (old new : α) (xs : List α) :
    (insertAfter old new xs).length ≤ xs.length + 1 := by
  induction xs with
  | nil => simp [insertAfter]
  | cons x xs ih =>
    by_cases found : x = old <;> simp [insertAfter, found]
    exact ih

theorem insertBefore_length_le (old new : α) (xs : List α) :
    (insertBefore old new xs).length ≤ xs.length + 1 := by
  induction xs with
  | nil => simp [insertBefore]
  | cons x xs ih =>
    by_cases found : x = old <;> simp [insertBefore, found]
    exact ih

theorem erase_split {x : α} {as bs : List α} (first : x ∉ as) :
    (as ++ x :: bs).erase x = as ++ bs := by
  rw [List.erase_append_right _ first, List.erase_cons_head]

/-- Moving an element that is not behind `x` to the place right behind `x`. -/
theorem insertAfter_erase {xs as bs : List α} {x y : α} (split : xs = as ++ x :: bs)
    (nodup : xs.Nodup) (differ : x ≠ y) (behind : y ∉ bs) :
    xs.erase y = (as ++ [x]).erase y ++ bs ∧
      insertAfter x y (xs.erase y) = (as ++ [x]).erase y ++ y :: bs := by
  subst split
  have notLeft : x ∉ as := by
    intro member
    exact (List.nodup_cons.mp (List.nodup_middle.mp nodup)).1 (by simp [member])
  have stillNot : x ∉ as.erase y := fun member => notLeft (List.mem_of_mem_erase member)
  have erased : (as ++ x :: bs).erase y = as.erase y ++ x :: bs := by
    by_cases inAs : y ∈ as
    · rw [List.erase_append_left _ inAs]
    · have absent : y ∉ as ++ x :: bs := by simp [inAs, Ne.symm differ, behind]
      rw [List.erase_of_not_mem absent, List.erase_of_not_mem inAs]
  have shorter : (as ++ [x]).erase y = as.erase y ++ [x] := by
    by_cases inAs : y ∈ as
    · rw [List.erase_append_left _ inAs]
    · have absent : y ∉ as ++ [x] := by simp [inAs, Ne.symm differ]
      rw [List.erase_of_not_mem absent, List.erase_of_not_mem inAs]
  rw [erased, shorter, insertAfter_split stillNot]
  simp

end Orcos.Lib.Sequences

/-!
Numbers kept beside a set: how they follow when one element joins or leaves, or
when one summand changes.
-/
namespace Orcos.Lib.Tallies

variable {ι : Type*} [DecidableEq ι] {s : Finset ι} {a : ι}

/-- One summand changes. -/
theorem sum_change {f g : ι → Nat} (inside : a ∈ s) (same : ∀ x ∈ s, x ≠ a → g x = f x) :
    ∑ x ∈ s, g x + f a = ∑ x ∈ s, f x + g a := by
  have rest : ∑ x ∈ s.erase a, g x = ∑ x ∈ s.erase a, f x :=
    Finset.sum_congr rfl fun x member =>
      same x (Finset.mem_of_mem_erase member) (Finset.ne_of_mem_erase member)
  rw [← Finset.add_sum_erase s g inside, ← Finset.add_sum_erase s f inside, rest]
  omega

variable {p q : ι → Prop} [DecidablePred p] [DecidablePred q]

/-- One element joins those that are counted. -/
theorem card_join (inside : a ∈ s) (new : ¬p a) (joined : ∀ x ∈ s, q x ↔ p x ∨ x = a) :
    (s.filter q).card = (s.filter p).card + 1 := by
  have whole : s.filter q = insert a (s.filter p) := by
    apply Finset.ext
    intro x
    rw [Finset.mem_insert, Finset.mem_filter, Finset.mem_filter]
    constructor
    · rintro ⟨member, counted⟩
      rcases (joined x member).mp counted with old | here
      · exact .inr ⟨member, old⟩
      · exact .inl here
    · rintro (rfl | ⟨member, counted⟩)
      · exact ⟨inside, (joined x inside).mpr (.inr rfl)⟩
      · exact ⟨member, (joined x member).mpr (.inl counted)⟩
  rw [whole, Finset.card_insert_of_notMem]
  intro again
  exact new (Finset.mem_filter.mp again).2

end Orcos.Lib.Tallies
