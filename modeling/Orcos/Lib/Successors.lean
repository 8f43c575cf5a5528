import Mathlib.Algebra.Order.Ring.Int
import Mathlib.Data.List.Basic
import Mathlib.Data.List.Induction
import Mathlib.Data.List.Nodup
import Mathlib.Logic.Function.Basic

/-!
Singly linked lists: a function gives the successor of each element or says that
it is the last. Lists that follow it to an end are without repetition and
determined by their first element. A forest is a set of elements whose lists
end, stay in the set and do not run into each other.
-/
namespace Orcos.Lib.Successors

variable {ι : Type*}

/-- Every element leads on to the next one, the last one leads nowhere. -/
def Linked (next : ι → Option ι) : List ι → Prop
  | [] => True
  | x :: xs => next x = xs.head? ∧ Linked next xs

variable {next next' : ι → Option ι} {x : ι} {xs ys : List ι}

instance Linked.decidable [DecidableEq ι] : (xs : List ι) → Decidable (Linked next xs)
  | [] => .isTrue trivial
  | x :: xs =>
    have : Decidable (Linked next xs) := Linked.decidable xs
    inferInstanceAs (Decidable (next x = xs.head? ∧ Linked next xs))

theorem Linked.tail (linked : Linked next (x :: xs)) : Linked next xs := linked.2

theorem Linked.of_append (linked : Linked next (xs ++ ys)) : Linked next ys := by
  induction xs with
  | nil => exact linked
  | cons x xs ih => exact ih linked.2

/-- The first element determines the rest. -/
theorem Linked.unique (linked : Linked next (x :: xs)) (linked' : Linked next (x :: ys)) :
    xs = ys := by
  induction xs generalizing x ys with
  | nil =>
    have last : ys.head? = none := linked'.1.symm.trans linked.1
    exact (List.head?_eq_none_iff.mp last).symm
  | cons y xs ih =>
    have first : ys.head? = some y := linked'.1.symm.trans linked.1
    obtain ⟨zs, rfl⟩ := List.head?_eq_some_iff.mp first
    rw [ih linked.2 linked'.2]

/-- A list that comes to an end repeats no element. -/
theorem Linked.nodup (linked : Linked next xs) : xs.Nodup := by
  induction xs with
  | nil => exact List.nodup_nil
  | cons x xs ih =>
    refine List.nodup_cons.mpr ⟨fun again => ?_, ih linked.2⟩
    obtain ⟨front, rest, rfl⟩ := List.append_of_mem again
    have same := (linked.2.of_append).unique linked
    have length := congrArg List.length same
    simp only [List.length_append, List.length_cons] at length
    omega

theorem Linked.congr (linked : Linked next xs) (same : ∀ y ∈ xs, next' y = next y) :
    Linked next' xs := by
  induction xs with
  | nil => trivial
  | cons x xs ih =>
    exact ⟨(same x (by simp)).trans linked.1, ih linked.2 fun y member => same y (by simp [member])⟩

/-- The list from an element on, with another rest behind one of its elements. -/
theorem Linked.replace {p : ι} {zs : List ι} (linked : Linked next (xs ++ p :: ys))
    (same : ∀ y ∈ xs, next' y = next y) (rest : Linked next' (p :: zs)) :
    Linked next' (xs ++ p :: zs) := by
  induction xs with
  | nil => exact rest
  | cons x xs ih =>
    refine ⟨?_, ih linked.2 fun y member => same y (by simp [member])⟩
    rw [same x (by simp), linked.1]
    cases xs <;> rfl

/-- An element leads to the one behind it. -/
theorem Linked.getElem? {i : Nat} (linked : Linked next xs) (here : xs[i]? = some x) :
    next x = xs[i + 1]? := by
  induction xs generalizing i with
  | nil => cases here
  | cons y xs ih =>
    cases i with
    | zero =>
      cases here
      rw [linked.1, List.head?_eq_getElem?]
      rfl
    | succ i => exact ih linked.2 here

/-- A list is continued by an element that its last one is made to lead to. -/
theorem Linked.concat {p : ι} (linked : Linked next (xs ++ [p])) (same : ∀ y ∈ xs, next' y = next y)
    (leads : next' p = some x) (ends : next' x = none) : Linked next' (xs ++ [p] ++ [x]) := by
  rw [List.append_assoc]
  exact linked.replace same ⟨leads, ends, trivial⟩

section Forest

variable {used used' : ι → Prop} {y : ι}

/-- The lists of the elements in use. -/
structure Forest (next : ι → Option ι) (used : ι → Prop) : Prop where
  closed : ∀ x y, used x → next x = some y → used y
  injective : ∀ x x' y, used x → used x' → next x = some y → next x' = some y → x = x'
  ends : ∀ x, used x → ∃ xs, Linked next (x :: xs)

/-- No list leads to the element. -/
def First (next : ι → Option ι) (used : ι → Prop) (x : ι) : Prop :=
  used x ∧ ∀ y, used y → next y ≠ some x

namespace Forest

variable (forest : Forest next used)

include forest

/-- A list stays among the elements in use. -/
theorem used_of_linked (start : used x) (linked : Linked next (x :: xs)) :
    ∀ y ∈ x :: xs, used y := by
  induction xs generalizing x with
  | nil => simpa using start
  | cons z xs ih =>
    intro y member
    rcases List.mem_cons.mp member with rfl | later
    · exact start
    · exact ih (forest.closed x z start linked.1) linked.2 y later

/-- Every element of a list but the first is led to by one before it. -/
theorem mem_or_first (start : used x) (linked : Linked next (x :: xs)) (inside : y ∈ xs) :
    ∃ z ∈ x :: xs, used z ∧ next z = some y := by
  induction xs generalizing x with
  | nil => cases inside
  | cons w xs ih =>
    rcases List.mem_cons.mp inside with rfl | later
    · exact ⟨x, by simp, start, linked.1⟩
    · obtain ⟨z, member, found⟩ := ih (forest.closed x w start linked.1) linked.2 later
      exact ⟨z, by simp [member], found⟩

/-- An element that leads into a list whose first element is led to by none lies in
it. -/
theorem mem_of_next {z : ι} (first : First next used x) (linked : Linked next (x :: xs))
    (start : used z) (leads : next z = some y) (inside : y ∈ x :: xs) : z ∈ x :: xs := by
  rcases List.mem_cons.mp inside with rfl | later
  · exact absurd leads (first.2 z start)
  · obtain ⟨w, member, usedW, leadsW⟩ := forest.mem_or_first first.1 linked later
    rwa [forest.injective z w y start usedW leads leadsW]

/-- The lists of two elements that none leads to have nothing in common. -/
theorem disjoint (first : First next used x) (first' : First next used y) (other : x ≠ y)
    (linked : Linked next (x :: xs)) (linked' : Linked next (y :: ys)) :
    List.Disjoint (x :: xs) (y :: ys) := by
  have apart (front : List ι) : ∀ w rest, x :: xs = front ++ w :: rest → w ∉ y :: ys := by
    -- from the front on, since a common element has a common one before it
    induction front using List.reverseRecOn with
    | nil =>
      intro w rest whole inside
      obtain rfl : x = w := (List.cons.inj whole).1
      rcases List.mem_cons.mp inside with same | later
      · exact other same
      · obtain ⟨z, _, usedZ, leads⟩ := forest.mem_or_first first'.1 linked' later
        exact first.2 z usedZ leads
    | append_singleton front v ih =>
      intro w rest whole inside
      rw [List.append_assoc, List.singleton_append] at whole
      have leads : next v = some w := by
        rw [whole] at linked
        exact linked.of_append.1
      have usedV := forest.used_of_linked first.1 linked v (by rw [whole]; simp)
      exact ih v (w :: rest) whole (forest.mem_of_next first' linked' usedV leads inside)
  intro w inside inside'
  obtain ⟨front, rest, whole⟩ := List.append_of_mem inside
  exact apart front w rest whole inside'

/-- A new element that is a list of its own. -/
theorem add [DecidableEq ι] (fresh : ¬used x) (ends : next' x = none)
    (same : ∀ y, used y → next' y = next y) :
    Forest next' fun y => used y ∨ y = x := by
  refine ⟨?_, ?_, ?_⟩
  · rintro y z (known | rfl) leads
    · exact .inl (forest.closed y z known ((same y known).symm.trans leads))
    · rw [ends] at leads
      cases leads
  · rintro y y' z (known | rfl) (known' | rfl) leads leads'
    · exact forest.injective y y' z known known' ((same y known).symm.trans leads)
        ((same y' known').symm.trans leads')
    · rw [ends] at leads'
      cases leads'
    · rw [ends] at leads
      cases leads
    · rfl
  · rintro y (known | rfl)
    · obtain ⟨ys, linked⟩ := forest.ends y known
      exact ⟨ys, linked.congr fun z member => same z (forest.used_of_linked known linked z member)⟩
    · exact ⟨[], ends, trivial⟩

/-- An element leads to another one whose list is not its own and that none leads
to. -/
theorem link [DecidableEq ι] {p : ι} (start : used p) (first : First next used x)
    (linked : Linked next (x :: xs)) (apart : p ∉ x :: xs) (leads : next' p = some x)
    (same : ∀ y, used y → y ≠ p → next' y = next y) : Forest next' used := by
  have kept : Linked next' (x :: xs) := linked.congr fun z member =>
    same z (forest.used_of_linked first.1 linked z member) fun here => apart (here ▸ member)
  refine ⟨?_, ?_, ?_⟩
  · intro y z known toZ
    by_cases here : y = p
    · rw [here, leads] at toZ
      cases toZ
      exact first.1
    · exact forest.closed y z known ((same y known here).symm.trans toZ)
  · intro y y' z known known' toZ toZ'
    by_cases here : y = p
    · by_cases here' : y' = p
      · rw [here, here']
      · rw [here, leads] at toZ
        cases toZ
        exact absurd ((same y' known' here').symm.trans toZ') (first.2 y' known')
    · by_cases here' : y' = p
      · rw [here', leads] at toZ'
        cases toZ'
        exact absurd ((same y known here).symm.trans toZ) (first.2 y known)
      · exact forest.injective y y' z known known' ((same y known here).symm.trans toZ)
          ((same y' known' here').symm.trans toZ')
  · intro y known
    obtain ⟨ys, linked'⟩ := forest.ends y known
    by_cases inside : p ∈ y :: ys
    · obtain ⟨front, rest, whole⟩ := List.append_of_mem inside
      have members := forest.used_of_linked known linked'
      have fresh := linked'.nodup
      rw [whole] at linked' members fresh
      have long : Linked next' (front ++ p :: x :: xs) := by
        refine linked'.replace (fun z member => same z (members z (by simp [member])) ?_)
          ⟨leads, kept⟩
        rintro rfl
        exact List.disjoint_of_nodup_append fresh member (by simp)
      cases front with
      | nil =>
        obtain rfl : y = p := (List.cons.inj whole).1
        exact ⟨_, long⟩
      | cons v front =>
        obtain rfl : y = v := (List.cons.inj whole).1
        exact ⟨_, long⟩
    · exact ⟨ys, linked'.congr fun z member =>
        same z (forest.used_of_linked known linked' z member) fun here => inside (here ▸ member)⟩

/-- An element is made the last one of its list. -/
theorem cut [DecidableEq ι] {p : ι} (last : next' p = none)
    (same : ∀ y, used y → y ≠ p → next' y = next y) : Forest next' used := by
  have old {y z : ι} (known : used y) (toZ : next' y = some z) : next y = some z := by
    by_cases here : y = p
    · rw [here, last] at toZ
      cases toZ
    · exact (same y known here).symm.trans toZ
  refine ⟨fun y z known toZ => forest.closed y z known (old known toZ),
    fun y y' z known known' toZ toZ' =>
      forest.injective y y' z known known' (old known toZ) (old known' toZ'), ?_⟩
  intro y known
  obtain ⟨ys, linked⟩ := forest.ends y known
  by_cases inside : p ∈ y :: ys
  · obtain ⟨front, rest, whole⟩ := List.append_of_mem inside
    have members := forest.used_of_linked known linked
    have fresh := linked.nodup
    rw [whole] at linked members fresh
    have short : Linked next' (front ++ [p]) := by
      refine linked.replace (fun z member => same z (members z (by simp [member])) ?_)
        ⟨last, trivial⟩
      rintro rfl
      exact List.disjoint_of_nodup_append fresh member (by simp)
    cases front with
    | nil =>
      obtain rfl : y = p := (List.cons.inj whole).1
      exact ⟨_, short⟩
    | cons v front =>
      obtain rfl : y = v := (List.cons.inj whole).1
      exact ⟨_, short⟩
  · exact ⟨ys, linked.congr fun z member =>
      same z (forest.used_of_linked known linked z member) fun here => inside (here ▸ member)⟩

/-- The list of an element that none leads to is taken out. -/
theorem remove (first : First next used x) (linked : Linked next (x :: xs))
    (left : ∀ y, used' y ↔ used y ∧ y ∉ x :: xs) (same : ∀ y, used' y → next' y = next y) :
    Forest next' used' := by
  have old {y z : ι} (known : used' y) (toZ : next' y = some z) : next y = some z :=
    (same y known).symm.trans toZ
  have stays {y z : ι} (known : used' y) (toZ : next y = some z) : used' z := by
    obtain ⟨usedY, apart⟩ := (left y).mp known
    exact (left z).mpr ⟨forest.closed y z usedY toZ,
      fun inside => apart (forest.mem_of_next first linked usedY toZ inside)⟩
  refine ⟨fun y z known toZ => stays known (old known toZ), fun y y' z known known' toZ toZ' =>
    forest.injective y y' z ((left y).mp known).1 ((left y').mp known').1 (old known toZ)
      (old known' toZ'), ?_⟩
  intro y known
  obtain ⟨ys, linked'⟩ := forest.ends y ((left y).mp known).1
  have members : ∀ z ∈ y :: ys, used' z := by
    clear same
    induction ys generalizing y with
    | nil => simpa using known
    | cons w ys ih =>
      intro z member
      rcases List.mem_cons.mp member with rfl | later
      · exact known
      · exact ih w (stays known linked'.1) linked'.2 z later
  exact ⟨ys, linked'.congr fun z member => same z (members z member)⟩

end Forest

end Forest

end Orcos.Lib.Successors

/-!
Strands: a family of lists that follow a successor function to their ends, are apart
from each other and hold between them all elements in use. A strand grows at its end
and is dropped as a whole; an empty list stands for a strand that is not there.
-/
namespace Orcos.Lib.Successors

variable {ι α : Type*}

structure Strands (next : ι → Option ι) (used : ι → Prop) (strand : α → List ι) : Prop where
  linked : ∀ a, Linked next (strand a)
  covers : ∀ x, used x ↔ ∃ a, x ∈ strand a
  apart : ∀ a b x, x ∈ strand a → x ∈ strand b → a = b

namespace Strands

variable {next next' : ι → Option ι} {used used' : ι → Prop} {strand : α → List ι} {a : α}
  {xs : List ι}

theorem used_of_mem (strands : Strands next used strand) {x : ι} (member : x ∈ strand a) : used x :=
  (strands.covers x).mpr ⟨a, member⟩

/-- No strand where nothing is in use. -/
theorem none (unused : ∀ x, ¬used x) : Strands next used fun _ : α => [] := by
  refine ⟨fun _ => trivial, fun x => iff_of_false (unused x) ?_, fun _ _ x member => ?_⟩
  · rintro ⟨_, member⟩
    cases member
  · cases member

variable [DecidableEq α]

/-- New elements are put behind one strand. -/
theorem grow (strands : Strands next used strand) (whole : Linked next' (strand a ++ xs))
    (fresh : ∀ x ∈ xs, ¬used x) (more : ∀ x, used' x ↔ used x ∨ x ∈ xs)
    (same : ∀ x, used x → x ∉ strand a → next' x = next x) :
    Strands next' used' (Function.update strand a (strand a ++ xs)) := by
  refine ⟨fun b => ?_, fun x => ?_, fun b c x inB inC => ?_⟩
  · by_cases here : b = a
    · subst here
      rwa [Function.update_self]
    · rw [Function.update_of_ne here]
      exact (strands.linked b).congr fun x member => same x (strands.used_of_mem member)
        fun inside => here (strands.apart b a x member inside)
  · rw [more, strands.covers]
    constructor
    · rintro (⟨b, member⟩ | new)
      · by_cases here : b = a
        · subst here
          exact ⟨b, by rw [Function.update_self]; exact List.mem_append_left _ member⟩
        · exact ⟨b, by rwa [Function.update_of_ne here]⟩
      · exact ⟨a, by rw [Function.update_self]; exact List.mem_append_right _ new⟩
    · rintro ⟨b, member⟩
      by_cases here : b = a
      · subst here
        rw [Function.update_self] at member
        exact (List.mem_append.mp member).imp_left fun old => ⟨b, old⟩
      · rw [Function.update_of_ne here] at member
        exact .inl ⟨b, member⟩
  · -- an element of two strands was in both before, since a new one was in none
    by_cases atB : b = a
    · by_cases atC : c = a
      · exact atB.trans atC.symm
      · subst atB
        rw [Function.update_self] at inB
        rw [Function.update_of_ne atC] at inC
        rcases List.mem_append.mp inB with old | new
        · exact strands.apart b c x old inC
        · exact absurd (strands.used_of_mem inC) (fresh x new)
    · rw [Function.update_of_ne atB] at inB
      by_cases atC : c = a
      · subst atC
        rw [Function.update_self] at inC
        rcases List.mem_append.mp inC with old | new
        · exact strands.apart b c x inB old
        · exact absurd (strands.used_of_mem inB) (fresh x new)
      · rw [Function.update_of_ne atC] at inC
        exact strands.apart b c x inB inC

/-- A strand is dropped. -/
theorem drop (strands : Strands next used strand) (left : ∀ x, used' x ↔ used x ∧ x ∉ strand a)
    (same : ∀ x, x ∉ strand a → next' x = next x) :
    Strands next' used' (Function.update strand a []) := by
  have old {b : α} {x : ι} (member : x ∈ Function.update strand a [] b) : b ≠ a ∧ x ∈ strand b := by
    by_cases here : b = a
    · rw [here, Function.update_self] at member
      cases member
    · rw [Function.update_of_ne here] at member
      exact ⟨here, member⟩
  refine ⟨fun b => ?_, fun x => ?_, fun b c x inB inC => ?_⟩
  · by_cases here : b = a
    · rw [here, Function.update_self]
      trivial
    · rw [Function.update_of_ne here]
      exact (strands.linked b).congr fun x member => same x
        fun inside => here (strands.apart b a x member inside)
  · rw [left, strands.covers]
    constructor
    · rintro ⟨⟨b, member⟩, outside⟩
      have other : b ≠ a := fun here => outside (here ▸ member)
      exact ⟨b, by rwa [Function.update_of_ne other]⟩
    · rintro ⟨b, member⟩
      obtain ⟨other, member⟩ := old member
      exact ⟨⟨b, member⟩, fun inside => other (strands.apart b a x member inside)⟩
  · exact strands.apart b c x (old inB).2 (old inC).2

end Strands

end Orcos.Lib.Successors
