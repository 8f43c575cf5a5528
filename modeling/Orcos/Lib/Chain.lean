import Mathlib.Algebra.Order.Ring.Int
import Mathlib.Data.List.Basic
import Mathlib.Data.List.Nodup
import Mathlib.Data.List.Induction

/-!
Doubly linked chains. The two link fields of a heap of nodes are read as
functions `pred succ : ι → Option ι`, with `none` the null pointer, and a
segment says that a list of nodes is threaded through them in both directions
between two given boundary pointers.
-/
namespace Orcos.Lib.Chain

variable {ι : Type*}

/-- The nodes `xs` are linked in this order: the first points back to `before`,
the last points on to `after`, neighbours point at each other. -/
def Segment (pred succ : ι → Option ι) : Option ι → List ι → Option ι → Prop
  | _, [], _ => True
  | before, x :: xs, after =>
      pred x = before ∧ succ x = xs.head?.or after ∧ Segment pred succ (some x) xs after

/-- Nodes met by following `succ` from a pointer. -/
inductive Reach (succ : ι → Option ι) : Option ι → ι → Prop
  | here (x : ι) : Reach succ (some x) x
  | next (x y : ι) (rest : Reach succ (succ x) y) : Reach succ (some x) y

variable {pred succ pred' succ' : ι → Option ι} {before before' after after' : Option ι}
  {xs ys : List ι} {x : ι}

theorem segment_append : Segment pred succ before (xs ++ ys) after ↔
    Segment pred succ before xs (ys.head?.or after) ∧
      Segment pred succ (xs.getLast?.or before) ys after := by
  induction xs generalizing before with
  | nil => simp [Segment]
  | cons x xs ih =>
    have last : (x :: xs).getLast?.or before = xs.getLast?.or (some x) := by
      cases xs <;> simp [List.getLast?_cons]
    simp only [List.cons_append, Segment, ih, last, List.head?_append, Option.or_assoc]
    tauto

theorem Segment.congr (seg : Segment pred succ before xs after)
    (samePred : ∀ y ∈ xs, pred' y = pred y) (sameSucc : ∀ y ∈ xs, succ' y = succ y) :
    Segment pred' succ' before xs after := by
  induction xs generalizing before with
  | nil => trivial
  | cons x xs ih =>
    obtain ⟨hp, hs, rest⟩ := seg
    exact ⟨by rw [samePred x (by simp), hp], by rw [sameSucc x (by simp), hs],
      ih rest (fun y hy => samePred y (by simp [hy])) (fun y hy => sameSucc y (by simp [hy]))⟩

theorem Segment.succ_of_split (seg : Segment pred succ before (xs ++ x :: ys) after) :
    succ x = ys.head?.or after := (segment_append.mp seg).2.2.1

theorem Segment.pred_of_split (seg : Segment pred succ before (xs ++ x :: ys) after) :
    pred x = xs.getLast?.or before := (segment_append.mp seg).2.1

/-- The nodes reached from the first one are exactly the nodes of the chain. -/
theorem Segment.reach_iff (seg : Segment pred succ before xs none) (y : ι) :
    Reach succ xs.head? y ↔ y ∈ xs := by
  induction xs generalizing before with
  | nil =>
    simp only [List.head?_nil, List.not_mem_nil, iff_false]
    intro reach
    cases reach
  | cons x xs ih =>
    obtain ⟨_, hs, rest⟩ := seg
    have onward : succ x = xs.head? := by simpa using hs
    constructor
    · intro reach
      cases reach with
      | here => simp
      | next _ _ later =>
        rw [onward] at later
        exact List.mem_cons_of_mem _ ((ih rest).mp later)
    · intro member
      rcases List.mem_cons.mp member with rfl | later
      · exact .here _
      · refine .next _ _ ?_
        rw [onward]
        exact (ih rest).mpr later

variable [DecidableEq ι]

/-- Changing the onward pointer of the last node moves the end of the segment. -/
theorem Segment.retarget_after (seg : Segment pred succ before xs after) (nodup : xs.Nodup)
    (samePred : ∀ y ∈ xs, pred' y = pred y)
    (newSucc : ∀ y ∈ xs, succ' y = if xs.getLast? = some y then after' else succ y) :
    Segment pred' succ' before xs after' := by
  induction xs generalizing before with
  | nil => trivial
  | cons x xs ih =>
    obtain ⟨hp, hs, rest⟩ := seg
    obtain ⟨fresh, nodup⟩ := List.nodup_cons.mp nodup
    refine ⟨by rw [samePred x (by simp), hp], ?_, ?_⟩
    · rw [newSucc x (by simp)]
      cases xs with
      | nil => simp
      | cons y ys =>
        have notLast : (x :: y :: ys).getLast? ≠ some x := by
          intro eq
          have member : x ∈ y :: ys := List.mem_of_getLast? (by simpa using eq)
          exact fresh member
        rw [if_neg notLast, hs]
        simp
    · refine ih rest nodup (fun y hy => samePred y (by simp [hy])) (fun y hy => ?_)
      rw [newSucc y (by simp [hy])]
      have sameLast : (x :: xs).getLast? = xs.getLast? := by
        cases xs with
        | nil => simp at hy
        | cons z zs => simp
      rw [sameLast]

/-- Changing the back pointer of the first node moves the start of the segment. -/
theorem Segment.retarget_before (seg : Segment pred succ before xs after) (nodup : xs.Nodup)
    (newPred : ∀ y ∈ xs, pred' y = if xs.head? = some y then before' else pred y)
    (sameSucc : ∀ y ∈ xs, succ' y = succ y) :
    Segment pred' succ' before' xs after := by
  cases xs with
  | nil => trivial
  | cons x xs =>
    obtain ⟨_, hs, rest⟩ := seg
    obtain ⟨fresh, nodup⟩ := List.nodup_cons.mp nodup
    refine ⟨by simpa using newPred x (by simp), by rw [sameSucc x (by simp), hs], ?_⟩
    refine rest.retarget_after nodup (fun y hy => ?_) (fun y hy => ?_)
    · have different : x ≠ y := by rintro rfl; exact fresh hy
      rw [newPred y (by simp [hy])]
      simp [different]
    · rw [sameSucc y (by simp [hy])]
      -- the end of the rest keeps its pointer, which is `after` already
      split
      · next isLast =>
        obtain ⟨init, rfl⟩ := List.getLast?_eq_some_iff.mp isLast
        have tail := (segment_append.mp rest).2
        simpa [Segment] using tail.2.1
      · rfl

/-- Linking a node in between two neighbours. -/
theorem Segment.insert (seg : Segment pred succ before (xs ++ ys) after)
    (nodup : (xs ++ ys).Nodup)
    (predNew : pred' x = xs.getLast?.or before) (succNew : succ' x = ys.head?.or after)
    (predOld : ∀ y ∈ xs ++ ys, pred' y = if ys.head? = some y then some x else pred y)
    (succOld : ∀ y ∈ xs ++ ys, succ' y = if xs.getLast? = some y then some x else succ y) :
    Segment pred' succ' before (xs ++ x :: ys) after := by
  obtain ⟨left, right⟩ := segment_append.mp seg
  obtain ⟨nodupLeft, nodupRight, disjoint⟩ := List.nodup_append'.mp nodup
  refine segment_append.mpr ⟨?_, predNew, by simpa using succNew, ?_⟩
  · refine left.retarget_after nodupLeft (fun y hy => ?_) (fun y hy => ?_)
    · have notHead : ys.head? ≠ some y := fun eq => disjoint hy (List.mem_of_mem_head? eq)
      rw [predOld y (by simp [hy]), if_neg notHead]
    · simpa using succOld y (by simp [hy])
  · refine right.retarget_before nodupRight (fun y hy => predOld y (by simp [hy])) (fun y hy => ?_)
    have notLast : xs.getLast? ≠ some y := fun eq => disjoint (List.mem_of_getLast? eq) hy
    rw [succOld y (by simp [hy]), if_neg notLast]

/-- Unlinking a node joins its two neighbours. -/
theorem Segment.erase (seg : Segment pred succ before (xs ++ x :: ys) after)
    (nodup : (xs ++ x :: ys).Nodup)
    (predOld : ∀ y ∈ xs ++ ys,
      pred' y = if ys.head? = some y then xs.getLast?.or before else pred y)
    (succOld : ∀ y ∈ xs ++ ys,
      succ' y = if xs.getLast? = some y then ys.head?.or after else succ y) :
    Segment pred' succ' before (xs ++ ys) after := by
  obtain ⟨left, _, _, right⟩ := segment_append.mp seg
  obtain ⟨nodupLeft, nodupRest, disjoint⟩ := List.nodup_append'.mp nodup
  obtain ⟨_, nodupRight⟩ := List.nodup_cons.mp nodupRest
  refine segment_append.mpr ⟨?_, ?_⟩
  · refine left.retarget_after nodupLeft (fun y hy => ?_) (fun y hy => ?_)
    · have notHead : ys.head? ≠ some y := fun eq =>
        disjoint hy (List.mem_cons_of_mem _ (List.mem_of_mem_head? eq))
      rw [predOld y (by simp [hy]), if_neg notHead]
    · exact succOld y (by simp [hy])
  · refine right.retarget_before nodupRight (fun y hy => predOld y (by simp [hy])) (fun y hy => ?_)
    have notLast : xs.getLast? ≠ some y := fun eq =>
      disjoint (List.mem_of_getLast? eq) (List.mem_cons_of_mem _ hy)
    rw [succOld y (by simp [hy]), if_neg notLast]

end Orcos.Lib.Chain

/-!
Loops that follow the links of a structure they change. The link of a node is
read before the node is visited, and a visit may end the loop. Such a loop does
what the corresponding recursion over a list of the nodes does, as long as a
visit leaves the nodes still to come linked in their order.
-/
namespace Orcos.Lib.Walk
open Orcos.Lib.Chain

/-- What a visit leaves: go on with the next node, or end the loop. -/
inductive Visit (σ : Type*)
  | next (s : σ)
  | stop (s : σ)

variable {σ τ ι : Type*}

/-- The loop, for at most so many nodes; `none` when they do not suffice. -/
def walk (succ : σ → ι → Option ι) (visit : σ → ι → Option (Visit σ)) :
    Nat → σ → Option ι → Option σ
  | _, s, none => some s
  | 0, _, some _ => none
  | fuel + 1, s, some i =>
    let next := succ s i
    match visit s i with
    | none => none
    | some (.stop s) => some s
    | some (.next s) => walk succ visit fuel s next

/-- The recursion over the nodes. -/
def walkList (visit : τ → ι → Visit τ) : τ → List ι → τ
  | t, [] => t
  | t, i :: is =>
    match visit t i with
    | .stop t => t
    | .next t => walkList visit t is

/-- The loop follows the recursion: `rel` relates the states before each visit
to the nodes that remain, `final` those at the end. -/
theorem walk_refines {succ : σ → ι → Option ι} (visit : σ → ι → Option (Visit σ))
    (visitList : τ → ι → Visit τ) (rel : σ → τ → List ι → Prop) (final : σ → τ → Prop)
    (linked : ∀ s t i is, rel s t (i :: is) → succ s i = is.head?)
    (simulates : ∀ s t i is, rel s t (i :: is) →
      (∃ s' t', visit s i = some (.next s') ∧ visitList t i = .next t' ∧ rel s' t' is) ∨
        ∃ s' t', visit s i = some (.stop s') ∧ visitList t i = .stop t' ∧ final s' t')
    (ended : ∀ s t, rel s t [] → final s t) (is : List ι) (s : σ) (t : τ) (fuel : Nat)
    (start : rel s t is) (enough : is.length ≤ fuel) :
    ∃ s', walk succ visit fuel s is.head? = some s' ∧ final s' (walkList visitList t is) := by
  induction is generalizing s t fuel with
  | nil => exact ⟨s, by cases fuel <;> rfl, ended s t start⟩
  | cons i is ih =>
    cases fuel with
    | zero => simp at enough
    | succ fuel =>
      have next := linked s t i is start
      rw [List.head?_cons, walk, walkList, next]
      rcases simulates s t i is start with ⟨s', t', here, there, rest⟩ | ⟨s', t', here, there, last⟩
      · rw [here, there]
        exact ih s' t' fuel rest (by simpa using enough)
      · rw [here, there]
        exact ⟨s', rfl, last⟩

/-- What each visit of the recursion keeps, also when it is the last one. -/
theorem walkList_invariant {visit : τ → ι → Visit τ} (inv : τ → List ι → Prop)
    (kept : ∀ t i is, inv t (i :: is) →
      (∃ t', visit t i = .next t' ∧ inv t' is) ∨ ∃ t', visit t i = .stop t' ∧ inv t' [])
    (is : List ι) (t : τ) (start : inv t is) : inv (walkList visit t is) [] := by
  induction is generalizing t with
  | nil => exact start
  | cons i is ih =>
    rw [walkList]
    rcases kept t i is start with ⟨t', here, rest⟩ | ⟨t', here, last⟩
    · rw [here]
      exact ih t' rest
    · rw [here]
      exact last

/-- A loop that visits all nodes is a fold. -/
theorem walkList_next (f : τ → ι → τ) (t : τ) (is : List ι) :
    walkList (fun t i => .next (f t i)) t is = is.foldl f t := by
  induction is generalizing t with
  | nil => rfl
  | cons i is ih => exact ih (f t i)

/-- The nodes met along the links. -/
def follow (succ : ι → Option ι) : Nat → Option ι → List ι
  | _, none => []
  | 0, some _ => []
  | fuel + 1, some i => i :: follow succ fuel (succ i)

theorem follow_eq {pred succ : ι → Option ι} {is : List ι} {before : Option ι}
    (seg : Segment pred succ before is none) {fuel : Nat} (enough : is.length ≤ fuel) :
    follow succ fuel is.head? = is := by
  induction is generalizing before fuel with
  | nil => cases fuel <;> rfl
  | cons i is ih =>
    cases fuel with
    | zero => simp at enough
    | succ fuel =>
      obtain ⟨_, next, rest⟩ := seg
      rw [Option.or_none] at next
      rw [List.head?_cons, follow, next, ih rest (by simpa using enough)]

/-- The search against the links for the first node with a property. -/
def search (pred : ι → Option ι) (p : ι → Bool) : Nat → Option ι → Option (Option ι)
  | _, none => some none
  | 0, some _ => none
  | fuel + 1, some i => if p i then some (some i) else search pred p fuel (pred i)

/-- Along a chain the search from the end finds the last node with the property. -/
theorem search_eq_find {pred succ : ι → Option ι} {p : ι → Bool} {is : List ι}
    {after : Option ι} (seg : Segment pred succ none is after) {fuel : Nat}
    (enough : is.length ≤ fuel) : search pred p fuel is.getLast? = some (is.reverse.find? p) := by
  induction is using List.reverseRecOn generalizing after fuel with
  | nil => simp [search]
  | append_singleton is i ih =>
    obtain ⟨left, back, _⟩ := segment_append.mp seg
    rw [Option.or_none] at back
    cases fuel with
    | zero => simp at enough
    | succ fuel =>
      rw [List.getLast?_concat, search, back]
      by_cases found : p i = true
      · simp [found]
      · simp [found, ih left (by simpa using enough)]

end Orcos.Lib.Walk
