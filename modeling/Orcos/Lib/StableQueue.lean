import Mathlib.Data.List.Basic
import Mathlib.Data.List.Nodup
import Mathlib.Data.List.Perm.Basic
import Mathlib.Order.Basic
import Orcos.Lib.Sequences

/-!
Stable priority queues. A queue serves a list of arrivals when it holds them by
non-increasing key and, key by key, in the order of their arrival. The rules
say how the queue may follow an arrival, a departure and a change of keys, and
that its head is the longest waiting of the arrivals with the highest key.
-/
namespace Orcos.Lib.StableQueue
open Orcos.Lib.Sequences

variable {α β : Type*} [LinearOrder β]

structure Serves (key : α → β) (arrivals queue : List α) : Prop where
  sorted : queue.Pairwise (fun a b => key b ≤ key a)
  fifo : ∀ k, queue.filter (fun a => key a = k) = arrivals.filter (fun a => key a = k)

/-- The first of the arrivals whose key no arrival exceeds. -/
def longestWaiting (key : α → β) (arrivals : List α) : Option α :=
  arrivals.find? (fun a => ∀ b ∈ arrivals, key b ≤ key a)

variable {key key' : α → β} {arrivals queue : List α} {x : α}

theorem serves_self (sorted : queue.Pairwise (fun a b => key b ≤ key a)) :
    Serves key queue queue := ⟨sorted, fun _ => rfl⟩

theorem Serves.mem_iff (serves : Serves key arrivals queue) (a : α) :
    a ∈ queue ↔ a ∈ arrivals := by
  have group := serves.fifo (key a)
  constructor
  · intro member
    have : a ∈ queue.filter (fun b => key b = key a) := by simpa using member
    rw [group] at this
    exact List.mem_of_mem_filter this
  · intro member
    have : a ∈ arrivals.filter (fun b => key b = key a) := by simpa using member
    rw [← group] at this
    exact List.mem_of_mem_filter this

/-- Nothing is lost and nothing is duplicated. -/
theorem Serves.perm [DecidableEq α] (serves : Serves key arrivals queue) :
    queue.Perm arrivals := by
  refine List.perm_iff_count.mpr fun a => ?_
  have group := congrArg (List.count a) (serves.fifo (key a))
  rwa [List.count_filter (by simp), List.count_filter (by simp)] at group

/-- An arrival is queued behind everything of at least its key. -/
theorem Serves.arrive (as bs : List α) (serves : Serves key arrivals (as ++ bs))
    (higher : ∀ a ∈ as, key x ≤ key a) (lower : ∀ b ∈ bs, key b < key x) :
    Serves key (arrivals ++ [x]) (as ++ x :: bs) := by
  obtain ⟨sortedA, sortedB, across⟩ := List.pairwise_append.mp serves.sorted
  constructor
  · refine List.pairwise_append.mpr ⟨sortedA, ?_, ?_⟩
    · exact List.pairwise_cons.mpr ⟨fun b inB => (lower b inB).le, sortedB⟩
    · intro a inA b inB
      rcases List.mem_cons.mp inB with rfl | inB
      · exact higher a inA
      · exact across a inA b inB
  · intro k
    have old := serves.fifo k
    rw [List.filter_append] at old
    rw [List.filter_append, List.filter_append, ← old]
    by_cases own : key x = k
    · -- nothing of the same key stands behind the new arrival
      have none : bs.filter (fun b => key b = k) = [] := by
        refine List.filter_eq_nil_iff.mpr fun b inB => ?_
        have := lower b inB
        simp [← own, this.ne]
      simp [own, none]
    · simp [own]

/-- A departure keeps the order of the others. -/
theorem Serves.depart [DecidableEq α] (serves : Serves key arrivals queue) (nodup : queue.Nodup) :
    Serves key (arrivals.erase x) (queue.erase x) := by
  have nodupA : arrivals.Nodup := serves.perm.nodup_iff.mp nodup
  constructor
  · exact serves.sorted.sublist List.erase_sublist
  · intro k
    rw [nodup.erase_eq_filter, nodupA.erase_eq_filter, List.filter_comm, serves.fifo k,
      List.filter_comm]

/-- Departures of all that do not meet a condition. -/
theorem Serves.filter (serves : Serves key arrivals queue) (p : α → Bool) :
    Serves key (arrivals.filter p) (queue.filter p) := by
  constructor
  · exact serves.sorted.filter p
  · intro k
    rw [List.filter_comm, serves.fifo k, List.filter_comm]

/-- An arrival takes its place behind the last element of at least its key. -/
theorem Serves.insertBehind (serves : Serves key arrivals queue) (x : α) :
    Serves key (arrivals ++ [x]) (insertBehind (fun a => key x ≤ key a) x queue) := by
  obtain ⟨as, bs, split, placed, fails, last⟩ :=
    exists_insertBehind (fun a => decide (key x ≤ key a)) x queue
  have lower : ∀ b ∈ bs, key b < key x := by
    intro b member
    have := fails b member
    rwa [decide_eq_false_iff_not, not_le] at this
  have higher : ∀ a ∈ as, key x ≤ key a := by
    intro a member
    rcases List.eq_nil_or_concat' as with rfl | ⟨front, z, rfl⟩
    · cases member
    · have bound : key x ≤ key z := by simpa using last z (by simp)
      rcases List.mem_append.mp member with inFront | atEnd
      · have sorted := serves.sorted
        rw [split] at sorted
        have front := (List.pairwise_append.mp sorted).1
        exact bound.trans ((List.pairwise_append.mp front).2.2 a inFront z (by simp))
      · rw [List.mem_singleton.mp atEnd]
        exact bound
  rw [placed]
  rw [split] at serves
  exact serves.arrive as bs higher lower

/-- The last element found with at least the key of a given one stands last in
the order of arrival of its own key when it is that one itself. -/
theorem Serves.last_of_found (serves : Serves key arrivals queue)
    (found : queue.reverse.find? (fun a => key x ≤ key a) = some x) :
    (arrivals.filter (fun a => key a = key x)).getLast? = some x := by
  obtain ⟨as, bs, split, _, fails⟩ := split_of_find_reverse found
  have none : bs.filter (fun b => key b = key x) = [] := by
    refine List.filter_eq_nil_iff.mpr fun b member => ?_
    have lower := fails b member
    rw [decide_eq_false_iff_not, not_le] at lower
    simpa using lower.ne
  rw [← serves.fifo (key x), split, List.filter_append, List.filter_cons_of_pos (by simp), none,
    List.getLast?_concat]

/-- Keys of elements that are not waiting may change. -/
theorem Serves.rekey (serves : Serves key arrivals queue)
    (same : ∀ a ∈ arrivals, key' a = key a) : Serves key' arrivals queue := by
  have sameQ : ∀ a ∈ queue, key' a = key a := fun a inQ => same a ((serves.mem_iff a).mp inQ)
  constructor
  · refine serves.sorted.imp_of_mem fun inA inB le => ?_
    rw [sameQ _ inA, sameQ _ inB]
    exact le
  · intro k
    have group : ∀ {xs : List α}, (∀ a ∈ xs, key' a = key a) →
        xs.filter (fun a => key' a = k) = xs.filter (fun a => key a = k) :=
      fun sameXs => List.filter_congr fun a member => by rw [sameXs a member]
    rw [group sameQ, group same, serves.fifo k]

theorem Serves.head_eq_longestWaiting (serves : Serves key arrivals queue) :
    queue.head? = longestWaiting key arrivals := by
  cases queue with
  | nil =>
    have empty : arrivals = [] :=
      List.eq_nil_iff_forall_not_mem.mpr fun a inA => by simpa using (serves.mem_iff a).mpr inA
    simp [empty, longestWaiting]
  | cons x xs =>
    have top : ∀ b ∈ arrivals, key b ≤ key x := by
      intro b inA
      rcases List.mem_cons.mp ((serves.mem_iff b).mpr inA) with rfl | later
      · exact le_refl _
      · exact List.rel_of_pairwise_cons serves.sorted later
    have inA : x ∈ arrivals := (serves.mem_iff x).mp (by simp)
    -- among the arrivals, being of highest key is being of the key of `x`
    have highest : ∀ a ∈ arrivals,
        decide (∀ b ∈ arrivals, key b ≤ key a) = decide (key a = key x) := by
      intro a member
      refine decide_eq_decide.mpr ⟨fun all => ?_, fun same b inB => ?_⟩
      · exact le_antisymm (top a member) (all x inA)
      · exact (top b inB).trans same.ge
    rw [longestWaiting, ← List.head?_filter, List.filter_congr highest, ← serves.fifo (key x)]
    simp

end Orcos.Lib.StableQueue
