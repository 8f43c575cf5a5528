import Orcos.Lib.Runs
import Orcos.Source.ArrayList

/-!
# Array lists: the ring buffer and the bounded sequence

The specification is a sequence that takes at most `max` items. A run of the
ring buffer shows the same contents and results as the sequence exactly when
none of its steps meets one of two gaps of the source: `insertItemAt` copies
the cell behind the last item even when that cell wraps around to the head, and
`getItemAt` does not compare its position with the number of items.
-/
namespace Orcos.Guarantees.ArrayLists
open Orcos.Lib.Runs Orcos.Lib.Ring Orcos.Source Orcos.Source.ArrayList

inductive Call (ι : Type)
  | addTail (x : Option ι)
  | addHead (x : Option ι)
  | insertItemAt (pos : Int) (x : Option ι)
  | removeItem (x : Option ι)
  | removeItemAt (pos : Int)
  | removeHead
  | removeTail
  | getHead
  | getTail
  | getItemAt (i : Int)
  | getSize

/-- What a call returns; `undefined` stands for an access outside the array. -/
inductive Answer (ι : Type)
  | code (e : ErrorT)
  | item (x : Option ι)
  | number (n : Nat)
  | undefined
  deriving DecidableEq

variable {ι : Type} [DecidableEq ι]

/-- The call as ArrayList.cc performs it. -/
def perform (s : ArrayList ι) : Call ι → ArrayList ι × Answer ι
  | .addTail x => Prod.map id .code (s.addTail x)
  | .addHead x => Prod.map id .code (s.addHead x)
  | .insertItemAt pos x => Prod.map id .code (s.insertItemAt pos x)
  | .removeItem x => Prod.map id .item (s.removeItem x)
  | .removeItemAt pos => Prod.map id .item (s.removeItemAt pos)
  | .removeHead => Prod.map id .item s.removeHead
  | .removeTail => Prod.map id .item s.removeTail
  | .getHead => (s, .item s.getHead)
  | .getTail => (s, .item s.getTail)
  | .getItemAt i => (s, (s.getItemAt i).elim .undefined .item)
  | .getSize => (s, .number s.size)

/-- The call on a sequence of at most `max` items. -/
def performOn (max : Nat) (xs : List (Option ι)) : Call ι → List (Option ι) × Answer ι
  | .addTail x =>
    if xs.length < max then (xs ++ [x], .code cOk) else (xs, .code cDatabaseOverflow)
  | .addHead x =>
    if xs.length < max then (x :: xs, .code cOk) else (xs, .code cDatabaseOverflow)
  | .insertItemAt pos x =>
    if xs.length < max then
      if 0 ≤ pos ∧ pos ≤ xs.length then (xs.insertIdx pos.toNat x, .code cOk)
      else (xs, .code cIndexOutOfBounds)
    else (xs, .code cDatabaseOverflow)
  | .removeItem x => if x ∈ xs then (xs.erase x, .item x) else (xs, .item none)
  | .removeItemAt pos =>
    if 0 ≤ pos ∧ pos < xs.length then (xs.eraseIdx pos.toNat, .item xs[pos.toNat]?.join)
    else (xs, .item none)
  | .removeHead => (xs.tail, .item xs.head?.join)
  | .removeTail => (xs.dropLast, .item xs.getLast?.join)
  | .getHead => (xs, .item xs.head?.join)
  | .getTail => (xs, .item xs.getLast?.join)
  | .getItemAt i => (xs, .item (if 0 ≤ i ∧ i < xs.length then xs[i.toNat]?.join else none))
  | .getSize => (xs, .number xs.length)

/-- The calls the ring buffer answers as the sequence does: an accepted
insertion at a position finds two free cells, or the free cell holds what the
head holds; an item is asked for by its position, or by that of an empty cell. -/
def Proper (s : ArrayList ι) : Call ι → Prop
  | .insertItemAt pos _ =>
    s.numEntries = s.maxEntries ∨ ¬ (0 ≤ pos ∧ pos ≤ s.numEntries) ∨
      s.numEntries + 1 < s.maxEntries ∨ s.item s.numEntries = s.item 0
  | .getItemAt i =>
    (0 ≤ i ∧ i < s.numEntries) ∨ ∃ p ∈ s.itemPosition i, s.entry p = none
  | _ => True

variable {s : ArrayList ι}

/-- Inserting in the copied items and in the items comes to the same when the
copy behind the last item does not change the head. -/
theorem insertItemAt_exact (valid : Valid s) {pos : Nat} (stored : pos ≤ s.numEntries)
    (room : s.numEntries < s.maxEntries) (x : Option ι) :
    (s.insertItemAt pos x).1.contents = s.contents.insertIdx pos x ↔
      s.numEntries + 1 < s.maxEntries ∨ s.item s.numEntries = s.item 0 := by
  obtain ⟨_, effect, _⟩ := insertItemAt_effect valid stored room x
  rw [effect, (List.insertIdx_injective pos x).eq_iff, copiedContents]
  by_cases full : s.numEntries + 1 = s.maxEntries
  · rw [if_pos full]
    by_cases empty : s.numEntries = 0
    · simp [List.eq_nil_of_length_eq_zero (contents_length.trans empty), empty]
    · have first := contents_getElem? (s := s) (k := 0) (by omega)
      constructor
      · intro same
        have head := congrArg (fun xs => xs[0]?) same
        simp only [first] at head
        rw [List.getElem?_set_self (by simp; omega)] at head
        exact .inr (Option.some.inj head)
      · rintro (spare | same)
        · omega
        · rw [same]
          obtain ⟨_, value⟩ := List.getElem?_eq_some_iff.mp first
          rw [← value, List.set_getElem_self]
  · simp [full]
    omega

/-- The counters stay within the array whatever is called. -/
theorem perform_valid (s : ArrayList ι) (call : Call ι) (valid : Valid s) :
    Valid (perform s call).1 := by
  have removed : ∀ pos : Int, Valid (s.removeItemAt pos).1 := by
    intro pos
    by_cases stored : 0 ≤ pos ∧ pos < s.numEntries
    · obtain ⟨k, rfl⟩ := Int.eq_ofNat_of_zero_le stored.1
      exact (removeItemAt_effect valid (by omega)).1
    · rw [removeItemAt, if_pos (by omega)]
      exact valid
  cases call with
  | addTail x =>
    by_cases room : s.numEntries < s.maxEntries
    · exact (addTail_effect valid x room).1
    · simpa [perform, addTail, show s.numEntries + 1 > s.maxEntries by omega] using valid
  | addHead x =>
    by_cases room : s.numEntries < s.maxEntries
    · exact (addHead_effect valid x room).1
    · simpa [perform, addHead, show s.numEntries + 1 > s.maxEntries by omega] using valid
  | insertItemAt pos x =>
    by_cases room : s.numEntries < s.maxEntries
    · by_cases stored : 0 ≤ pos ∧ pos ≤ s.numEntries
      · obtain ⟨k, rfl⟩ := Int.eq_ofNat_of_zero_le stored.1
        exact (insertItemAt_effect valid (by omega) room x).1
      · have refused : pos < 0 ∨ pos > s.numEntries := by omega
        simpa [perform, insertItemAt, show ¬ s.numEntries + 1 > s.maxEntries by omega, refused]
          using valid
    · simpa [perform, insertItemAt, show s.numEntries + 1 > s.maxEntries by omega] using valid
  | removeItem x =>
    have search := removeItemFrom_eq (s := s) x 0 s.numEntries (Nat.zero_add _)
    simp only [perform, Prod.map_fst, id_eq, removeItem, search]
    cases (s.contents.drop 0).idxOf? x with
    | none => exact valid
    | some k => exact removed _
  | removeItemAt pos => exact removed pos
  | removeHead => exact (removeHead_effect valid).1
  | removeTail => exact (removeTail_effect valid).1
  | getHead => exact valid
  | getTail => exact valid
  | getItemAt i => exact valid
  | getSize => exact valid

/-- The single step: a proper call shows what the sequence shows, and no other
call does. -/
theorem perform_exact (s : ArrayList ι) (call : Call ι) (valid : Valid s) :
    Proper s call ↔ ((perform s call).1.contents, (perform s call).2) =
      performOn s.maxEntries s.contents call := by
  have fits := valid.fits
  cases call with
  | addTail x =>
    simp only [Proper, true_iff, performOn, contents_length]
    by_cases room : s.numEntries < s.maxEntries
    · have notFull : ¬ s.numEntries + 1 > s.maxEntries := by omega
      rw [if_pos room, ← (addTail_effect valid x room).2]
      simp [perform, addTail, notFull]
    · simp [perform, addTail, room, show s.numEntries + 1 > s.maxEntries by omega]
  | addHead x =>
    simp only [Proper, true_iff, performOn, contents_length]
    by_cases room : s.numEntries < s.maxEntries
    · have notFull : ¬ s.numEntries + 1 > s.maxEntries := by omega
      rw [if_pos room, ← (addHead_effect valid x room).2]
      simp [perform, addHead, notFull]
    · simp [perform, addHead, room, show s.numEntries + 1 > s.maxEntries by omega]
  | insertItemAt pos x =>
    simp only [Proper, performOn, contents_length]
    by_cases room : s.numEntries < s.maxEntries
    · by_cases stored : 0 ≤ pos ∧ pos ≤ s.numEntries
      · obtain ⟨k, rfl⟩ := Int.eq_ofNat_of_zero_le stored.1
        have inK : k ≤ s.numEntries := by omega
        have code := (insertItemAt_effect valid inK room x).2.2
        rw [if_pos room, if_pos stored, Int.toNat_natCast]
        simp only [perform, Prod.map_fst, Prod.map_snd, id_eq, code, Prod.mk.injEq, and_true]
        rw [insertItemAt_exact valid inK room x]
        simp [stored, Nat.ne_of_lt room]
      · have refused : pos < 0 ∨ pos > s.numEntries := by omega
        simp [perform, insertItemAt, room, stored, refused,
          show ¬ s.numEntries + 1 > s.maxEntries by omega]
    · have full : s.numEntries = s.maxEntries := by omega
      simp [perform, insertItemAt, full]
  | removeItem x =>
    have search := removeItemFrom_eq (s := s) x 0 s.numEntries (Nat.zero_add _)
    rw [List.drop_zero] at search
    simp only [Proper, true_iff, perform, Prod.map_fst, Prod.map_snd, id_eq, removeItem, search,
      performOn]
    cases found : s.contents.idxOf? x with
    | none =>
      rw [if_neg (by simpa using found)]
    | some k =>
      obtain ⟨inContents, value, _⟩ := List.idxOf?_eq_some_iff.mp found
      have member : x ∈ s.contents := by
        rw [← value]
        exact List.getElem_mem inContents
      obtain ⟨_, effect, result⟩ := removeItemAt_effect valid (by simpa using inContents)
      have here := contents_getElem? (s := s) (k := k) (by simpa using inContents)
      rw [List.getElem?_eq_getElem inContents, value] at here
      simp only [Nat.zero_add, effect, result, if_pos member, List.erase_eq_eraseIdx, found,
        ← Option.some.inj here]
  | removeItemAt pos =>
    simp only [Proper, true_iff, performOn, contents_length]
    by_cases stored : 0 ≤ pos ∧ pos < s.numEntries
    · obtain ⟨k, rfl⟩ := Int.eq_ofNat_of_zero_le stored.1
      have inK : k < s.numEntries := by omega
      obtain ⟨_, effect, result⟩ := removeItemAt_effect valid inK
      rw [if_pos stored]
      simp [perform, effect, result, contents_getElem? inK]
    · have refused : pos < 0 ∨ pos ≥ s.numEntries := by omega
      rw [if_neg stored]
      simp [perform, removeItemAt, refused]
  | removeHead =>
    obtain ⟨_, effect, result⟩ := removeHead_effect valid
    simp [Proper, perform, performOn, effect, result]
  | removeTail =>
    obtain ⟨_, effect, result⟩ := removeTail_effect valid
    simp [Proper, perform, performOn, effect, result]
  | getHead => simp [Proper, perform, performOn, getHead_eq valid]
  | getTail => simp [Proper, perform, performOn, getTail_eq]
  | getItemAt i =>
    simp only [Proper, perform, performOn, contents_length]
    by_cases stored : 0 ≤ i ∧ i < s.numEntries
    · obtain ⟨k, rfl⟩ := Int.eq_ofNat_of_zero_le stored.1
      have inK : k < s.numEntries := by omega
      rw [if_pos stored, Int.toNat_natCast, contents_getElem? inK, getItemAt,
        itemPosition_eq valid (by omega)]
      simp [stored, item]
    · rw [if_neg stored, getItemAt]
      cases s.itemPosition i <;> simp [stored]
  | getSize => simp [Proper, perform, performOn, size]

/-- The bound of the sequence does not change. -/
theorem perform_maxEntries (s : ArrayList ι) (call : Call ι) :
    (perform s call).1.maxEntries = s.maxEntries := by
  cases call with
  | addTail x =>
    by_cases full : s.numEntries + 1 > s.maxEntries <;> simp [perform, addTail, full]
  | addHead x =>
    by_cases full : s.numEntries + 1 > s.maxEntries <;> simp [perform, addHead, full]
  | insertItemAt pos x =>
    by_cases full : s.numEntries + 1 > s.maxEntries <;>
      by_cases refused : pos < 0 ∨ pos > s.numEntries <;>
        simp [perform, insertItemAt, full, refused]
  | removeItem x =>
    simp only [perform, Prod.map_fst, id_eq, removeItem,
      removeItemFrom_eq (s := s) x 0 s.numEntries (Nat.zero_add _)]
    cases (s.contents.drop 0).idxOf? x <;> simp
  | removeItemAt pos => simp [perform]
  | removeHead => by_cases empty : 0 = s.numEntries <;> simp [perform, removeHead, empty]
  | removeTail => by_cases empty : 0 = s.numEntries <;> simp [perform, removeTail, empty]
  | getHead => rfl
  | getTail => rfl
  | getItemAt i => rfl
  | getSize => rfl

/-- For every capacity and every run on a fresh array list: contents and
results are those of the bounded sequence if and only if every step is proper. -/
theorem run_refines_iff_proper (max : Nat) (calls : List (Call ι)) :
    trace contents perform (fresh max) calls = trace id (performOn max) [] calls ↔
      Admissible (fun s call => (perform s call).1) Proper (fresh max : ArrayList ι) calls := by
  refine trace_eq_iff_admissible (fun s : ArrayList ι => Valid s ∧ s.maxEntries = max)
    (fun s call inv => ?_) (fun s call inv => ?_) calls (fresh max) ⟨fresh_valid max, rfl⟩
  · exact ⟨perform_valid s call inv.1, (perform_maxEntries s call).trans inv.2⟩
  · rw [← inv.2]
    exact perform_exact s call inv.1

/-- One free cell left: the insertion at the end loses the item at the head. -/
theorem last_insertion_overwrites_head :
    trace contents perform (fresh 2) [.addTail (some 'A'), .insertItemAt 1 (some 'B')] =
        [([some 'A'], .code cOk), ([none, some 'B'], .code cOk)] ∧
      trace id (performOn 2) [] [.addTail (some 'A'), .insertItemAt 1 (some 'B')] =
        [([some 'A'], .code cOk), ([some 'A', some 'B'], .code cOk)] := by
  decide

end Orcos.Guarantees.ArrayLists
