import Mathlib.Data.List.InsertIdx
import Orcos.Lib.Ring
import Orcos.Source.Alignment

/-!
# The bounded array list of db/

Source: src/source/db/ArrayList.cc and ArrayList.hh.

The entries are pointers in `ι`, null is `none`. The three one-byte counters
stay within the array, so plain numbers stand for them; the arithmetic of the
source is on `int`. `entries` has `maxEntries` cells; of the accesses only the
one of `getItemAt` can fall outside, which is undefined behaviour in the source.
-/
namespace Orcos.Source
open Orcos.Lib.Ring

structure ArrayList (ι : Type) where
  entries : List (Option ι)
  maxEntries : Nat
  numEntries : Nat
  headPointer : Nat
  deriving DecidableEq

namespace ArrayList

variable {ι : Type}

def fresh (max : Nat) : ArrayList ι := ⟨List.replicate max none, max, 0, 0⟩

/-- The pointer stored in a cell of the array. -/
def entry (s : ArrayList ι) (p : Nat) : Option ι := s.entries.getD p none

def setEntry (s : ArrayList ι) (p : Nat) (item : Option ι) : ArrayList ι :=
  { s with entries := s.entries.set p item }

@[simp] theorem setEntry_maxEntries (s : ArrayList ι) (p : Nat) (item : Option ι) :
    (s.setEntry p item).maxEntries = s.maxEntries := rfl
@[simp] theorem setEntry_numEntries (s : ArrayList ι) (p : Nat) (item : Option ι) :
    (s.setEntry p item).numEntries = s.numEntries := rfl
@[simp] theorem setEntry_headPointer (s : ArrayList ι) (p : Nat) (item : Option ι) :
    (s.setEntry p item).headPointer = s.headPointer := rfl

def size (s : ArrayList ι) : Nat := s.numEntries

def getHead (s : ArrayList ι) : Option ι :=
  if s.numEntries = 0 then none else s.entry s.headPointer

def getTail (s : ArrayList ι) : Option ι :=
  if s.numEntries = 0 then none
  else s.entry (modulo (s.headPointer + s.numEntries - 1) s.maxEntries)

def addTail (s : ArrayList ι) (item : Option ι) : ArrayList ι × ErrorT :=
  if s.numEntries + 1 > s.maxEntries then (s, cDatabaseOverflow)
  else
    let ptr := modulo (s.headPointer + s.numEntries) s.maxEntries
    ({ s.setEntry ptr item with numEntries := s.numEntries + 1 }, cOk)

def addHead (s : ArrayList ι) (item : Option ι) : ArrayList ι × ErrorT :=
  if s.numEntries + 1 > s.maxEntries then (s, cDatabaseOverflow)
  else
    let headPointer := if s.headPointer = 0 then s.maxEntries - 1 else s.headPointer - 1
    ({ s.setEntry headPointer item with
        headPointer := headPointer, numEntries := s.numEntries + 1 }, cOk)

def removeHead (s : ArrayList ι) : ArrayList ι × Option ι :=
  if 0 = s.numEntries then (s, none)
  else
    let ret := s.entry s.headPointer
    let headPointer := if s.headPointer = s.maxEntries - 1 then 0 else s.headPointer + 1
    ({ s.setEntry s.headPointer none with
        headPointer := headPointer, numEntries := s.numEntries - 1 }, ret)

def removeTail (s : ArrayList ι) : ArrayList ι × Option ι :=
  if 0 = s.numEntries then (s, none)
  else
    let p := modulo (s.headPointer + s.numEntries - 1) s.maxEntries
    ({ s.setEntry p none with numEntries := s.numEntries - 1 }, s.entry p)

/-- The loop of `removeItemAt` with index `i` counting up, `count` rounds to go. -/
def moveLeft (s : ArrayList ι) (pos : Nat) : Nat → Nat → ArrayList ι
  | _, 0 => s
  | i, count + 1 =>
    let p := modulo (s.headPointer + pos + i) s.maxEntries
    moveLeft (s.setEntry p (s.entry (modulo (p + 1) s.maxEntries))) pos (i + 1) count

def removeItemAt (s : ArrayList ι) (pos : Int) : ArrayList ι × Option ι :=
  if pos < 0 ∨ pos ≥ s.numEntries then (s, none)
  else
    let pos := pos.toNat
    let ptr := modulo (s.headPointer + pos) s.maxEntries
    let ret := s.entry ptr
    let s := moveLeft (s.setEntry ptr none) pos 0 (s.numEntries - 1 - pos)
    ({ s with numEntries := s.numEntries - 1 }, ret)

/-- The loop of `insertItemAt`, its index counting down to zero. -/
def moveRight (s : ArrayList ι) (pos : Nat) (i : Nat) : ArrayList ι :=
  let p := modulo (s.headPointer + pos + i) s.maxEntries
  let s := s.setEntry (modulo (p + 1) s.maxEntries) (s.entry p)
  match i with
  | 0 => s
  | i + 1 => moveRight s pos i

def insertItemAt (s : ArrayList ι) (pos : Int) (item : Option ι) : ArrayList ι × ErrorT :=
  if s.numEntries + 1 > s.maxEntries then (s, cDatabaseOverflow)
  else if pos < 0 ∨ pos > s.numEntries then (s, cIndexOutOfBounds)
  else
    let pos := pos.toNat
    let s := moveRight s pos (s.numEntries - pos)
    let s := s.setEntry (modulo (s.headPointer + pos) s.maxEntries) item
    ({ s with numEntries := s.numEntries + 1 }, cOk)

/-- The cell `getItemAt` reads, when it is a cell of the array. -/
def itemPosition (s : ArrayList ι) (i : Int) : Option Nat :=
  let p := modulo (s.headPointer + i) (s.maxEntries : Int)
  if 0 ≤ p ∧ p < s.maxEntries then some p.toNat else none

/-- `none` when the access falls outside the array. -/
def getItemAt (s : ArrayList ι) (i : Int) : Option (Option ι) := (itemPosition s i).map s.entry

/-- The loop of `removeItem`, `count` indices from `i` on still to be compared. -/
def removeItemFrom [DecidableEq ι] (s : ArrayList ι) (item : Option ι) :
    Nat → Nat → ArrayList ι × Option ι
  | _, 0 => (s, none)
  | i, count + 1 =>
    if item = s.entry (modulo (s.headPointer + i) s.maxEntries) then removeItemAt s i
    else removeItemFrom s item (i + 1) count

def removeItem [DecidableEq ι] (s : ArrayList ι) (item : Option ι) : ArrayList ι × Option ι :=
  removeItemFrom s item 0 s.numEntries

end ArrayList

end Orcos.Source

/-!
Effect of the array list operations on the sequence of stored items, which is
the window of `numEntries` cells from the head on. Cells are named by their
distance from the head, so that the shifting loops read as on a plain array.
-/
namespace Orcos.Source.ArrayList
open Orcos.Lib.Ring

variable {ι : Type}

/-- The counters stay within the array. -/
structure Valid (s : ArrayList ι) : Prop where
  cells : s.entries.length = s.maxEntries
  fits : s.numEntries ≤ s.maxEntries
  inside : 0 < s.maxEntries → s.headPointer < s.maxEntries

/-- The cell at distance `k` from the head. -/
def item (s : ArrayList ι) (k : Nat) : Option ι := s.entry (modulo (s.headPointer + k) s.maxEntries)

def contents (s : ArrayList ι) : List (Option ι) :=
  window s.entry s.maxEntries s.headPointer s.numEntries

theorem fresh_valid (max : Nat) : Valid (fresh max : ArrayList ι) where
  cells := by simp [fresh]
  fits := by simp [fresh]
  inside positive := by simpa [fresh] using positive

theorem fresh_contents (max : Nat) : contents (fresh max : ArrayList ι) = [] := rfl

variable {s : ArrayList ι}

@[simp] theorem contents_length : s.contents.length = s.numEntries := window_length

theorem contents_getElem? {k : Nat} (stored : k < s.numEntries) :
    s.contents[k]? = some (s.item k) := window_getElem? stored

/-- Two lists of items are equal when they agree position by position. -/
theorem contents_eq_of {xs : List (Option ι)} (same : s.numEntries = xs.length)
    (agree : ∀ k < s.numEntries, xs[k]? = some (s.item k)) : s.contents = xs := by
  refine List.ext_getElem? fun k => ?_
  by_cases stored : k < s.numEntries
  · rw [contents_getElem? stored, agree k stored]
  · rw [List.getElem?_eq_none (by simpa using stored), List.getElem?_eq_none (by omega)]

theorem entry_setEntry (p q : Nat) (v : Option ι) (within : p < s.entries.length) :
    (s.setEntry p v).entry q = if q = p then v else s.entry q := by
  simp only [entry, setEntry, List.getD_eq_getElem?_getD, List.getElem?_set]
  by_cases same : p = q
  · subst same
    simp [within]
  · simp [same, Ne.symm same]

theorem item_setEntry (valid : Valid s) {c k : Nat} (left : c < s.maxEntries)
    (right : k < s.maxEntries) (v : Option ι) :
    (s.setEntry (modulo (s.headPointer + c) s.maxEntries) v).item k =
      if k = c then v else s.item k := by
  have inside := valid.inside (by omega)
  rw [item, entry_setEntry _ _ _ (by rw [valid.cells]; exact modulo_lt inside (by omega))]
  simp only [setEntry_headPointer, setEntry_maxEntries, modulo_inj right left]
  rfl

theorem setEntry_valid (valid : Valid s) (p : Nat) (v : Option ι) : Valid (s.setEntry p v) :=
  ⟨by simpa [setEntry] using valid.cells, valid.fits, valid.inside⟩

/-- The item at a distance does not depend on the number of items. -/
@[simp] theorem item_withNumEntries (n k : Nat) :
    ({ s with numEntries := n } : ArrayList ι).item k = s.item k := rfl

/-! ### Head and tail -/

theorem getHead_eq (valid : Valid s) : s.getHead = s.contents.head?.join := by
  by_cases empty : s.numEntries = 0
  · simp [getHead, empty, contents]
  · have inside := valid.inside (by have := valid.fits; omega)
    have first := contents_getElem? (s := s) (k := 0) (by omega)
    rw [List.head?_eq_getElem?, first, item, modulo_zero inside]
    simp [getHead, empty]

theorem getTail_eq : s.getTail = s.contents.getLast?.join := by
  by_cases empty : s.numEntries = 0
  · simp [getTail, empty, contents]
  · have last := contents_getElem? (s := s) (k := s.numEntries - 1) (by omega)
    have position : s.headPointer + s.numEntries - 1 = s.headPointer + (s.numEntries - 1) := by
      omega
    rw [List.getLast?_eq_getElem?, contents_length, last, item]
    simp [getTail, empty, position]

theorem addTail_effect (valid : Valid s) (x : Option ι) (room : s.numEntries < s.maxEntries) :
    Valid (s.addTail x).1 ∧ (s.addTail x).1.contents = s.contents ++ [x] := by
  have notFull : ¬ s.numEntries + 1 > s.maxEntries := by omega
  simp only [addTail, notFull, if_false]
  have written := setEntry_valid valid (modulo (s.headPointer + s.numEntries) s.maxEntries) x
  refine ⟨⟨written.cells, room, valid.inside⟩, contents_eq_of (by simp) fun k stored => ?_⟩
  have stored : k < s.numEntries + 1 := stored
  rw [item_withNumEntries, item_setEntry valid room (by omega)]
  by_cases new : k = s.numEntries
  · simp [new]
  · rw [List.getElem?_append_left (by simp; omega), contents_getElem? (by omega), if_neg new]

theorem addHead_effect (valid : Valid s) (x : Option ι) (room : s.numEntries < s.maxEntries) :
    Valid (s.addHead x).1 ∧ (s.addHead x).1.contents = x :: s.contents := by
  have notFull : ¬ s.numEntries + 1 > s.maxEntries := by omega
  have inside := valid.inside (by omega)
  simp only [addHead, notFull, if_false]
  generalize head : (if s.headPointer = 0 then s.maxEntries - 1 else s.headPointer - 1) = p
  have insideP : p < s.maxEntries := by
    subst head
    split <;> omega
  have nextP : modulo (p + 1) s.maxEntries = s.headPointer := by
    subst head
    unfold modulo
    split <;> split <;> omega
  have written := setEntry_valid valid p x
  refine ⟨⟨written.cells, room, fun _ => insideP⟩, contents_eq_of (by simp) fun k stored => ?_⟩
  have stored : k < s.numEntries + 1 := stored
  change _ = some ((s.setEntry p x).entry (modulo (p + k) s.maxEntries))
  rw [entry_setEntry _ _ _ (by rw [valid.cells]; exact insideP)]
  cases k with
  | zero => rw [modulo_zero insideP, if_pos rfl, List.getElem?_cons_zero]
  | succ k =>
    rw [if_neg (modulo_ne_start (by omega) (by omega)), List.getElem?_cons_succ,
      contents_getElem? (by omega), item, ← nextP,
      modulo_add insideP (by omega), Nat.add_comm 1 k]

theorem removeHead_effect (valid : Valid s) :
    Valid s.removeHead.1 ∧ s.removeHead.1.contents = s.contents.tail ∧
      s.removeHead.2 = s.contents.head?.join := by
  by_cases empty : 0 = s.numEntries
  · simp [removeHead, ← empty, valid, contents]
  · have inside := valid.inside (by have := valid.fits; omega)
    have fits := valid.fits
    refine ⟨?_, ?_, ?_⟩
    · simp only [removeHead, empty, if_false]
      have written := setEntry_valid valid s.headPointer none
      refine ⟨written.cells, by simp; omega, fun _ => ?_⟩
      simp only [setEntry_maxEntries]
      split <;> omega
    · refine contents_eq_of (by simp [removeHead, empty]) fun k stored => ?_
      simp only [removeHead, empty, if_false] at stored ⊢
      have next : (if s.headPointer = s.maxEntries - 1 then 0 else s.headPointer + 1) =
          modulo (s.headPointer + 1) s.maxEntries := by
        unfold modulo
        split <;> split <;> omega
      rw [next, List.getElem?_tail, contents_getElem? (by omega)]
      change _ = some ((s.setEntry s.headPointer none).entry
        (modulo (modulo (s.headPointer + 1) s.maxEntries + k) s.maxEntries))
      rw [modulo_add inside (by omega), entry_setEntry _ _ _ (by rw [valid.cells]; exact inside),
        if_neg (modulo_ne_start (by omega) (by omega)), item, Nat.add_comm 1 k]
    · rw [← getHead_eq valid]
      simp only [removeHead, empty, if_false, getHead]
      rw [if_neg (Ne.symm empty)]

theorem removeTail_effect (valid : Valid s) :
    Valid s.removeTail.1 ∧ s.removeTail.1.contents = s.contents.dropLast ∧
      s.removeTail.2 = s.contents.getLast?.join := by
  by_cases empty : 0 = s.numEntries
  · simp [removeTail, ← empty, valid, contents]
  · have fits := valid.fits
    have position : s.headPointer + s.numEntries - 1 = s.headPointer + (s.numEntries - 1) := by
      omega
    refine ⟨?_, ?_, ?_⟩
    · simp only [removeTail, empty, if_false]
      have written := setEntry_valid valid
        (modulo (s.headPointer + s.numEntries - 1) s.maxEntries) none
      exact ⟨written.cells, by simp; omega, valid.inside⟩
    · refine contents_eq_of (by simp [removeTail, empty]) fun k stored => ?_
      simp only [removeTail, empty, if_false, position] at stored ⊢
      rw [item_withNumEntries, item_setEntry valid (by omega) (by omega), if_neg (by omega),
        List.getElem?_dropLast, if_pos (by simp; omega), contents_getElem? (by omega)]
    · rw [← getTail_eq]
      simp only [removeTail, empty, if_false, getTail]
      rw [if_neg (Ne.symm empty)]

/-! ### Positions in the middle -/

/-- The loop of `removeItemAt` moves the following cells one place down. -/
theorem moveLeft_item (valid : Valid s) (pos i count : Nat)
    (within : pos + i + count < s.maxEntries) :
    Valid (s.moveLeft pos i count) ∧ (s.moveLeft pos i count).numEntries = s.numEntries ∧
      (s.moveLeft pos i count).maxEntries = s.maxEntries ∧
      ∀ k < s.maxEntries, (s.moveLeft pos i count).item k =
        if pos + i ≤ k ∧ k < pos + i + count then s.item (k + 1) else s.item k := by
  induction count generalizing s i with
  | zero => exact ⟨valid, rfl, rfl, fun k _ => by rw [moveLeft, if_neg (by omega)]⟩
  | succ count ih =>
    have inside := valid.inside (by omega)
    rw [moveLeft, Nat.add_assoc s.headPointer pos i, modulo_add inside (by omega)]
    have written := setEntry_valid valid (modulo (s.headPointer + (pos + i)) s.maxEntries)
      (s.entry (modulo (s.headPointer + (pos + i + 1)) s.maxEntries))
    obtain ⟨valid', same, sameMax, items⟩ := ih written (i + 1) (by simp; omega)
    refine ⟨valid', same, sameMax, fun k stored => ?_⟩
    have here := fun j (inJ : j < s.maxEntries) => item_setEntry valid (c := pos + i) (by omega) inJ
      (s.entry (modulo (s.headPointer + (pos + i + 1)) s.maxEntries))
    rw [items k stored]
    by_cases later : pos + (i + 1) ≤ k ∧ k < pos + (i + 1) + count
    · rw [if_pos later, here _ (by omega), if_neg (by omega), if_pos (by omega)]
    · rw [if_neg later, here _ stored]
      by_cases first : k = pos + i
      · rw [if_pos first, if_pos (by omega), first, item]
      · rw [if_neg first, if_neg (by omega)]

theorem removeItemAt_effect (valid : Valid s) {pos : Nat} (stored : pos < s.numEntries) :
    Valid (s.removeItemAt pos).1 ∧ (s.removeItemAt pos).1.contents = s.contents.eraseIdx pos ∧
      (s.removeItemAt pos).2 = s.item pos := by
  have fits := valid.fits
  have accepted : ¬ ((pos : Int) < 0 ∨ (pos : Int) ≥ s.numEntries) := by omega
  simp only [removeItemAt, accepted, if_false, Int.toNat_natCast]
  have written := setEntry_valid valid (modulo (s.headPointer + pos) s.maxEntries) none
  obtain ⟨valid', same, sameMax, items⟩ := moveLeft_item written pos 0 (s.numEntries - 1 - pos)
    (by simp; omega)
  refine ⟨⟨valid'.cells, ?_, valid'.inside⟩, ?_, rfl⟩
  · have := valid'.fits
    simp only [same, setEntry_numEntries] at this ⊢
    omega
  · refine contents_eq_of ?_ fun k inK => ?_
    · rw [List.length_eraseIdx, if_pos (by simpa using stored)]
      simp [same]
    · simp only [same, setEntry_numEntries] at inK
      have erased := fun j (inJ : j < s.maxEntries) =>
        item_setEntry valid (c := pos) (by omega) inJ none
      rw [item_withNumEntries, items k (by simp; omega), List.getElem?_eraseIdx]
      by_cases before : k < pos
      · rw [if_pos before, if_neg (by omega), erased k (by omega), if_neg (by omega),
          contents_getElem? (by omega)]
      · rw [if_neg before, if_pos (by omega), erased _ (by omega), if_neg (by omega),
          contents_getElem? (by omega)]

/-- The loop of `insertItemAt` moves cells one place up, while the last of them
stays on this side of the head. -/
theorem moveRight_item (valid : Valid s) (pos i : Nat) (within : pos + i + 1 < s.maxEntries) :
    Valid (s.moveRight pos i) ∧ (s.moveRight pos i).numEntries = s.numEntries ∧
      (s.moveRight pos i).maxEntries = s.maxEntries ∧
      (s.moveRight pos i).headPointer = s.headPointer ∧
      ∀ k < s.maxEntries, (s.moveRight pos i).item k =
        if pos < k ∧ k ≤ pos + i + 1 then s.item (k - 1) else s.item k := by
  induction i generalizing s with
  | zero =>
    have inside := valid.inside (by omega)
    rw [moveRight, Nat.add_assoc s.headPointer pos 0, modulo_add inside (by omega)]
    refine ⟨setEntry_valid valid _ _, rfl, rfl, rfl, fun k stored => ?_⟩
    rw [item_setEntry valid within stored]
    by_cases moved : k = pos + 0 + 1
    · rw [if_pos moved, if_pos (by omega), item, moved, Nat.add_sub_cancel]
    · rw [if_neg moved, if_neg (by omega)]
  | succ i ih =>
    have inside := valid.inside (by omega)
    rw [moveRight, Nat.add_assoc s.headPointer pos (i + 1), modulo_add inside (by omega)]
    have written := setEntry_valid valid (modulo (s.headPointer + (pos + (i + 1) + 1)) s.maxEntries)
      (s.entry (modulo (s.headPointer + (pos + (i + 1))) s.maxEntries))
    obtain ⟨valid', same, sameMax, sameHead, items⟩ := ih written (by simp; omega)
    refine ⟨valid', same, sameMax, sameHead, fun k stored => ?_⟩
    have here := fun j (inJ : j < s.maxEntries) => item_setEntry valid within inJ
      (s.entry (modulo (s.headPointer + (pos + (i + 1))) s.maxEntries))
    rw [items k stored]
    by_cases later : pos < k ∧ k ≤ pos + i + 1
    · rw [if_pos later, here _ (by omega), if_neg (by omega), if_pos (by omega)]
    · rw [if_neg later, here _ stored]
      by_cases first : k = pos + (i + 1) + 1
      · rw [if_pos first, if_pos (by omega), first, item, Nat.add_sub_cancel]
      · rw [if_neg first, if_neg (by omega)]

@[simp] theorem moveLeft_maxEntries (pos i count : Nat) :
    (s.moveLeft pos i count).maxEntries = s.maxEntries := by
  induction count generalizing s i with
  | zero => rfl
  | succ count ih => rw [moveLeft, ih, setEntry_maxEntries]

@[simp] theorem moveRight_maxEntries (pos i : Nat) :
    (s.moveRight pos i).maxEntries = s.maxEntries := by
  induction i generalizing s with
  | zero => rfl
  | succ i ih => rw [moveRight, ih, setEntry_maxEntries]

@[simp] theorem removeItemAt_maxEntries (pos : Int) :
    (s.removeItemAt pos).1.maxEntries = s.maxEntries := by
  by_cases refused : pos < 0 ∨ pos ≥ s.numEntries <;> simp [removeItemAt, refused]

/-- The cell at distance `k` once `insertItemAt` copied the cell behind the last
item: in an array with one free cell left this overwrites the head. -/
def itemAfterCopy (s : ArrayList ι) (k : Nat) : Option ι :=
  if s.numEntries + 1 = s.maxEntries ∧ k = 0 then s.item s.numEntries else s.item k

/-- All rounds of the loop of `insertItemAt`. -/
theorem moveRight_toEnd (valid : Valid s) {pos : Nat} (stored : pos ≤ s.numEntries)
    (room : s.numEntries < s.maxEntries) :
    let s' := s.moveRight pos (s.numEntries - pos)
    Valid s' ∧ s'.numEntries = s.numEntries ∧ s'.maxEntries = s.maxEntries ∧
      s'.headPointer = s.headPointer ∧ ∀ k ≤ s.numEntries, s'.item k =
        if pos < k then s.itemAfterCopy (k - 1) else s.itemAfterCopy k := by
  intro s'
  by_cases spare : s.numEntries + 1 < s.maxEntries
  · obtain ⟨valid', same, sameMax, sameHead, items⟩ :=
      moveRight_item valid pos (s.numEntries - pos) (by omega)
    refine ⟨valid', same, sameMax, sameHead, fun k inK => ?_⟩
    rw [items k (by omega)]
    simp only [itemAfterCopy, show ¬ s.numEntries + 1 = s.maxEntries by omega, false_and, if_false]
    by_cases later : pos < k
    · rw [if_pos (by omega), if_pos later]
    · rw [if_neg (by omega), if_neg later]
  · -- the first round writes to the head
    have inside := valid.inside (by omega)
    have full : s.numEntries + 1 = s.maxEntries := by omega
    have turn : modulo (modulo (s.headPointer + pos + (s.numEntries - pos)) s.maxEntries + 1)
        s.maxEntries = modulo (s.headPointer + 0) s.maxEntries := by
      rw [Nat.add_assoc, modulo_add inside (by omega),
        show pos + (s.numEntries - pos) + 1 = s.maxEntries by omega, modulo_turn,
        modulo_zero inside]
    have last : s.entry (modulo (s.headPointer + pos + (s.numEntries - pos)) s.maxEntries) =
        s.item s.numEntries := by
      rw [Nat.add_assoc, show pos + (s.numEntries - pos) = s.numEntries by omega, item]
    have copied : ∀ k < s.maxEntries, (s.setEntry (modulo (s.headPointer + 0) s.maxEntries)
        (s.item s.numEntries)).item k = s.itemAfterCopy k := by
      intro k inK
      rw [item_setEntry valid (by omega) inK, itemAfterCopy]
      simp [full]
    have written := setEntry_valid valid (modulo (s.headPointer + 0) s.maxEntries)
      (s.item s.numEntries)
    cases rounds : s.numEntries - pos with
    | zero =>
      have once : s' = s.setEntry (modulo (s.headPointer + 0) s.maxEntries)
          (s.item s.numEntries) := by
        rw [← turn, ← last, rounds]
        simp only [s', rounds, moveRight]
      rw [once]
      refine ⟨written, rfl, rfl, rfl, fun k inK => ?_⟩
      rw [copied k (by omega), if_neg (by omega)]
    | succ i =>
      have more : s' = (s.setEntry (modulo (s.headPointer + 0) s.maxEntries)
          (s.item s.numEntries)).moveRight pos i := by
        rw [← turn, ← last, rounds]
        simp only [s', rounds, moveRight]
      rw [more]
      obtain ⟨valid', same, sameMax, sameHead, items⟩ :=
        moveRight_item written pos i (by simp; omega)
      refine ⟨valid', same, sameMax, sameHead, fun k inK => ?_⟩
      rw [items k (by simp; omega)]
      by_cases later : pos < k
      · rw [if_pos (by omega), if_pos later, copied _ (by omega)]
      · rw [if_neg (by omega), if_neg later, copied _ (by omega)]

/-- The items `insertItemAt` makes room in. -/
def copiedContents (s : ArrayList ι) : List (Option ι) :=
  if s.numEntries + 1 = s.maxEntries then s.contents.set 0 (s.item s.numEntries) else s.contents

theorem copiedContents_getElem? {k : Nat} (stored : k < s.numEntries) :
    s.copiedContents[k]? = some (s.itemAfterCopy k) := by
  by_cases full : s.numEntries + 1 = s.maxEntries
  · by_cases first : k = 0
    · simp [copiedContents, itemAfterCopy, full, first, show 0 < s.numEntries by omega]
    · rw [copiedContents, if_pos full, List.getElem?_set_ne (Ne.symm first),
        contents_getElem? stored, itemAfterCopy, if_neg (by omega)]
  · simp [copiedContents, itemAfterCopy, full, contents_getElem? stored]

theorem insertItemAt_effect (valid : Valid s) {pos : Nat} (stored : pos ≤ s.numEntries)
    (room : s.numEntries < s.maxEntries) (x : Option ι) :
    Valid (s.insertItemAt pos x).1 ∧
      (s.insertItemAt pos x).1.contents = s.copiedContents.insertIdx pos x ∧
      (s.insertItemAt pos x).2 = cOk := by
  have notFull : ¬ s.numEntries + 1 > s.maxEntries := by omega
  have accepted : ¬ ((pos : Int) < 0 ∨ (pos : Int) > s.numEntries) := by omega
  simp only [insertItemAt, notFull, accepted, if_false, Int.toNat_natCast]
  obtain ⟨valid', same, sameMax, sameHead, items⟩ := moveRight_toEnd valid stored room
  generalize s.moveRight pos (s.numEntries - pos) = s' at valid' same sameMax sameHead items
  have written := setEntry_valid valid' (modulo (s'.headPointer + pos) s'.maxEntries) x
  have length : s.copiedContents.length = s.numEntries := by
    unfold copiedContents
    split <;> simp
  refine ⟨⟨written.cells, by simp; omega, written.inside⟩, ?_, trivial⟩
  refine contents_eq_of ?_ fun k inK => ?_
  · simp [List.length_insertIdx, length, stored, same]
  · have inK : k < s'.numEntries + 1 := inK
    rw [item_withNumEntries, item_setEntry valid' (by omega) (by omega), List.getElem?_insertIdx]
    by_cases before : k < pos
    · rw [if_pos before, if_neg (by omega), items k (by omega), if_neg (by omega),
        copiedContents_getElem? (by omega)]
    · rw [if_neg before]
      by_cases here : k = pos
      · rw [if_pos here, if_pos (by omega), if_pos here]
      · rw [if_neg here, if_neg here, items k (by omega), if_pos (by omega),
          copiedContents_getElem? (by omega)]

/-- `getItemAt` reads the cell at its distance from the head. -/
theorem itemPosition_eq (valid : Valid s) {k : Nat} (within : k < s.maxEntries) :
    s.itemPosition k = some (modulo (s.headPointer + k) s.maxEntries) := by
  have position : modulo ((s.headPointer : Int) + k) s.maxEntries =
      (modulo (s.headPointer + k) s.maxEntries : Nat) := modulo_natCast (s.headPointer + k) _
  have inside := modulo_lt (valid.inside (by omega)) (Nat.le_of_lt within)
  simp only [itemPosition, position, Int.toNat_natCast]
  rw [if_pos (by omega)]

/-- The search of `removeItem` stops at the first occurrence. -/
theorem removeItemFrom_eq [DecidableEq ι] (x : Option ι) (i count : Nat)
    (rest : i + count = s.numEntries) :
    s.removeItemFrom x i count = match (s.contents.drop i).idxOf? x with
      | some k => s.removeItemAt (i + k : Nat)
      | none => (s, none) := by
  induction count generalizing i with
  | zero =>
    have done : s.contents.drop i = [] := List.drop_eq_nil_of_le (by simp; omega)
    rw [removeItemFrom, done]
    rfl
  | succ count ih =>
    have here : s.contents[i]? = some (s.item i) := contents_getElem? (by omega)
    obtain ⟨inContents, value⟩ := List.getElem?_eq_some_iff.mp here
    have read : s.entry (modulo (s.headPointer + i) s.maxEntries) = s.item i := rfl
    rw [removeItemFrom, read, List.drop_eq_getElem_cons inContents, value, List.idxOf?_cons,
      ih (i + 1) (by omega)]
    by_cases found : x = s.item i
    · rw [if_pos found, if_pos (by simpa using found.symm)]
      simp
    · rw [if_neg found, if_neg (by simpa using Ne.symm found)]
      cases (s.contents.drop (i + 1)).idxOf? x with
      | none => rfl
      | some k => simp [Nat.add_assoc, Nat.add_comm 1 k]

end Orcos.Source.ArrayList
