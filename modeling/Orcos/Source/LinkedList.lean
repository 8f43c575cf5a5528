import Mathlib.Logic.Function.Basic
import Mathlib.Tactic.Common
import Orcos.Source.Alignment
import Orcos.Lib.Chain
import Orcos.Lib.Sequences

/-!
# The intrusive linked list of db/

Source: src/source/db/LinkedList.cc, LinkedList.hh and LinkedListItem.hh.

Items and lists live at addresses `ι` and `κ`; a heap holds the records at
these addresses and a null pointer is `none`. The queued object an item points
to has an address in `δ`. The size counter is the source's `unint1`, so it is
kept modulo 256. The spinlocks only guard against other processors and are not
modelled. `getItem` is a pointer walk that need not end on a corrupt list: it
takes fuel and answers `none` when the fuel runs out.
-/
namespace Orcos.Source.LinkedList

structure LinkedListItem (δ ι κ : Type) where
  data : δ
  pred : Option ι
  succ : Option ι
  hostDb : Option κ

/-- The data members of a `LinkedList` object. -/
structure ListRecord (ι : Type) where
  headItem : Option ι
  tailItem : Option ι
  size : Nat

structure Heap (δ ι κ : Type) where
  items : ι → LinkedListItem δ ι κ
  lists : κ → ListRecord ι

namespace Heap

variable {δ ι κ : Type}

/-- Freshly constructed items and lists. -/
def fresh (data : ι → δ) : Heap δ ι κ where
  items i := ⟨data i, none, none, none⟩
  lists _ := ⟨none, none, 0⟩

def data (h : Heap δ ι κ) (i : ι) : δ := (h.items i).data
def pred (h : Heap δ ι κ) (i : ι) : Option ι := (h.items i).pred
def succ (h : Heap δ ι κ) (i : ι) : Option ι := (h.items i).succ
def hostDb (h : Heap δ ι κ) (i : ι) : Option κ := (h.items i).hostDb
def headItem (h : Heap δ ι κ) (l : κ) : Option ι := (h.lists l).headItem
def tailItem (h : Heap δ ι κ) (l : κ) : Option ι := (h.lists l).tailItem
def size (h : Heap δ ι κ) (l : κ) : Nat := (h.lists l).size

section Items

variable [DecidableEq ι]

def setPred (h : Heap δ ι κ) (i : ι) (p : Option ι) : Heap δ ι κ :=
  { h with items := Function.update h.items i { h.items i with pred := p } }

def setSucc (h : Heap δ ι κ) (i : ι) (s : Option ι) : Heap δ ι κ :=
  { h with items := Function.update h.items i { h.items i with succ := s } }

def setHost (h : Heap δ ι κ) (i : ι) (l : Option κ) : Heap δ ι κ :=
  { h with items := Function.update h.items i { h.items i with hostDb := l } }

variable (h : Heap δ ι κ) (i j : ι) (k : κ) (p : Option ι) (m : Option κ)

@[simp] theorem setPred_pred : (h.setPred i p).pred j = if j = i then p else h.pred j := by
  simp only [setPred, pred, Function.update_apply]
  split <;> rfl

@[simp] theorem setPred_succ : (h.setPred i p).succ j = h.succ j := by
  simp only [setPred, succ, Function.update_apply]
  split <;> simp_all

@[simp] theorem setPred_hostDb : (h.setPred i p).hostDb j = h.hostDb j := by
  simp only [setPred, hostDb, Function.update_apply]
  split <;> simp_all

@[simp] theorem setPred_data : (h.setPred i p).data j = h.data j := by
  simp only [setPred, data, Function.update_apply]
  split <;> simp_all

@[simp] theorem setSucc_succ : (h.setSucc i p).succ j = if j = i then p else h.succ j := by
  simp only [setSucc, succ, Function.update_apply]
  split <;> rfl

@[simp] theorem setSucc_pred : (h.setSucc i p).pred j = h.pred j := by
  simp only [setSucc, pred, Function.update_apply]
  split <;> simp_all

@[simp] theorem setSucc_hostDb : (h.setSucc i p).hostDb j = h.hostDb j := by
  simp only [setSucc, hostDb, Function.update_apply]
  split <;> simp_all

@[simp] theorem setSucc_data : (h.setSucc i p).data j = h.data j := by
  simp only [setSucc, data, Function.update_apply]
  split <;> simp_all

@[simp] theorem setHost_hostDb : (h.setHost i m).hostDb j = if j = i then m else h.hostDb j := by
  simp only [setHost, hostDb, Function.update_apply]
  split <;> rfl

@[simp] theorem setHost_pred : (h.setHost i m).pred j = h.pred j := by
  simp only [setHost, pred, Function.update_apply]
  split <;> simp_all

@[simp] theorem setHost_succ : (h.setHost i m).succ j = h.succ j := by
  simp only [setHost, succ, Function.update_apply]
  split <;> simp_all

@[simp] theorem setHost_data : (h.setHost i m).data j = h.data j := by
  simp only [setHost, data, Function.update_apply]
  split <;> simp_all

/-! A store to an item leaves the list records alone. -/

@[simp] theorem setPred_headItem : (h.setPred i p).headItem k = h.headItem k := rfl
@[simp] theorem setPred_tailItem : (h.setPred i p).tailItem k = h.tailItem k := rfl
@[simp] theorem setPred_size : (h.setPred i p).size k = h.size k := rfl
@[simp] theorem setSucc_headItem : (h.setSucc i p).headItem k = h.headItem k := rfl
@[simp] theorem setSucc_tailItem : (h.setSucc i p).tailItem k = h.tailItem k := rfl
@[simp] theorem setSucc_size : (h.setSucc i p).size k = h.size k := rfl
@[simp] theorem setHost_headItem : (h.setHost i m).headItem k = h.headItem k := rfl
@[simp] theorem setHost_tailItem : (h.setHost i m).tailItem k = h.tailItem k := rfl
@[simp] theorem setHost_size : (h.setHost i m).size k = h.size k := rfl

end Items

section Lists

variable [DecidableEq κ]

def setHead (h : Heap δ ι κ) (l : κ) (i : Option ι) : Heap δ ι κ :=
  { h with lists := Function.update h.lists l { h.lists l with headItem := i } }

def setTail (h : Heap δ ι κ) (l : κ) (i : Option ι) : Heap δ ι κ :=
  { h with lists := Function.update h.lists l { h.lists l with tailItem := i } }

/-- `size++` on the one-byte counter. -/
def incSize (h : Heap δ ι κ) (l : κ) : Heap δ ι κ :=
  { h with lists := Function.update h.lists l { h.lists l with size := (h.size l + 1) % 256 } }

/-- `size--` on the one-byte counter. -/
def decSize (h : Heap δ ι κ) (l : κ) : Heap δ ι κ :=
  { h with lists := Function.update h.lists l { h.lists l with size := (h.size l + 255) % 256 } }

variable (h : Heap δ ι κ) (j : ι) (l k : κ) (p : Option ι)

@[simp] theorem setHead_headItem :
    (h.setHead l p).headItem k = if k = l then p else h.headItem k := by
  simp only [setHead, headItem, Function.update_apply]
  split <;> rfl

@[simp] theorem setHead_tailItem : (h.setHead l p).tailItem k = h.tailItem k := by
  simp only [setHead, tailItem, Function.update_apply]
  split <;> simp_all

@[simp] theorem setHead_size : (h.setHead l p).size k = h.size k := by
  simp only [setHead, size, Function.update_apply]
  split <;> simp_all

@[simp] theorem setTail_tailItem :
    (h.setTail l p).tailItem k = if k = l then p else h.tailItem k := by
  simp only [setTail, tailItem, Function.update_apply]
  split <;> rfl

@[simp] theorem setTail_headItem : (h.setTail l p).headItem k = h.headItem k := by
  simp only [setTail, headItem, Function.update_apply]
  split <;> simp_all

@[simp] theorem setTail_size : (h.setTail l p).size k = h.size k := by
  simp only [setTail, size, Function.update_apply]
  split <;> simp_all

@[simp] theorem incSize_size :
    (h.incSize l).size k = if k = l then (h.size l + 1) % 256 else h.size k := by
  simp only [incSize, size, Function.update_apply]
  split <;> rfl

@[simp] theorem incSize_headItem : (h.incSize l).headItem k = h.headItem k := by
  simp only [incSize, headItem, Function.update_apply]
  split <;> simp_all

@[simp] theorem incSize_tailItem : (h.incSize l).tailItem k = h.tailItem k := by
  simp only [incSize, tailItem, Function.update_apply]
  split <;> simp_all

@[simp] theorem decSize_size :
    (h.decSize l).size k = if k = l then (h.size l + 255) % 256 else h.size k := by
  simp only [decSize, size, Function.update_apply]
  split <;> rfl

@[simp] theorem decSize_headItem : (h.decSize l).headItem k = h.headItem k := by
  simp only [decSize, headItem, Function.update_apply]
  split <;> simp_all

@[simp] theorem decSize_tailItem : (h.decSize l).tailItem k = h.tailItem k := by
  simp only [decSize, tailItem, Function.update_apply]
  split <;> simp_all

/-! A store to a list record leaves the items alone. -/

@[simp] theorem setHead_pred : (h.setHead l p).pred j = h.pred j := rfl
@[simp] theorem setHead_succ : (h.setHead l p).succ j = h.succ j := rfl
@[simp] theorem setHead_hostDb : (h.setHead l p).hostDb j = h.hostDb j := rfl
@[simp] theorem setHead_data : (h.setHead l p).data j = h.data j := rfl
@[simp] theorem setTail_pred : (h.setTail l p).pred j = h.pred j := rfl
@[simp] theorem setTail_succ : (h.setTail l p).succ j = h.succ j := rfl
@[simp] theorem setTail_hostDb : (h.setTail l p).hostDb j = h.hostDb j := rfl
@[simp] theorem setTail_data : (h.setTail l p).data j = h.data j := rfl
@[simp] theorem incSize_pred : (h.incSize l).pred j = h.pred j := rfl
@[simp] theorem incSize_succ : (h.incSize l).succ j = h.succ j := rfl
@[simp] theorem incSize_hostDb : (h.incSize l).hostDb j = h.hostDb j := rfl
@[simp] theorem incSize_data : (h.incSize l).data j = h.data j := rfl
@[simp] theorem decSize_pred : (h.decSize l).pred j = h.pred j := rfl
@[simp] theorem decSize_succ : (h.decSize l).succ j = h.succ j := rfl
@[simp] theorem decSize_hostDb : (h.decSize l).hostDb j = h.hostDb j := rfl
@[simp] theorem decSize_data : (h.decSize l).data j = h.data j := rfl

end Lists

end Heap

variable {δ ι κ : Type} [DecidableEq ι] [DecidableEq κ]

/-- `LinkedList::remove(LinkedListItem*)`. -/
def remove (h : Heap δ ι κ) (this : κ) (litem : ι) : Heap δ ι κ × ErrorT :=
  if h.hostDb litem ≠ some this then (h, cElementNotInDatabase)
  else
    let succ := h.succ litem
    let pred := h.pred litem
    let h := if pred = none then h.setHead this succ else h
    let h := if h.tailItem this = some litem then h.setTail this pred else h
    let h := match pred with | some p => h.setSucc p succ | none => h
    let h := match succ with | some s => h.setPred s pred | none => h
    let h := h.setHost litem none
    let h := h.setPred litem none
    let h := h.setSucc litem none
    (h.decSize this, cOk)

/-- `LinkedListItem::remove()`: leave the list the item is in, if any. -/
def removeFromHost (h : Heap δ ι κ) (llitem : ι) : Heap δ ι κ :=
  match h.hostDb llitem with
  | some host => (remove h host llitem).1
  | none => h

/-- `LinkedList::removeHead()`; the removed item or null is the answer. -/
def removeHead (h : Heap δ ι κ) (this : κ) : Heap δ ι κ × Option ι :=
  match h.headItem this with
  | none => (h, none)
  | some ret =>
    let h := h.setHead this (h.succ ret)
    let h := match h.headItem this with
      | some head => h.setPred head none
      | none => h.setTail this none
    let h := h.setPred ret none
    let h := h.setSucc ret none
    let h := h.setHost ret none
    (h.decSize this, some ret)

/-- `LinkedList::removeTail()`. -/
def removeTail (h : Heap δ ι κ) (this : κ) : Heap δ ι κ × Option ι :=
  match h.tailItem this with
  | none => (h, none)
  | some ret =>
    let h := h.setTail this (h.pred ret)
    let h := match h.tailItem this with
      | some tail => h.setSucc tail none
      | none => h.setHead this none
    let h := h.setPred ret none
    let h := h.setSucc ret none
    let h := h.setHost ret none
    (h.decSize this, some ret)

/-- `LinkedList::addTail(LinkedListItem*)`. On a non-empty list the source
dereferences the tail pointer without a test. -/
def addTail (h : Heap δ ι κ) (this : κ) (llitem : ι) : Heap δ ι κ × ErrorT :=
  let h := removeFromHost h llitem
  let h := h.setHost llitem (some this)
  let h :=
    if h.headItem this = none then
      let h := h.setHead this (some llitem)
      let h := h.setTail this (some llitem)
      let h := h.setPred llitem none
      h.setSucc llitem none
    else
      let h := h.setPred llitem (h.tailItem this)
      let h := h.setSucc llitem none
      let h := match h.tailItem this with | some tail => h.setSucc tail (some llitem) | none => h
      h.setTail this (some llitem)
  (h.incSize this, cOk)

/-- `LinkedList::addHead(LinkedListItem*)`. -/
def addHead (h : Heap δ ι κ) (this : κ) (llitem : ι) : Heap δ ι κ × ErrorT :=
  let h := removeFromHost h llitem
  let h := h.setHost llitem (some this)
  let h :=
    match h.headItem this with
    | none =>
      let h := h.setHead this (some llitem)
      let h := h.setTail this (some llitem)
      let h := h.setPred llitem none
      h.setSucc llitem none
    | some head =>
      let h := if h.headItem this = h.tailItem this then h.setTail this (some head) else h
      let h := h.setPred llitem none
      let h := h.setSucc llitem (some head)
      let h := h.setPred head (some llitem)
      h.setHead this (some llitem)
  (h.incSize this, cOk)

/-- `LinkedList::insertAfter`. Nothing tests that `existingItem` is in this
list; the assertion that the two items differ is active in debug builds only. -/
def insertAfter (h : Heap δ ι κ) (this : κ) (llItem existingItem : ι) : Heap δ ι κ × ErrorT :=
  let h := removeFromHost h llItem
  let h :=
    match h.succ existingItem with
    | some succ =>
      let h := h.setPred succ (some llItem)
      h.setSucc llItem (h.succ existingItem)
    | none =>
      let h := h.setTail this (some llItem)
      h.setSucc llItem none
  let h := h.setSucc existingItem (some llItem)
  let h := h.setPred llItem (some existingItem)
  let h := h.setHost llItem (some this)
  (h.incSize this, cOk)

/-- `LinkedList::insertBefore`. -/
def insertBefore (h : Heap δ ι κ) (this : κ) (llItem existingItem : ι) : Heap δ ι κ × ErrorT :=
  let h := removeFromHost h llItem
  let h :=
    match h.pred existingItem with
    | some pred =>
      let h := h.setSucc pred (some llItem)
      h.setPred llItem (h.pred existingItem)
    | none =>
      let h := h.setHead this (some llItem)
      h.setPred llItem none
  let h := h.setPred existingItem (some llItem)
  let h := h.setSucc llItem (some existingItem)
  let h := h.setHost llItem (some this)
  (h.incSize this, cOk)

def getHead (h : Heap δ ι κ) (this : κ) : Option ι := h.headItem this
def getTail (h : Heap δ ι κ) (this : κ) : Option ι := h.tailItem this
def isEmpty (h : Heap δ ι κ) (this : κ) : Bool := (h.headItem this).isNone
def getSize (h : Heap δ ι κ) (this : κ) : Nat := h.size this

/-- The loop of `LinkedList::getItem`, from the item `curItem`. -/
def getItemFrom [DecidableEq δ] (h : Heap δ ι κ) (data : δ) : Nat → Option ι → Option (Option ι)
  | _, none => some none
  | 0, some _ => none
  | fuel + 1, some curItem =>
    if h.data curItem = data then some (some curItem)
    else getItemFrom h data fuel (h.succ curItem)

/-- `LinkedList::getItem(ListItem*)`. -/
def getItem [DecidableEq δ] (h : Heap δ ι κ) (this : κ) (data : δ) (fuel : Nat) :
    Option (Option ι) :=
  getItemFrom h data fuel (h.headItem this)

/-- `LinkedList::remove(ListItem*)`, which deletes the item it found. -/
def removeData [DecidableEq δ] (h : Heap δ ι κ) (this : κ) (data : δ) (fuel : Nat) :
    Option (Heap δ ι κ × ErrorT) :=
  match getItem h this data fuel with
  | none => none
  | some none => some (h, cError)
  | some (some llitem) => some (remove h this llitem)

end Orcos.Source.LinkedList

/-!
Representation invariant of the linked lists: a heap represents a family of
sequences, one for each list. The two rules `link` and `unlink` say what a
change of the pointers must do to insert or take out one item; every operation
of LinkedList.cc is an instance of one of them, or of both.
-/
namespace Orcos.Source.LinkedList
open Orcos.Lib.Chain

variable {δ ι κ : Type}

/-- List `l` of the heap is a doubly linked chain through the items `seq l`,
these items and no others name it as host, and the counter is their number in
one byte. -/
structure Represents (h : Heap δ ι κ) (seq : κ → List ι) : Prop where
  chain : ∀ l, Segment h.pred h.succ none (seq l) none
  head : ∀ l, h.headItem l = (seq l).head?
  tail : ∀ l, h.tailItem l = (seq l).getLast?
  host : ∀ l i, h.hostDb i = some l ↔ i ∈ seq l
  nodup : ∀ l, (seq l).Nodup
  size : ∀ l, h.size l = (seq l).length % 256

theorem fresh_represents (data : ι → δ) :
    Represents (Heap.fresh data : Heap δ ι κ) (fun _ => []) where
  chain _ := trivial
  head _ := rfl
  tail _ := rfl
  host l i := by simp [Heap.fresh, Heap.hostDb]
  nodup _ := List.nodup_nil
  size _ := rfl

/-- An item is in at most one list. -/
theorem Represents.host_unique {h : Heap δ ι κ} {seq : κ → List ι} (rep : Represents h seq)
    {i : ι} {l k : κ} (inL : i ∈ seq l) (inK : i ∈ seq k) : l = k := by
  have hostL := (rep.host l i).mpr inL
  have hostK := (rep.host k i).mpr inK
  rw [hostL] at hostK
  exact Option.some.inj hostK

variable [DecidableEq ι] [DecidableEq κ]

/-- Insertion of a detached item between two parts of a list. -/
theorem Represents.link {h h' : Heap δ ι κ} {seq : κ → List ι} (rep : Represents h seq)
    {l : κ} {i : ι} (as bs : List ι) (detached : h.hostDb i = none) (split : seq l = as ++ bs)
    (hpred : ∀ j, h'.pred j = if j = i then as.getLast?
      else if bs.head? = some j then some i else h.pred j)
    (hsucc : ∀ j, h'.succ j = if j = i then bs.head?
      else if as.getLast? = some j then some i else h.succ j)
    (hhost : ∀ j, h'.hostDb j = if j = i then some l else h.hostDb j)
    (hhead : ∀ k, h'.headItem k = if k = l then (as ++ i :: bs).head? else h.headItem k)
    (htail : ∀ k, h'.tailItem k = if k = l then (as ++ i :: bs).getLast? else h.tailItem k)
    (hsize : ∀ k, h'.size k = if k = l then (h.size l + 1) % 256 else h.size k) :
    Represents h' (Function.update seq l (as ++ i :: bs)) := by
  have absent : ∀ k, i ∉ seq k := by
    intro k member
    have := (rep.host k i).mpr member
    simp [detached] at this
  have notIn : i ∉ as ++ bs := split ▸ absent l
  have differ : ∀ y ∈ as ++ bs, y ≠ i := by
    rintro y hy rfl
    exact notIn hy
  have nodupL : (as ++ bs).Nodup := split ▸ rep.nodup l
  refine ⟨fun k => ?_, fun k => ?_, fun k => ?_, fun k j => ?_, fun k => ?_, fun k => ?_⟩
  · by_cases same : k = l
    · subst same
      rw [Function.update_self]
      have old : Segment h.pred h.succ none (as ++ bs) none := split ▸ rep.chain k
      refine old.insert nodupL (by simp [hpred]) (by simp [hsucc]) (fun y hy => ?_) (fun y hy => ?_)
      · rw [hpred, if_neg (differ y hy)]
      · rw [hsucc, if_neg (differ y hy)]
    · rw [Function.update_of_ne same]
      -- the neighbours whose pointers changed are in list `l`, not in list `k`
      have elsewhere : ∀ y ∈ seq k, y ∉ as ++ bs := fun y hy inL =>
        same (rep.host_unique hy (split ▸ inL))
      have notNew : ∀ y ∈ seq k, y ≠ i := by
        rintro y hy rfl
        exact absent k hy
      refine (rep.chain k).congr (fun y hy => ?_) (fun y hy => ?_)
      · rw [hpred, if_neg (notNew y hy), if_neg]
        intro eq
        exact elsewhere y hy (List.mem_append_right _ (List.mem_of_mem_head? eq))
      · rw [hsucc, if_neg (notNew y hy), if_neg]
        intro eq
        exact elsewhere y hy (List.mem_append_left _ (List.mem_of_getLast? eq))
  · rw [hhead]
    by_cases same : k = l
    · subst same
      simp
    · simp [same, rep.head]
  · rw [htail]
    by_cases same : k = l
    · subst same
      simp
    · simp [same, rep.tail]
  · rw [hhost]
    by_cases same : k = l
    · subst same
      have old := rep.host k j
      rw [split] at old
      by_cases new : j = i <;> simp_all
    · have old := rep.host k j
      have := absent k
      by_cases new : j = i
      · subst new
        simp [same, this, Ne.symm same]
      · simp [same, new, old]
  · by_cases same : k = l
    · subst same
      rw [Function.update_self]
      exact List.nodup_middle.mpr (List.nodup_cons.mpr ⟨notIn, nodupL⟩)
    · simp [same, rep.nodup]
  · rw [hsize]
    by_cases same : k = l
    · subst same
      have old := rep.size k
      rw [split] at old
      simp only [if_true, Function.update_self, List.length_append, List.length_cons] at old ⊢
      omega
    · simp [same, rep.size]

/-- Removal of an item from between two parts of its list. -/
theorem Represents.unlink {h h' : Heap δ ι κ} {seq : κ → List ι} (rep : Represents h seq)
    {l : κ} {i : ι} (as bs : List ι) (split : seq l = as ++ i :: bs)
    (hpred : ∀ j, h'.pred j = if j = i then none
      else if bs.head? = some j then as.getLast? else h.pred j)
    (hsucc : ∀ j, h'.succ j = if j = i then none
      else if as.getLast? = some j then bs.head? else h.succ j)
    (hhost : ∀ j, h'.hostDb j = if j = i then none else h.hostDb j)
    (hhead : ∀ k, h'.headItem k = if k = l then (as ++ bs).head? else h.headItem k)
    (htail : ∀ k, h'.tailItem k = if k = l then (as ++ bs).getLast? else h.tailItem k)
    (hsize : ∀ k, h'.size k = if k = l then (h.size l + 255) % 256 else h.size k) :
    Represents h' (Function.update seq l (as ++ bs)) := by
  have nodupL : (as ++ i :: bs).Nodup := split ▸ rep.nodup l
  obtain ⟨notIn, nodupRest⟩ := List.nodup_cons.mp (List.nodup_middle.mp nodupL)
  have differ : ∀ y ∈ as ++ bs, y ≠ i := by
    rintro y hy rfl
    exact notIn hy
  refine ⟨fun k => ?_, fun k => ?_, fun k => ?_, fun k j => ?_, fun k => ?_, fun k => ?_⟩
  · by_cases same : k = l
    · subst same
      rw [Function.update_self]
      have old : Segment h.pred h.succ none (as ++ i :: bs) none := split ▸ rep.chain k
      refine old.erase nodupL (fun y hy => ?_) (fun y hy => ?_)
      · rw [hpred, if_neg (differ y hy), Option.or_none]
      · rw [hsucc, if_neg (differ y hy), Option.or_none]
    · rw [Function.update_of_ne same]
      have elsewhere : ∀ y ∈ seq k, y ∉ as ++ i :: bs := fun y hy inL =>
        same (rep.host_unique hy (split ▸ inL))
      have notOld : ∀ y ∈ seq k, y ≠ i := by
        rintro y hy rfl
        exact elsewhere y hy (by simp)
      refine (rep.chain k).congr (fun y hy => ?_) (fun y hy => ?_)
      · rw [hpred, if_neg (notOld y hy), if_neg]
        intro eq
        exact elsewhere y hy
          (List.mem_append_right _ (List.mem_cons_of_mem _ (List.mem_of_mem_head? eq)))
      · rw [hsucc, if_neg (notOld y hy), if_neg]
        intro eq
        exact elsewhere y hy (List.mem_append_left _ (List.mem_of_getLast? eq))
  · rw [hhead]
    by_cases same : k = l
    · subst same
      simp
    · simp [same, rep.head]
  · rw [htail]
    by_cases same : k = l
    · subst same
      simp
    · simp [same, rep.tail]
  · rw [hhost]
    have old := rep.host k j
    by_cases same : k = l
    · subst same
      rw [split] at old
      by_cases gone : j = i
      · subst gone
        simpa using notIn
      · simp_all
    · by_cases gone : j = i
      · subst gone
        have : j ∉ seq k := fun inK => same (rep.host_unique inK (by rw [split]; simp))
        simp [same, this]
      · simp [same, gone, old]
  · by_cases same : k = l
    · subst same
      simpa using nodupRest
    · simp [same, rep.nodup]
  · rw [hsize]
    by_cases same : k = l
    · subst same
      have old := rep.size k
      rw [split] at old
      simp only [if_true, Function.update_self, List.length_append, List.length_cons] at old ⊢
      omega
    · simp [same, rep.size]

end Orcos.Source.LinkedList

/-!
Effect of each operation of LinkedList.cc on the represented sequences. Every
insertion first takes the item out of the list it is in, which may be the same
list, so its effect is described on the sequences with the item erased.
-/
namespace Orcos.Source.LinkedList
open Orcos.Lib.Chain Orcos.Lib.Sequences

variable {δ ι κ : Type}

/-- A member of a list is not an item that is in no list. -/
theorem ne_of_detached {h : Heap δ ι κ} {seq : κ → List ι} (rep : Represents h seq)
    {i x : ι} {l : κ} (free : h.hostDb i = none) (member : x ∈ seq l) : x ≠ i := by
  rintro rfl
  simp [(rep.host l x).mpr member] at free

/-- The search loop along a chain finds the first item with the data. -/
theorem getItemFrom_eq_find [DecidableEq δ] {h : Heap δ ι κ} {before : Option ι} {xs : List ι}
    (seg : Segment h.pred h.succ before xs none) (d : δ) {fuel : Nat}
    (enough : xs.length ≤ fuel) :
    getItemFrom h d fuel xs.head? = some (xs.find? (fun i => h.data i = d)) := by
  induction xs generalizing before fuel with
  | nil => simp [getItemFrom]
  | cons x xs ih =>
    obtain ⟨_, onward, rest⟩ := seg
    rw [Option.or_none] at onward
    cases fuel with
    | zero => simp at enough
    | succ fuel =>
      rw [List.head?_cons, getItemFrom, onward]
      by_cases found : h.data x = d
      · simp [found]
      · simp [found, ih rest (by simpa using enough)]

variable [DecidableEq ι] [DecidableEq κ]

/-- The sequences after an item left whichever of them it was in. -/
def detach (seq : κ → List ι) (i : ι) : κ → List ι := fun k => (seq k).erase i

theorem detach_eq_update {h : Heap δ ι κ} {seq : κ → List ι} (rep : Represents h seq)
    {i : ι} {l : κ} (inL : i ∈ seq l) :
    detach seq i = Function.update seq l ((seq l).erase i) := by
  funext k
  by_cases same : k = l
  · subst same
    simp [detach]
  · have notIn : i ∉ seq k := fun inK => same (rep.host_unique inK inL)
    simp [detach, same, List.erase_of_not_mem notIn]

section Remove

variable (h : Heap δ ι κ) (l k : κ) (i j : ι)

theorem remove_pred (host : h.hostDb i = some l) : (remove h l i).1.pred j =
    if j = i then none else if h.succ i = some j then h.pred i else h.pred j := by
  simp only [remove, host, ne_eq, not_true_eq_false, if_false]
  cases h.pred i <;> cases h.succ i <;> simp [apply_ite Heap.pred, ite_apply, eq_comm]

theorem remove_succ (host : h.hostDb i = some l) : (remove h l i).1.succ j =
    if j = i then none else if h.pred i = some j then h.succ i else h.succ j := by
  simp only [remove, host, ne_eq, not_true_eq_false, if_false]
  cases h.pred i <;> cases h.succ i <;> simp [apply_ite Heap.succ, ite_apply, eq_comm]

theorem remove_hostDb (host : h.hostDb i = some l) : (remove h l i).1.hostDb j =
    if j = i then none else h.hostDb j := by
  simp only [remove, host, ne_eq, not_true_eq_false, if_false]
  cases h.pred i <;> cases h.succ i <;> simp [apply_ite Heap.hostDb, ite_apply]

theorem remove_headItem (host : h.hostDb i = some l) : (remove h l i).1.headItem k =
    if k = l then (if h.pred i = none then h.succ i else h.headItem l) else h.headItem k := by
  simp only [remove, host, ne_eq, not_true_eq_false, if_false]
  cases h.pred i <;> cases h.succ i <;> by_cases same : k = l <;>
    simp [apply_ite Heap.headItem, ite_apply, same]

theorem remove_tailItem (host : h.hostDb i = some l) : (remove h l i).1.tailItem k =
    if k = l then (if h.tailItem l = some i then h.pred i else h.tailItem l)
    else h.tailItem k := by
  simp only [remove, host, ne_eq, not_true_eq_false, if_false]
  cases h.pred i <;> cases h.succ i <;> by_cases same : k = l <;>
    simp [apply_ite Heap.tailItem, ite_apply, same]

theorem remove_size (host : h.hostDb i = some l) : (remove h l i).1.size k =
    if k = l then (h.size l + 255) % 256 else h.size k := by
  simp only [remove, host, ne_eq, not_true_eq_false, if_false]
  cases h.pred i <;> cases h.succ i <;> simp [apply_ite Heap.size, ite_apply]

end Remove

theorem remove_represents {h : Heap δ ι κ} {seq : κ → List ι} (rep : Represents h seq)
    {l : κ} {i : ι} (inL : i ∈ seq l) :
    Represents (remove h l i).1 (Function.update seq l ((seq l).erase i)) := by
  obtain ⟨as, bs, split, notLeft, notRight⟩ := exists_split inL (rep.nodup l)
  have host := (rep.host l i).mpr inL
  have seg : Segment h.pred h.succ none (as ++ i :: bs) none := split ▸ rep.chain l
  have predI : h.pred i = as.getLast? := by simpa using seg.pred_of_split
  have succI : h.succ i = bs.head? := by simpa using seg.succ_of_split
  have headL : h.headItem l = (as ++ i :: bs).head? := split ▸ rep.head l
  have tailL : h.tailItem l = (as ++ i :: bs).getLast? := split ▸ rep.tail l
  rw [split, erase_split notLeft]
  refine rep.unlink _ _ split (fun j => ?_) (fun j => ?_) (fun j => remove_hostDb h l i j host)
    (fun k => ?_) (fun k => ?_) (fun k => remove_size h l k i host)
  · rw [remove_pred h l i j host, predI, succI]
  · rw [remove_succ h l i j host, predI, succI]
  · rw [remove_headItem h l k i host, predI, succI, headL]
    cases as <;> simp
  · rw [remove_tailItem h l k i host, predI, tailL]
    have last : (as ++ i :: bs).getLast? = some i ↔ bs = [] := by
      cases bs with
      | nil => simp
      | cons b bs =>
        simp only [reduceCtorEq, iff_false]
        intro eq
        exact notRight (List.mem_of_getLast? (by simpa using eq))
    by_cases alone : bs = []
    · subst alone
      simp
    · rw [if_neg (fun eq => alone (last.mp eq))]
      cases bs with
      | nil => exact absurd rfl alone
      | cons b bs => simp

/-- Removal through a list that is not the item's host is refused. -/
theorem remove_refused {h : Heap δ ι κ} {seq : κ → List ι} (rep : Represents h seq)
    {l : κ} {i : ι} (notIn : i ∉ seq l) : remove h l i = (h, cElementNotInDatabase) := by
  have host : h.hostDb i ≠ some l := fun eq => notIn ((rep.host l i).mp eq)
  simp [remove, host]

theorem removeFromHost_represents {h : Heap δ ι κ} {seq : κ → List ι} (rep : Represents h seq)
    (i : ι) : Represents (removeFromHost h i) (detach seq i) ∧
      (removeFromHost h i).hostDb i = none := by
  cases host : h.hostDb i with
  | none =>
    have unchanged : removeFromHost h i = h := by simp [removeFromHost, host]
    have same : detach seq i = seq := by
      funext k
      refine List.erase_of_not_mem fun inK => ?_
      simp [(rep.host k i).mpr inK] at host
    rw [unchanged, same]
    exact ⟨rep, host⟩
  | some l =>
    have removed : removeFromHost h i = (remove h l i).1 := by simp [removeFromHost, host]
    have inL := (rep.host l i).mp host
    rw [removed, detach_eq_update rep inL]
    exact ⟨remove_represents rep inL, by simp [remove_hostDb h l i i host]⟩

section RemoveEnds

variable (h : Heap δ ι κ) (l k : κ) (x j : ι)

theorem removeHead_pred (front : h.headItem l = some x) : (removeHead h l).1.pred j =
    if j = x then none else if h.succ x = some j then none else h.pred j := by
  simp only [removeHead, front, Heap.setHead_headItem, if_true]
  cases h.succ x <;> simp [eq_comm]

theorem removeHead_succ (front : h.headItem l = some x) : (removeHead h l).1.succ j =
    if j = x then none else h.succ j := by
  simp only [removeHead, front, Heap.setHead_headItem, if_true]
  cases h.succ x <;> simp

theorem removeHead_hostDb (front : h.headItem l = some x) : (removeHead h l).1.hostDb j =
    if j = x then none else h.hostDb j := by
  simp only [removeHead, front, Heap.setHead_headItem, if_true]
  cases h.succ x <;> simp

theorem removeHead_headItem (front : h.headItem l = some x) : (removeHead h l).1.headItem k =
    if k = l then h.succ x else h.headItem k := by
  simp only [removeHead, front, Heap.setHead_headItem, if_true]
  cases h.succ x <;> simp

theorem removeHead_tailItem (front : h.headItem l = some x) : (removeHead h l).1.tailItem k =
    if k = l then (if h.succ x = none then none else h.tailItem l) else h.tailItem k := by
  simp only [removeHead, front, Heap.setHead_headItem, if_true]
  cases h.succ x <;> by_cases same : k = l <;> simp [same]

theorem removeHead_size (front : h.headItem l = some x) : (removeHead h l).1.size k =
    if k = l then (h.size l + 255) % 256 else h.size k := by
  simp only [removeHead, front, Heap.setHead_headItem, if_true]
  cases h.succ x <;> simp

theorem removeTail_pred (back : h.tailItem l = some x) : (removeTail h l).1.pred j =
    if j = x then none else h.pred j := by
  simp only [removeTail, back, Heap.setTail_tailItem, if_true]
  cases h.pred x <;> simp

theorem removeTail_succ (back : h.tailItem l = some x) : (removeTail h l).1.succ j =
    if j = x then none else if h.pred x = some j then none else h.succ j := by
  simp only [removeTail, back, Heap.setTail_tailItem, if_true]
  cases h.pred x <;> simp [eq_comm]

theorem removeTail_hostDb (back : h.tailItem l = some x) : (removeTail h l).1.hostDb j =
    if j = x then none else h.hostDb j := by
  simp only [removeTail, back, Heap.setTail_tailItem, if_true]
  cases h.pred x <;> simp

theorem removeTail_headItem (back : h.tailItem l = some x) : (removeTail h l).1.headItem k =
    if k = l then (if h.pred x = none then none else h.headItem l) else h.headItem k := by
  simp only [removeTail, back, Heap.setTail_tailItem, if_true]
  cases h.pred x <;> by_cases same : k = l <;> simp [same]

theorem removeTail_tailItem (back : h.tailItem l = some x) : (removeTail h l).1.tailItem k =
    if k = l then h.pred x else h.tailItem k := by
  simp only [removeTail, back, Heap.setTail_tailItem, if_true]
  cases h.pred x <;> simp

theorem removeTail_size (back : h.tailItem l = some x) : (removeTail h l).1.size k =
    if k = l then (h.size l + 255) % 256 else h.size k := by
  simp only [removeTail, back, Heap.setTail_tailItem, if_true]
  cases h.pred x <;> simp

end RemoveEnds

theorem removeHead_represents {h : Heap δ ι κ} {seq : κ → List ι} (rep : Represents h seq)
    (l : κ) : (removeHead h l).2 = (seq l).head? ∧
      Represents (removeHead h l).1 (Function.update seq l (seq l).tail) := by
  cases split : seq l with
  | nil =>
    have empty : h.headItem l = none := by rw [rep.head l, split]; rfl
    have same : Function.update seq l [] = seq := by rw [← split, Function.update_eq_self]
    simp only [removeHead, empty, List.head?_nil, List.tail_nil, same, true_and]
    exact rep
  | cons x xs =>
    have seg : Segment h.pred h.succ none ([] ++ x :: xs) none := split ▸ rep.chain l
    have succX : h.succ x = xs.head? := by simpa using seg.succ_of_split
    have front : h.headItem l = some x := by rw [rep.head l, split]; rfl
    have tailL : h.tailItem l = (x :: xs).getLast? := by rw [rep.tail l, split]
    refine ⟨by simp [removeHead, front], ?_⟩
    refine rep.unlink [] _ split (fun j => ?_) (fun j => ?_)
      (fun j => removeHead_hostDb h l x j front) (fun k => ?_) (fun k => ?_)
      (fun k => removeHead_size h l k x front)
    · rw [removeHead_pred h l x j front, succX]
      rfl
    · rw [removeHead_succ h l x j front]
      simp
    · rw [removeHead_headItem h l k x front, succX]
      rfl
    · rw [removeHead_tailItem h l k x front, succX, tailL]
      cases xs <;> simp

theorem removeTail_represents {h : Heap δ ι κ} {seq : κ → List ι} (rep : Represents h seq)
    (l : κ) : (removeTail h l).2 = (seq l).getLast? ∧
      Represents (removeTail h l).1 (Function.update seq l (seq l).dropLast) := by
  rcases List.eq_nil_or_concat (seq l) with split | ⟨xs, x, split⟩
  · have empty : h.tailItem l = none := by rw [rep.tail l, split]; rfl
    have same : Function.update seq l [] = seq := by rw [← split, Function.update_eq_self]
    simp only [removeTail, empty, split, List.getLast?_nil, List.dropLast_nil, same, true_and]
    exact rep
  · rw [List.concat_eq_append] at split
    have seg : Segment h.pred h.succ none (xs ++ x :: []) none := split ▸ rep.chain l
    have predX : h.pred x = xs.getLast? := by simpa using seg.pred_of_split
    have back : h.tailItem l = some x := by rw [rep.tail l, split]; simp
    have headL : h.headItem l = (xs ++ [x]).head? := by rw [rep.head l, split]
    rw [split]
    refine ⟨by simp [removeTail, back], ?_⟩
    have dropped : (xs ++ [x]).dropLast = xs ++ [] := by simp
    rw [dropped]
    refine rep.unlink _ _ split (fun j => ?_) (fun j => ?_)
      (fun j => removeTail_hostDb h l x j back) (fun k => ?_) (fun k => ?_)
      (fun k => removeTail_size h l k x back)
    · rw [removeTail_pred h l x j back]
      simp
    · rw [removeTail_succ h l x j back, predX]
      rfl
    · rw [removeTail_headItem h l k x back, predX, headL]
      cases xs <;> simp
    · rw [removeTail_tailItem h l k x back, predX]
      simp

/-- Two stores to different items commute. -/
private theorem store_swap {x i : ι} (differ : x ≠ i) (j : ι) (a b s : Option ι) :
    (if j = x then a else if j = i then b else s) =
      if j = i then b else if x = j then a else s := by
  by_cases atX : j = x
  · subst atX
    simp [differ]
  · simp [atX, Ne.symm atX]

theorem addTail_represents {h : Heap δ ι κ} {seq : κ → List ι} (rep : Represents h seq)
    (l : κ) (i : ι) : Represents (addTail h l i).1
      (Function.update (detach seq i) l (detach seq i l ++ [i])) := by
  obtain ⟨rep, free⟩ := removeFromHost_represents rep i
  unfold addTail
  generalize removeFromHost h i = g at rep free ⊢
  generalize detach seq i = rest at rep ⊢
  rcases List.eq_nil_or_concat (rest l) with split | ⟨xs, x, split⟩
  · have head : g.headItem l = none := by rw [rep.head l, split]; rfl
    rw [split, List.nil_append]
    refine rep.link [] [] free split (fun j => ?_) (fun j => ?_) (fun j => ?_)
      (fun k => ?_) (fun k => ?_) (fun k => ?_)
    all_goals simp [head]
  · rw [List.concat_eq_append] at split
    have head : g.headItem l ≠ none := by rw [rep.head l, split]; simp
    have tail : g.tailItem l = some x := by rw [rep.tail l, split]; simp
    have old : x ≠ i := ne_of_detached rep free (by rw [split]; simp)
    refine rep.link (rest l) [] free (by simp) (fun j => ?_) (fun j => ?_)
      (fun j => ?_) (fun k => ?_) (fun k => ?_) (fun k => ?_)
    · simp [head, tail, split]
    · simp [head, tail, split, store_swap old]
    · simp [head, tail]
    · have front : (rest l ++ [i]).head? = (rest l).head? := by rw [split]; simp
      rw [front, ← rep.head l]
      by_cases same : k = l <;> simp [head, tail, same]
    · simp [head, tail]
    · simp [head, tail]

theorem addHead_represents {h : Heap δ ι κ} {seq : κ → List ι} (rep : Represents h seq)
    (l : κ) (i : ι) : Represents (addHead h l i).1
      (Function.update (detach seq i) l (i :: detach seq i l)) := by
  obtain ⟨rep, free⟩ := removeFromHost_represents rep i
  unfold addHead
  generalize removeFromHost h i = g at rep free ⊢
  generalize detach seq i = rest at rep ⊢
  cases split : rest l with
  | nil =>
    have head : g.headItem l = none := by rw [rep.head l, split]; rfl
    refine rep.link [] [] free split (fun j => ?_) (fun j => ?_) (fun j => ?_)
      (fun k => ?_) (fun k => ?_) (fun k => ?_)
    all_goals simp [head]
  | cons x xs =>
    have head : g.headItem l = some x := by rw [rep.head l, split]; rfl
    have tail : g.tailItem l = (x :: xs).getLast? := by rw [rep.tail l, split]
    have old : x ≠ i := ne_of_detached rep free (by rw [split]; simp)
    refine rep.link [] (x :: xs) free split (fun j => ?_) (fun j => ?_) (fun j => ?_)
      (fun k => ?_) (fun k => ?_) (fun k => ?_)
    · simp [head, apply_ite Heap.pred, ite_apply, store_swap old]
    · simp [head, apply_ite Heap.succ, ite_apply]
    · simp [head, apply_ite Heap.hostDb, ite_apply]
    · simp [head, apply_ite Heap.headItem, ite_apply]
    · -- the tail is stored only when it is the head, so it keeps its value
      have back : (i :: x :: xs).getLast? = g.tailItem l := by rw [tail]; simp
      rw [List.nil_append, back]
      by_cases single : g.tailItem l = some x
      · by_cases same : k = l <;> simp [head, single, same]
      · by_cases same : k = l <;> simp [head, Ne.symm single, same]
    · simp [head, apply_ite Heap.size, ite_apply]

/-- `insertAfter` behind a member of the list, other than the item itself. -/
theorem insertAfter_represents {h : Heap δ ι κ} {seq : κ → List ι} (rep : Represents h seq)
    {l : κ} {i x : ι} (neighbour : h.hostDb x = some l) (differ : x ≠ i) :
    Represents (insertAfter h l i x).1
      (Function.update (detach seq i) l (Lib.Sequences.insertAfter x i (detach seq i l))) := by
  have member : x ∈ detach seq i l :=
    (List.mem_erase_of_ne differ).mpr ((rep.host l x).mp neighbour)
  obtain ⟨rep, free⟩ := removeFromHost_represents rep i
  unfold insertAfter
  generalize removeFromHost h i = g at rep free ⊢
  generalize detach seq i = rest at rep member ⊢
  obtain ⟨as, bs, split, notLeft, notRight⟩ := exists_split member (rep.nodup l)
  have seg : Segment g.pred g.succ none (as ++ x :: bs) none := split ▸ rep.chain l
  have succX : g.succ x = bs.head? := by simpa using seg.succ_of_split
  have headL : g.headItem l = (as ++ x :: bs).head? := split ▸ rep.head l
  have tailL : g.tailItem l = (as ++ x :: bs).getLast? := split ▸ rep.tail l
  have around : rest l = (as ++ [x]) ++ bs := by simp [split]
  have placed : Lib.Sequences.insertAfter x i (rest l) = (as ++ [x]) ++ i :: bs := by
    rw [split, insertAfter_split notLeft]
    simp
  rw [placed]
  cases bs with
  | nil =>
    have succX : g.succ x = none := succX
    refine rep.link _ _ free around (fun j => ?_) (fun j => ?_) (fun j => ?_) (fun k => ?_)
      (fun k => ?_) (fun k => ?_)
    · simp [succX]
    · simp [succX, store_swap differ]
    · simp [succX]
    · by_cases same : k = l
      · subst same
        simp [succX, headL]
      · simp [succX, same]
    · simp [succX]
    · simp [succX]
  | cons s bs =>
    have succX : g.succ x = some s := succX
    have next : s ≠ i := ne_of_detached rep free (by rw [split]; simp)
    refine rep.link _ _ free around (fun j => ?_) (fun j => ?_) (fun j => ?_) (fun k => ?_)
      (fun k => ?_) (fun k => ?_)
    · simp [succX, eq_comm]
    · simp [succX, store_swap differ]
    · simp [succX]
    · by_cases same : k = l
      · subst same
        simp [succX, headL]
      · simp [succX, same]
    · by_cases same : k = l
      · subst same
        simp [succX, tailL]
      · simp [succX, same]
    · simp [succX]

/-- `insertBefore` in front of a member of the list, other than the item itself. -/
theorem insertBefore_represents {h : Heap δ ι κ} {seq : κ → List ι} (rep : Represents h seq)
    {l : κ} {i x : ι} (neighbour : h.hostDb x = some l) (differ : x ≠ i) :
    Represents (insertBefore h l i x).1
      (Function.update (detach seq i) l (Lib.Sequences.insertBefore x i (detach seq i l))) := by
  have member : x ∈ detach seq i l :=
    (List.mem_erase_of_ne differ).mpr ((rep.host l x).mp neighbour)
  obtain ⟨rep, free⟩ := removeFromHost_represents rep i
  unfold insertBefore
  generalize removeFromHost h i = g at rep free ⊢
  generalize detach seq i = rest at rep member ⊢
  obtain ⟨as, bs, split, notLeft, notRight⟩ := exists_split member (rep.nodup l)
  have seg : Segment g.pred g.succ none (as ++ x :: bs) none := split ▸ rep.chain l
  have predX : g.pred x = as.getLast? := by simpa using seg.pred_of_split
  have headL : g.headItem l = (as ++ x :: bs).head? := split ▸ rep.head l
  have tailL : g.tailItem l = (as ++ x :: bs).getLast? := split ▸ rep.tail l
  have placed : Lib.Sequences.insertBefore x i (rest l) = as ++ i :: x :: bs := by
    rw [split, insertBefore_split notLeft]
  rw [placed]
  rcases List.eq_nil_or_concat as with rfl | ⟨as, p, rfl⟩
  · have predX : g.pred x = none := predX
    refine rep.link _ _ free split (fun j => ?_) (fun j => ?_) (fun j => ?_) (fun k => ?_)
      (fun k => ?_) (fun k => ?_)
    · simp [predX, store_swap differ]
    · simp [predX]
    · simp [predX]
    · simp [predX]
    · by_cases same : k = l
      · subst same
        simp [predX, tailL]
      · simp [predX, same]
    · simp [predX]
  · rw [List.concat_eq_append] at *
    have predX : g.pred x = some p := by simpa using predX
    have before : p ≠ i := ne_of_detached rep free (by rw [split]; simp)
    refine rep.link _ _ free split (fun j => ?_) (fun j => ?_) (fun j => ?_) (fun k => ?_)
      (fun k => ?_) (fun k => ?_)
    · simp [predX, store_swap differ]
    · simp [predX, eq_comm]
    · simp [predX]
    · by_cases same : k = l
      · subst same
        simp [predX, headL]
      · simp [predX, same]
    · by_cases same : k = l
      · subst same
        simp [predX, tailL]
      · simp [predX, same]
    · simp [predX]

/-! No operation touches the objects the items point to. -/

theorem remove_data (h : Heap δ ι κ) (l : κ) (i j : ι) : (remove h l i).1.data j = h.data j := by
  by_cases host : h.hostDb i = some l
  · simp only [remove, host, ne_eq, not_true_eq_false, if_false]
    cases h.pred i <;> cases h.succ i <;> simp [apply_ite Heap.data, ite_apply]
  · simp [remove, host]

theorem removeFromHost_data (h : Heap δ ι κ) (i j : ι) :
    (removeFromHost h i).data j = h.data j := by
  cases host : h.hostDb i with
  | none => simp [removeFromHost, host]
  | some l =>
    simp only [removeFromHost, host]
    exact remove_data h l i j

theorem removeHead_data (h : Heap δ ι κ) (l : κ) (j : ι) :
    (removeHead h l).1.data j = h.data j := by
  cases front : h.headItem l with
  | none => simp [removeHead, front]
  | some x =>
    simp only [removeHead, front, Heap.setHead_headItem, if_true]
    cases h.succ x <;> simp

theorem removeTail_data (h : Heap δ ι κ) (l : κ) (j : ι) :
    (removeTail h l).1.data j = h.data j := by
  cases back : h.tailItem l with
  | none => simp [removeTail, back]
  | some x =>
    simp only [removeTail, back, Heap.setTail_tailItem, if_true]
    cases h.pred x <;> simp

theorem addTail_data (h : Heap δ ι κ) (l : κ) (i j : ι) :
    (addTail h l i).1.data j = h.data j := by
  rw [← removeFromHost_data h i j, addTail]
  generalize removeFromHost h i = g
  cases tail : g.tailItem l <;> by_cases empty : g.headItem l = none <;> simp [tail, empty]

theorem addHead_data (h : Heap δ ι κ) (l : κ) (i j : ι) :
    (addHead h l i).1.data j = h.data j := by
  rw [← removeFromHost_data h i j, addHead]
  generalize removeFromHost h i = g
  cases head : g.headItem l <;> simp [head, apply_ite Heap.data, ite_apply]

theorem insertAfter_data (h : Heap δ ι κ) (l : κ) (i x j : ι) :
    (insertAfter h l i x).1.data j = h.data j := by
  rw [← removeFromHost_data h i j, insertAfter]
  generalize removeFromHost h i = g
  cases next : g.succ x <;> simp [next]

theorem insertBefore_data (h : Heap δ ι κ) (l : κ) (i x j : ι) :
    (insertBefore h l i x).1.data j = h.data j := by
  rw [← removeFromHost_data h i j, insertBefore]
  generalize removeFromHost h i = g
  cases next : g.pred x <;> simp [next]

theorem removeData_eq [DecidableEq δ] {h : Heap δ ι κ} {seq : κ → List ι} (rep : Represents h seq)
    (l : κ) (d : δ) {fuel : Nat} (enough : (seq l).length ≤ fuel) :
    removeData h l d fuel = some (match (seq l).find? (fun i => h.data i = d) with
      | none => (h, cError)
      | some i => remove h l i) := by
  have found : getItem h l d fuel = some ((seq l).find? (fun i => h.data i = d)) := by
    rw [getItem, rep.head l]
    exact getItemFrom_eq_find (rep.chain l) d enough
  rw [removeData, found]
  cases (seq l).find? (fun i => h.data i = d) <;> rfl

end Orcos.Source.LinkedList
