import Mathlib.Data.Set.Card
import Orcos.Lib.Runs
import Orcos.Source.LinkedList

/-!
# Linked lists: the intrusive lists refine a family of sequences

Any number of lists and items, any order of calls. Against the lists stands a
family of sequences in which an item that is inserted anywhere first leaves the
sequence it is in. The heap keeps refining it, answer for answer, as long as

* an insertion next to a neighbour names a neighbour of the same list that is
  not the inserted item (`insertAfter` and `insertBefore` test neither), and
* an insertion that makes a list longer finds fewer than 255 items in it (the
  counter is one byte, so `getSize` restarts at zero with the 256th item).
-/
namespace Orcos.Guarantees.LinkedLists
open Orcos.Lib.Runs Orcos.Lib.Chain Orcos.Source Orcos.Source.LinkedList

/-- A call on one of the lists. -/
inductive Call (δ ι κ : Type)
  | addTail (l : κ) (i : ι)
  | addHead (l : κ) (i : ι)
  | insertAfter (l : κ) (i existing : ι)
  | insertBefore (l : κ) (i existing : ι)
  | remove (l : κ) (i : ι)
  | removeData (l : κ) (d : δ)
  | removeHead (l : κ)
  | removeTail (l : κ)

/-- What a call returns; `diverged` stands for a search that did not end. -/
inductive Answer (ι : Type)
  | code (e : ErrorT)
  | item (i : Option ι)
  | diverged

variable {δ ι κ : Type}

/-- Every list is a doubly linked chain from head to tail in the order of its
sequence, its items name it as host, no item is reached in two lists, and
`getSize` is the number of items reached from the head. -/
structure WellFormed (h : Heap δ ι κ) (seq : κ → List ι) : Prop where
  chain : ∀ l, Segment h.pred h.succ none (seq l) none
  head : ∀ l, getHead h l = (seq l).head?
  tail : ∀ l, getTail h l = (seq l).getLast?
  reached : ∀ l i, Reach h.succ (getHead h l) i ↔ i ∈ seq l
  host : ∀ l i, h.hostDb i = some l ↔ Reach h.succ (getHead h l) i
  unique : ∀ l k i, Reach h.succ (getHead h l) i → Reach h.succ (getHead h k) i → l = k
  size : ∀ l, getSize h l = Set.ncard {i | Reach h.succ (getHead h l) i}

/-- The items reached from the head are the represented ones. -/
theorem reach_iff {h : Heap δ ι κ} {seq : κ → List ι} (rep : Represents h seq) (l : κ) (i : ι) :
    Reach h.succ (getHead h l) i ↔ i ∈ seq l := by
  rw [getHead, rep.head l]
  exact (rep.chain l).reach_iff i

/-- The number of items reached from the head is the length of the sequence. -/
theorem ncard_reached {h : Heap δ ι κ} {seq : κ → List ι} (rep : Represents h seq) (l : κ) :
    Set.ncard {i | Reach h.succ (getHead h l) i} = (seq l).length := by
  classical
  have same : {i | Reach h.succ (getHead h l) i} = ((seq l).toFinset : Set ι) := by
    ext i
    simp [reach_iff rep l i]
  rw [same, Set.ncard_coe_finset, List.toFinset_card_of_nodup (rep.nodup l)]

theorem wellFormed_of_represents {h : Heap δ ι κ} {seq : κ → List ι} (rep : Represents h seq)
    (short : ∀ l, (seq l).length ≤ 255) : WellFormed h seq where
  chain := rep.chain
  head := rep.head
  tail := rep.tail
  reached := reach_iff rep
  host l i := (rep.host l i).trans (reach_iff rep l i).symm
  unique l k i inL inK := rep.host_unique ((reach_iff rep l i).mp inL) ((reach_iff rep k i).mp inK)
  size l := by
    rw [ncard_reached rep l, getSize, rep.size l]
    have := short l
    omega

/-- The insertion of `i` leaves list `l` with at most 255 items. -/
def Room (seq : κ → List ι) (l : κ) (i : ι) : Prop := (seq l).length < 255 ∨ i ∈ seq l

theorem detach_length_le [DecidableEq ι] (seq : κ → List ι) (i : ι) (l : κ) :
    (detach seq i l).length ≤ (seq l).length := List.length_erase_le

theorem detach_length_lt [DecidableEq ι] {seq : κ → List ι} {i : ι} {l : κ}
    (short : (seq l).length ≤ 255) (room : Room seq l i) : (detach seq i l).length < 255 := by
  rcases room with fewer | member
  · exact Nat.lt_of_le_of_lt (detach_length_le seq i l) fewer
  · have := List.length_erase_of_mem member
    have := List.length_pos_of_mem member
    simp only [detach]
    omega

/-- Storing a short sequence keeps the family short. -/
theorem update_short [DecidableEq κ] {seq : κ → List ι} (short : ∀ k, (seq k).length ≤ 255)
    {l : κ} {xs : List ι} (fits : xs.length ≤ 255) (k : κ) :
    (Function.update seq l xs k).length ≤ 255 := by
  by_cases same : k = l
  · subst same
    simpa using fits
  · simpa [same] using short k

/-- An insertion in a list with room keeps the family short. -/
theorem insert_short [DecidableEq ι] [DecidableEq κ] {seq : κ → List ι}
    (short : ∀ k, (seq k).length ≤ 255) {l : κ} {i : ι} (room : Room seq l i) {xs : List ι}
    (longer : xs.length ≤ (detach seq i l).length + 1) (k : κ) :
    (Function.update (detach seq i) l xs k).length ≤ 255 := by
  have fewer := detach_length_lt (short l) room
  exact update_short (fun k => (detach_length_le seq i k).trans (short k)) (by omega) k

variable [DecidableEq δ] [DecidableEq ι] [DecidableEq κ]

/-- The call as LinkedList.cc performs it. -/
def perform (fuel : Nat) (h : Heap δ ι κ) : Call δ ι κ → Heap δ ι κ × Answer ι
  | .addTail l i => Prod.map id .code (addTail h l i)
  | .addHead l i => Prod.map id .code (addHead h l i)
  | .insertAfter l i existing => Prod.map id .code (insertAfter h l i existing)
  | .insertBefore l i existing => Prod.map id .code (insertBefore h l i existing)
  | .remove l i => Prod.map id .code (remove h l i)
  | .removeData l d =>
    match removeData h l d fuel with
    | some (h, e) => (h, .code e)
    | none => (h, .diverged)
  | .removeHead l => Prod.map id .item (removeHead h l)
  | .removeTail l => Prod.map id .item (removeTail h l)

/-- The call on the sequences. -/
def performOn (data : ι → δ) (seq : κ → List ι) : Call δ ι κ → (κ → List ι) × Answer ι
  | .addTail l i =>
    let seq := detach seq i
    (Function.update seq l (seq l ++ [i]), .code cOk)
  | .addHead l i =>
    let seq := detach seq i
    (Function.update seq l (i :: seq l), .code cOk)
  | .insertAfter l i existing =>
    let seq := detach seq i
    (Function.update seq l (Lib.Sequences.insertAfter existing i (seq l)), .code cOk)
  | .insertBefore l i existing =>
    let seq := detach seq i
    (Function.update seq l (Lib.Sequences.insertBefore existing i (seq l)), .code cOk)
  | .remove l i =>
    if i ∈ seq l then (Function.update seq l ((seq l).erase i), .code cOk)
    else (seq, .code cElementNotInDatabase)
  | .removeData l d =>
    match (seq l).find? (fun i => data i = d) with
    | some i => (Function.update seq l ((seq l).erase i), .code cOk)
    | none => (seq, .code cError)
  | .removeHead l => (Function.update seq l (seq l).tail, .item (seq l).head?)
  | .removeTail l => (Function.update seq l (seq l).dropLast, .item (seq l).getLast?)

/-- The calls the lists are fit for, in terms of the sequences before the call. -/
def Proper (seq : κ → List ι) : Call δ ι κ → Prop
  | .addTail l i => Room seq l i
  | .addHead l i => Room seq l i
  | .insertAfter l i existing => Room seq l i ∧ existing ∈ seq l ∧ existing ≠ i
  | .insertBefore l i existing => Room seq l i ∧ existing ∈ seq l ∧ existing ≠ i
  | _ => True

/-- The simulation relation of the runs. -/
structure Related (data : ι → δ) (seq : κ → List ι) (h : Heap δ ι κ) : Prop where
  represents : Represents h seq
  data : ∀ i, h.data i = data i
  short : ∀ l, (seq l).length ≤ 255

/-- One call: the sequences and the heap stay related and give one answer. -/
theorem perform_simulates {data : ι → δ} {fuel : Nat} (enough : 255 ≤ fuel)
    (seq : κ → List ι) (h : Heap δ ι κ) (call : Call δ ι κ) (related : Related data seq h)
    (proper : Proper seq call) :
    Related data (performOn data seq call).1 (perform fuel h call).1 ∧
      (performOn data seq call).2 = (perform fuel h call).2 := by
  obtain ⟨rep, same, short⟩ := related
  have removed : ∀ l i, i ∈ seq l →
      Related data (Function.update seq l ((seq l).erase i)) (remove h l i).1 ∧
        (remove h l i).2 = cOk := by
    intro l i member
    refine ⟨⟨remove_represents rep member, fun j => ?_, ?_⟩, ?_⟩
    · rw [remove_data, same]
    · exact update_short short (List.length_erase_le.trans (short l))
    · simp [remove, (rep.host l i).mpr member]
  cases call with
  | addTail l i =>
    refine ⟨⟨addTail_represents rep l i, fun j => ?_, ?_⟩, rfl⟩
    · exact (addTail_data h l i j).trans (same j)
    · exact insert_short short proper (by simp)
  | addHead l i =>
    refine ⟨⟨addHead_represents rep l i, fun j => ?_, ?_⟩, rfl⟩
    · exact (addHead_data h l i j).trans (same j)
    · exact insert_short short proper (by simp)
  | insertAfter l i existing =>
    obtain ⟨room, member, differ⟩ := proper
    refine ⟨⟨insertAfter_represents rep ((rep.host l existing).mpr member) differ,
      fun j => ?_, ?_⟩, rfl⟩
    · exact (insertAfter_data h l i existing j).trans (same j)
    · exact insert_short short room (Lib.Sequences.insertAfter_length_le existing i _)
  | insertBefore l i existing =>
    obtain ⟨room, member, differ⟩ := proper
    refine ⟨⟨insertBefore_represents rep ((rep.host l existing).mpr member) differ,
      fun j => ?_, ?_⟩, rfl⟩
    · exact (insertBefore_data h l i existing j).trans (same j)
    · exact insert_short short room (Lib.Sequences.insertBefore_length_le existing i _)
  | remove l i =>
    by_cases member : i ∈ seq l
    · obtain ⟨still, ok⟩ := removed l i member
      simp only [performOn, perform, member, if_true]
      exact ⟨still, by simp [ok]⟩
    · simp only [performOn, perform, member, if_false, remove_refused rep member]
      exact ⟨⟨rep, same, short⟩, rfl⟩
  | removeData l d =>
    have search := removeData_eq rep l d ((short l).trans enough)
    simp only [same] at search
    simp only [performOn, perform, search]
    cases found : (seq l).find? (fun i => data i = d) with
    | none => exact ⟨⟨rep, same, short⟩, rfl⟩
    | some i =>
      obtain ⟨still, ok⟩ := removed l i (List.mem_of_find?_eq_some found)
      exact ⟨still, by simp [ok]⟩
  | removeHead l =>
    obtain ⟨answer, rep'⟩ := removeHead_represents rep l
    refine ⟨⟨rep', fun j => ?_, ?_⟩, ?_⟩
    · exact (removeHead_data h l j).trans (same j)
    · exact update_short short (by have := short l; simp; omega)
    · simp [performOn, perform, answer]
  | removeTail l =>
    obtain ⟨answer, rep'⟩ := removeTail_represents rep l
    refine ⟨⟨rep', fun j => ?_, ?_⟩, ?_⟩
    · exact (removeTail_data h l j).trans (same j)
    · exact update_short short (by have := short l; simp; omega)
    · simp [performOn, perform, answer]

/-- The lists and the sequences after the calls, from fresh lists. -/
def listsAfter (fuel : Nat) (data : ι → δ) (calls : List (Call δ ι κ)) : Heap δ ι κ :=
  exec (fun h call => (perform fuel h call).1) (Heap.fresh data) calls

def sequencesAfter (data : ι → δ) (calls : List (Call δ ι κ)) : κ → List ι :=
  exec (fun seq call => (performOn data seq call).1) (fun _ => []) calls

/-- After any run of proper calls the lists are well formed and refine the
sequences, and every call of the run answered as it does on the sequences. -/
theorem lists_refine_sequences (fuel : Nat) (enough : 255 ≤ fuel) (data : ι → δ)
    (calls : List (Call δ ι κ))
    (proper : Admissible (fun seq call => (performOn data seq call).1) Proper (fun _ => []) calls) :
    WellFormed (listsAfter fuel data calls) (sequencesAfter data calls) ∧
      outputs (perform fuel) (Heap.fresh data) calls =
        outputs (performOn data) (fun _ => []) calls := by
  have start : Related data (fun _ => []) (Heap.fresh data : Heap δ ι κ) :=
    ⟨fresh_represents data, fun _ => rfl, fun _ => by simp⟩
  obtain ⟨final, answers⟩ := outputs_simulation (Related data)
    (fun seq h call => perform_simulates enough seq h call) calls _ _ start proper
  exact ⟨wellFormed_of_represents final.represents final.short, answers.symm⟩

/-- Two lists, an item that changes lists, and insertions at both neighbours. -/
theorem lists_refine_sequences_two_lists :
    let calls : List (Call Unit Nat Bool) := [.addTail true 1, .addHead true 2,
      .addTail false 1, .insertBefore false 3 1, .insertAfter true 4 2, .removeData true (),
      .removeTail false]
    WellFormed (listsAfter 255 (fun _ => ()) calls) (sequencesAfter (fun _ => ()) calls) :=
  (lists_refine_sequences 255 (le_refl _) (fun _ => ()) _
    (by simp [Admissible, Proper, Room, performOn, detach, Lib.Sequences.insertBefore])).1

/-- Adding distinct items at the tail, one call for each. -/
theorem addTails_represent (fuel n : Nat) :
    Represents (listsAfter fuel (fun _ => ()) ((List.range n).map (Call.addTail ())))
      (fun _ : Unit => List.range n) := by
  induction n with
  | zero => exact fresh_represents _
  | succ n ih =>
    have run : listsAfter fuel (fun _ => ()) ((List.range (n + 1)).map (Call.addTail ())) =
        (addTail (listsAfter fuel (fun _ => ()) ((List.range n).map (Call.addTail ()))) ()
          n).1 := by
      rw [listsAfter, List.range_succ, List.map_append, exec_append]
      rfl
    have sequences : Function.update (detach (fun _ : Unit => List.range n) n) ()
        (detach (fun _ : Unit => List.range n) n () ++ [n]) = fun _ => List.range (n + 1) := by
      funext l
      simp [detach, List.range_succ, List.erase_of_not_mem]
    rw [run, ← sequences]
    exact addTail_represents ih () n

/-- After 256 items were added to one list its counter is zero. -/
theorem getSize_wraps :
    let calls : List (Call Unit Nat Unit) := (List.range 256).map (Call.addTail ())
    let h := listsAfter 255 (fun _ => ()) calls
    getSize h () = 0 ∧ Set.ncard {i | Reach h.succ (getHead h ()) i} = 256 ∧
      ¬ WellFormed h (sequencesAfter (fun _ => ()) calls) := by
  intro calls h
  have rep : Represents h (fun _ : Unit => List.range 256) := addTails_represent 255 256
  have counted : getSize h () = 0 := by simp [getSize, rep.size]
  have reached : Set.ncard {i | Reach h.succ (getHead h ()) i} = 256 := by
    rw [ncard_reached rep, List.length_range]
  refine ⟨counted, reached, fun wellFormed => ?_⟩
  have := wellFormed.size ()
  omega

end Orcos.Guarantees.LinkedLists
