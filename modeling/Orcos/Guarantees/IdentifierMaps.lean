import Mathlib.Data.Finset.Basic
import Mathlib.Data.Finset.Lattice.Lemmas
import Mathlib.Data.Finset.Range
import Orcos.Lib.Runs
import Orcos.Source.IDMap

/-!
# Identifier maps: the lowest free ID

The specification keeps the set of IDs in use and hands out the lowest other
ID. A fresh map follows it with the IDs its constructor cleared as if they were
in use, and it cleared none exactly when the number of IDs is no multiple of
the word width (or the undefined shift happens to give one).
-/
namespace Orcos.Guarantees.IdentifierMaps
open Orcos.Lib.Runs Orcos.Lib.WordBits Orcos.Source Orcos.Source.IDMap

inductive Call
  | getNextID
  | invalidateID (id : Int)
  | freeID (id : Int)

/-- What a call returns; `undefined` stands for an access outside the map. -/
inductive Answer
  | id (n : Int)
  | done
  | undefined
  deriving DecidableEq

/-- The call as Bitmap.hh performs it. -/
def perform (m : IDMap) : Call → IDMap × Answer
  | .getNextID => Prod.map id .id m.getNextID
  | .invalidateID id =>
    match m.invalidateID id with
    | some m => (m, .done)
    | none => (m, .undefined)
  | .freeID id =>
    match m.freeID id with
    | some m => (m, .done)
    | none => (m, .undefined)

/-- The lowest of the IDs that is not in use. -/
def lowestFree (ids : Nat) (used : Finset Nat) : Option Nat :=
  (List.range ids).find? (fun id => id ∉ used)

/-- The call on the set of IDs in use. -/
def performOn (ids : Nat) (used : Finset Nat) : Call → Finset Nat × Answer
  | .getNextID =>
    match lowestFree ids used with
    | some id => (insert id used, .id id)
    | none => (used, .id (-1))
  | .invalidateID id => (if id < ids then insert id.toNat used else used, .done)
  | .freeID id => (if id < ids then used.erase id.toNat else used, .done)

/-- The calls whose ID is not negative. -/
def Call.NonNegative : Call → Prop
  | .getNextID => True
  | .invalidateID id => 0 ≤ id
  | .freeID id => 0 ≤ id

/-- The set bits of the map are the IDs that are not in use. -/
structure Tracks (ids : Nat) (used : Finset Nat) (m : IDMap) : Prop where
  count : m.ids = ids
  words : ids ≤ m.map.length * 32
  bits : ∀ k, bit m.map k = decide (k < ids ∧ k ∉ used)

theorem lowestFree_eq_firstSet {ids : Nat} {used : Finset Nat} {m : IDMap}
    (tracks : Tracks ids used m) : lowestFree ids used = firstSet m.map := by
  cases first : firstSet m.map with
  | none =>
    refine List.find?_eq_none.mpr fun k inRange => ?_
    have clear := firstSet_eq_none first k
    rw [tracks.bits] at clear
    have := List.mem_range.mp inRange
    simp_all
  | some k =>
    obtain ⟨set, clear⟩ := firstSet_eq_some first
    rw [tracks.bits, decide_eq_true_iff] at set
    refine List.find?_range_eq_some.mpr ⟨by simpa using set.2, by simpa using set.1, ?_⟩
    intro j before
    have := clear j before
    rw [tracks.bits] at this
    simp only [decide_eq_false_iff_not] at this
    simp
    by_contra notUsed
    exact this ⟨by omega, notUsed⟩

/-- One call keeps the map and the set together, with the same answer. -/
theorem perform_simulates {ids : Nat} (used : Finset Nat) (m : IDMap) (call : Call)
    (tracks : Tracks ids used m) (nonNegative : call.NonNegative) :
    Tracks ids (performOn ids used call).1 (perform m call).1 ∧
      (performOn ids used call).2 = (perform m call).2 := by
  have within : ∀ id < ids, id / 32 < m.map.length := fun id small => by
    have := tracks.words
    omega
  have invalidated : ∀ id < ids,
    Tracks ids (insert id used) { m with map := clearBit m.map id } := by
    intro id small
    refine ⟨tracks.count, by simpa using tracks.words, fun k => ?_⟩
    rw [bit_clearBit (within id small), tracks.bits]
    by_cases same : k = id <;> simp [same]
  cases call with
  | getNextID =>
    simp only [performOn, perform, getNextID, nextFrom_eq, lowestFree_eq_firstSet tracks,
      Prod.map_fst, Prod.map_snd, id_eq]
    cases first : firstSet m.map with
    | none => exact ⟨tracks, rfl⟩
    | some k =>
      have set := (firstSet_eq_some first).1
      rw [tracks.bits, decide_eq_true_iff] at set
      exact ⟨invalidated k set.1, by simp⟩
  | invalidateID id =>
    obtain ⟨id, rfl⟩ := Int.eq_ofNat_of_zero_le nonNegative
    by_cases small : id < ids
    · simp only [performOn, perform, invalidateID_eq m (tracks.count ▸ small)]
      simpa [small] using invalidated id small
    · have refused : m.invalidateID id = some m := by
        rw [invalidateID, if_pos (by rw [tracks.count]; omega)]
      simpa [performOn, perform, refused, small] using tracks
  | freeID id =>
    obtain ⟨id, rfl⟩ := Int.eq_ofNat_of_zero_le nonNegative
    by_cases small : id < ids
    · simp only [performOn, perform, freeID_eq m (tracks.count ▸ small)]
      refine ⟨⟨tracks.count, by simpa using tracks.words, fun k => ?_⟩, trivial⟩
      rw [bit_setBit (within id small), tracks.bits]
      by_cases same : k = id <;> simp [same, small]
    · have refused : m.freeID id = some m := by
        rw [freeID, if_pos (by rw [tracks.count]; omega)]
      simpa [performOn, perform, refused, small] using tracks

/-- The IDs the constructor takes out of a map it should only fill. -/
def missing (beyond : BitVec 32) (ids : Nat) : Finset Nat :=
  (Finset.range ids).filter (fun k => bit (fresh beyond ids).map k = false)

/-- A fresh map is a map with the missing IDs in use. -/
theorem fresh_tracks (beyond : BitVec 32) {ids : Nat} (positive : 0 < ids) :
    Tracks ids (missing beyond ids) (fresh beyond ids) := by
  refine ⟨rfl, ?_, fun k => ?_⟩
  · simp [fresh, ceiling]
    omega
  · by_cases known : k < ids
    · simp [missing, known]
    · have outside : bit (fresh beyond ids).map k = false := by
        by_cases isFull : ids % 32 = 0
        · simp [fresh_bit_full beyond positive isFull, known]
        · simp [fresh_bit_remainder beyond positive isFull, known]
      simp [known, outside]

theorem missing_eq_empty_iff (beyond : BitVec 32) {ids : Nat} (positive : 0 < ids) :
    missing beyond ids = ∅ ↔ ids % 32 ≠ 0 ∨ beyond = 1#32 := by
  rw [missing, Finset.filter_eq_empty_iff]
  by_cases isFull : ids % 32 = 0
  · have lower : ∀ j < 32, (ids - 32 + j) % 32 = j := by omega
    simp only [isFull, ne_eq, not_true_eq_false, false_or, Finset.mem_range,
      fresh_bit_full beyond positive isFull]
    constructor
    · intro all
      -- every bit of the last word is set, so the subtrahend of the mask is zero
      have zero : beyond - 1#32 = 0#32 := by
        refine BitVec.eq_of_getMsbD_eq fun j small => ?_
        have set := @all (ids - 32 + j) (by omega)
        simpa [lower j small, show ids - 32 + j < ids by omega] using set
      rw [← BitVec.sub_add_cancel beyond 1#32, zero, BitVec.zero_add]
    · rintro rfl k known
      simp [known]
  · simp only [ne_eq, isFull, not_false_eq_true, true_or, iff_true, Finset.mem_range]
    intro k known
    simp [fresh_bit_remainder beyond positive isFull, known]

/-- Every run of a fresh map is a run of the specification that starts with the
missing IDs in use. -/
theorem outputs_eq_from_missing (beyond : BitVec 32) {ids : Nat} (positive : 0 < ids)
    (calls : List Call) (nonNegative : ∀ call ∈ calls, call.NonNegative) :
    outputs perform (fresh beyond ids) calls =
      outputs (performOn ids) (missing beyond ids) calls := by
  have admissible : Admissible (fun used call => (performOn ids used call).1)
      (fun _ call => call.NonNegative) (missing beyond ids) calls :=
    admissible_of_forall _ _ calls nonNegative
  exact (outputs_simulation (Tracks ids) perform_simulates calls _ _
    (fresh_tracks beyond positive) admissible).2.symm

/-- Taking the lowest IDs out by hand. -/
def invalidations (n : Nat) : List Call := (List.range n).map (fun id : Nat => .invalidateID id)

theorem exec_invalidations {ids n : Nat} (used : Finset Nat) (known : n ≤ ids) :
    exec (fun used call => (performOn ids used call).1) used (invalidations n) =
      used ∪ Finset.range n := by
  induction n with
  | zero => simp [invalidations, exec]
  | succ n ih =>
    rw [invalidations, List.range_succ, List.map_append, exec_append]
    change exec _ (exec _ used (invalidations n)) _ = _
    rw [ih (by omega), List.map_singleton, exec, exec, performOn, Int.toNat_natCast,
      if_pos (by omega), Finset.range_add_one, Finset.union_insert]

/-- The next ID after all lower ones were taken out: the ID itself, if it is not in use. -/
theorem lowestFree_above {ids n : Nat} (used : Finset Nat) (known : n < ids) :
    lowestFree ids (used ∪ Finset.range n) = some n ↔ n ∉ used := by
  rw [lowestFree, List.find?_range_eq_some]
  simp only [Finset.mem_union, Finset.mem_range, Nat.lt_irrefl, or_false, decide_eq_true_eq,
    List.mem_range, known, true_and]
  refine and_iff_left fun j before => ?_
  simp [before]

/-- For every number of IDs: in all runs the answers are those of the
specification if and only if the number of IDs is no multiple of the word
width, or the compiler makes one of the undefined shift. -/
theorem outputs_eq_spec_iff (beyond : BitVec 32) (ids : Nat) (positive : 0 < ids) :
    (∀ calls : List Call, (∀ call ∈ calls, call.NonNegative) →
      outputs perform (fresh beyond ids) calls = outputs (performOn ids) ∅ calls) ↔
    ids % 32 ≠ 0 ∨ beyond = 1#32 := by
  rw [← missing_eq_empty_iff beyond positive]
  constructor
  · intro follows
    by_contra nonempty
    obtain ⟨n, isMissing⟩ := Finset.nonempty_iff_ne_empty.mpr nonempty
    have known : n < ids := Finset.mem_range.mp (Finset.mem_filter.mp isMissing).1
    -- take all lower IDs out and ask for the missing one
    have nonNegative : ∀ call ∈ invalidations n ++ [.getNextID], call.NonNegative := by
      intro call member
      rcases List.mem_append.mp member with early | last
      · obtain ⟨k, _, rfl⟩ := List.mem_map.mp early
        exact Int.natCast_nonneg k
      · rw [List.mem_singleton.mp last]
        trivial
    have same := follows _ nonNegative
    rw [outputs_eq_from_missing beyond positive _ nonNegative, outputs_append, outputs_append,
      exec_invalidations _ known.le, exec_invalidations _ known.le] at same
    have last := (List.append_inj same (by simp [outputs_length])).2
    have free := (lowestFree_above ∅ known).mpr (by simp)
    have taken : lowestFree ids (missing beyond ids ∪ Finset.range n) ≠ some n := fun eq =>
      (lowestFree_above _ known).mp eq isMissing
    simp only [outputs, performOn, free] at last
    cases found : lowestFree ids (missing beyond ids ∪ Finset.range n) with
    | none => simp [found] at last
    | some k =>
      simp only [found, List.cons.injEq, Answer.id.injEq, and_true] at last
      exact taken (by rw [found, Int.ofNat_inj.mp last])
  · intro none calls nonNegative
    rw [outputs_eq_from_missing beyond positive calls nonNegative, none]

/-- A map of 100 IDs: a freed ID comes back before higher ones. -/
theorem outputs_eq_spec_hundred :
    outputs perform (fresh 0#32 100) [.getNextID, .invalidateID 1, .getNextID, .freeID 0,
        .getNextID] =
      outputs (performOn 100) ∅ [.getNextID, .invalidateID 1, .getNextID, .freeID 0,
        .getNextID] :=
  (outputs_eq_spec_iff 0#32 100 (by decide)).mpr (.inl (by decide)) _
    (by simp [Call.NonNegative])

/-- The kernel's map of 64 IDs runs out after 32 of them. -/
theorem map_of_64_runs_out :
    (outputs perform (fresh 0#32 64) (List.replicate 33 .getNextID))[32]? = some (.id (-1)) ∧
      (outputs (performOn 64) ∅ (List.replicate 33 .getNextID))[32]? = some (.id 32) := by
  decide +kernel

end Orcos.Guarantees.IdentifierMaps
