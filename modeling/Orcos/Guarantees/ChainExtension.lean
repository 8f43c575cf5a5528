import Orcos.Source.Fat.AllocationOutcomes
import Orcos.Guarantees.ClusterAllocation

/-!
# Extension of a cluster chain

Source: src/source/filesystem/fat/FATFileSystem.cc, `getFATTableEntry` with
`allocate`.

The sector of the last cluster is written whatever the allocation answered, so a
failure can change the last entry, and a write that fails leaves a cluster that
is marked and linked from nowhere. When the sector cannot be read again it is
written with the contents from before the allocation.
-/
namespace Orcos.Guarantees.ChainExtension
open Orcos.Source Orcos.Source.Fat Orcos.Lib.ByteMemory
open Orcos.Source.Fat.FATFileSystem (Allocated Allocates OnPartition)
open Orcos.Guarantees.ClusterAllocation (FreeCluster lateHint lateHintFileSystem)

variable (fs : FATFileSystem) (m : Medium) (c : Nat)

/-- The chain stays as it was, and so does the whole table. -/
structure Failed (m' : Medium) (answer : Nat) : Prop where
  answer : fs.endOfChain ≤ answer
  table : ∀ d < fs.perSector * fs.fatSz, fs.slot m'.content d = fs.slot m.content d

/-- A cluster that was free is the new last one. -/
structure Extended (m' : Medium) (answer : Nat) : Prop where
  free : FreeCluster fs m answer
  linked : fs.entry m'.content c = answer
  ends : fs.endOfChain ≤ fs.entry m'.content answer
  others : ∀ d < fs.perSector * fs.fatSz, d ≠ c → d ≠ answer →
    fs.slot m'.content d = fs.slot m.content d

/-- The existing successor is answered. -/
structure Followed (m' : Medium) (answer : Nat) : Prop where
  answer : answer = fs.entry m.content c
  table : ∀ d < fs.perSector * fs.fatSz, fs.slot m'.content d = fs.slot m.content d

/-- What asking for the cluster behind another one, with allocation, should do. -/
def ExtensionContract (m' : Medium) (answer : Nat) : Prop :=
  if fs.endOfChain ≤ fs.entry m.content c then Failed fs m m' answer ∨ Extended fs m c m' answer
  else Followed fs m c m' answer

/-- The transfers after an allocation suit it: the read of the sector of the last
cluster, and its write. -/
inductive Suits (a : Allocated) : Prop
  /-- All transfers of the allocation succeed and a cluster of the volume is taken. The sector
  can be written, and it can be read again unless the taken entry lies in another one. -/
  | extended (marked : a.marked = some a.answer) (written : m.Passes (a.requests + 2))
      (kept : m.Passes (a.requests + 1) ∨ fs.slotSector a.answer ≠ fs.slotSector c)
      (low : 2 ≤ a.answer) (high : a.answer < fs.countOfClusters + 2)
  /-- No entry is marked, and the sector cannot be written. -/
  | unwritten (unmarked : a.marked = none) (fails : ¬m.Passes (a.requests + 2))
  /-- No entry is marked, or it is freed again by the contents from before, and the last
  entry is already what is written to it. -/
  | rewritten (written : m.Passes (a.requests + 2))
      (lost : ∀ n, a.marked = some n →
        ¬m.Passes (a.requests + 1) ∧ fs.slotSector n = fs.slotSector c)
      (same : fs.slot m.content c = a.answer)

/-- The sector of a cluster that is not the last one can be read. That of a last
cluster cannot be read, or what follows suits the allocation. -/
def Extendable : Prop :=
  if fs.endOfChain ≤ fs.entry m.content c then
    m.Passes 0 → ∃ a, fs.Allocates (m.ask (.read (fs.entrySector c))) a ∧ Suits fs m c a
  else m.Passes 0

variable {fs m c} {a : Allocated} {f : Nat}

theorem taken_cases (n : Nat) :
    ((FATFileSystem.taken m n f).marked = none ∨ (FATFileSystem.taken m n f).marked = some f) ∧
      ((FATFileSystem.taken m n f).answer = EOC ∨ (FATFileSystem.taken m n f).answer = f) := by
  rw [FATFileSystem.taken]
  split
  · exact ⟨.inl rfl, .inl rfl⟩
  · split
    · exact ⟨.inr rfl, .inl rfl⟩
    · split
      · exact ⟨.inr rfl, .inl rfl⟩
      · exact ⟨.inr rfl, .inr rfl⟩

/-- Only the first free entry is marked, and only on a FAT32 volume. -/
theorem found_of_marked (allocates : fs.Allocates m a) (marked : a.marked = some f) :
    fs.myFatType ≠ .fat16 ∧ fs.Found m (fs.searchStart m) f := by
  cases allocates with
  | fat16 type => cases marked
  | unreadable type failed => cases marked
  | nothing type read searched => cases marked
  | @found k f' type read searched =>
    have taken := (taken_cases (m := m) (f := f') (k + 1)).1
    rw [marked] at taken
    cases searched with
    | found first reads =>
      obtain same | same := taken
      · cases same
      · cases same
        exact ⟨type, first.started, first.low, first.high, first.free, first.first⟩

theorem answer_lt (volume : fs.OnPartition m) (allocates : fs.Allocates m a) :
    a.answer < 2 ^ 32 ∧ (fs.myFatType = .fat16 → a.answer < 2 ^ 16) := by
  cases allocates with
  | fat16 type => exact ⟨by decide, fun _ => by decide⟩
  | unreadable type failed =>
    exact ⟨(by decide : errorWord cError < 2 ^ 32), fun fat16 => absurd fat16 type⟩
  | nothing type read searched =>
    exact ⟨(by decide : EOC < 2 ^ 32), fun fat16 => absurd fat16 type⟩
  | @found k f' type read searched =>
    refine ⟨?_, fun fat16 => absurd fat16 type⟩
    cases searched with
    | found first reads =>
      have small := (ClusterAllocation.found_lt ((volume.fat32 type).same (.ask m _)) first).2
      obtain answer | answer := (taken_cases (m := m) (f := f')
        (f' / 128 - fs.searchStart m / 128 + 1 + 1)).2
      · rw [answer]
        decide
      · rw [answer]
        omega

/-- A marked entry was zero. -/
theorem slot_of_marked (volume : fs.OnPartition m) (allocates : fs.Allocates m a)
    (marked : a.marked = some f) :
    f < fs.perSector * fs.fatSz ∧ fs.entry m.content f = 0 ∧
      fs.slot m.content f ≠ 0xffffff8 := by
  obtain ⟨type, found⟩ := found_of_marked allocates marked
  have fat32 := volume.fat32 type
  obtain ⟨inside, small⟩ := ClusterAllocation.found_lt fat32 found
  have free := found.free
  rw [FATFileSystem.perSector, if_neg type]
  refine ⟨inside, free, fun same => ?_⟩
  rw [fat32.entry_eq inside small, ← FATFileSystem.slot_eq_tableWord type, same] at free
  exact absurd free (by decide)

/-- The places of the table after an allocation. -/
theorem slot_of_leaves {m₁ : Medium} (allocates : fs.Allocates m a) (leaves : fs.Leaves m m₁ a)
    (d : Nat) :
    fs.slot m₁.content d = if a.marked = some d then 0xffffff8 else fs.slot m.content d := by
  have type : a.marked ≠ none → fs.myFatType ≠ .fat16 := by
    intro some
    obtain ⟨f, marked⟩ := Option.ne_none_iff_exists'.mp some
    exact (found_of_marked allocates marked).1
  rw [← FATFileSystem.slot_markedContent type, FATFileSystem.slot, FATFileSystem.slot,
    leaves.content (fs.slotSector d) (Nat.le_add_right _ _)]

/-- The table after a last cluster was asked for its successor. -/
theorem slot_extend (volume : fs.OnPartition m) (inside : c < fs.countOfClusters + 2)
    (readable : m.Passes 0) (ends : fs.endOfChain ≤ fs.entry m.content c) :
    ∃ a, fs.Allocates (m.ask (.read (fs.entrySector c))) a ∧
      (fs.getFATTableEntry m c true).2 = (if m.Passes (a.requests + 2) then a.answer else EOC) ∧
      ∀ d, fs.slot (fs.getFATTableEntry m c true).1.content d =
        if m.Passes (a.requests + 2) ∧ d = c then a.answer
        else if m.Passes (a.requests + 2) ∧ ¬m.Passes (a.requests + 1) ∧
          fs.slotSector d = fs.slotSector c then fs.slot m.content d
        else if a.marked = some d then 0xffffff8 else fs.slot m.content d := by
  have inRange := volume.inRange inside
  have sector := (volume.entrySector_eq inside).1
  have status := mt (Medium.isError_status_iff inRange).mp (not_not_intro readable)
  have volume' : fs.OnPartition (m.ask (.read (fs.entrySector c))) :=
    volume.same (.ask m _)
  obtain ⟨a, m₁, allocates, answer, leaves⟩ :=
    FATFileSystem.allocateCluster_allocates (volume'.imp_left FATFileSystem.Fat16Volume.type)
  have small := answer_lt volume' allocates
  have later : m.Later m₁ (a.requests + 1) := by
    rw [Nat.add_comm]
    exact Medium.later_ask.trans leaves.later
  have later₂ : m.Later (m₁.ask (.read (fs.entrySector c))) (a.requests + 2) :=
    later.trans Medium.later_ask
  have reread : isError (m₁.status (fs.entrySector c)) ↔ ¬m.Passes (a.requests + 1) := by
    rw [Medium.isError_status_iff (later.inRange.mpr inRange), later.passes]
  have written : isError ((m₁.ask (.read (fs.entrySector c))).status (fs.entrySector c)) ↔
      ¬m.Passes (a.requests + 2) := by
    rw [Medium.isError_status_iff (later₂.inRange.mpr inRange), later₂.passes]
  have value : (if fs.myFatType = .fat16 then a.answer % 2 ^ 16 else a.answer) = a.answer := by
    split
    · next type => exact Nat.mod_eq_of_lt (small.2 type)
    · rfl
  have places := slot_of_leaves allocates leaves
  have places (d : Nat) : fs.slot m₁.content d =
      if a.marked = some d then 0xffffff8 else fs.slot m.content d :=
    slot_of_leaves allocates leaves d
  rw [FATFileSystem.getFATTableEntry_extend status ends answer, value]
  by_cases passes : m.Passes (a.requests + 2)
  · have content := (Medium.writeSectors_passed (later₂.inRange.mpr inRange)
      (later₂.passes.mpr passes) (fs.withEntry (if isError (m₁.status (fs.entrySector c)) then
        m.content (fs.entrySector c) else m₁.content (fs.entrySector c)) c a.answer)).1
    refine ⟨a, allocates, ?_, fun d => ?_⟩
    · rw [if_neg (mt written.mp (not_not_intro passes)), if_pos passes]
    · rw [content, Medium.ask_content, FATFileSystem.slot]
      by_cases here : fs.slotSector d = fs.slotSector c
      · rw [here, ← sector, Function.update_self,
          FATFileSystem.slotIn_withEntry volume inside small.1 here, value]
        by_cases same : d = c
        · rw [if_pos same, if_pos ⟨passes, same⟩]
        · have unset : ¬(m.Passes (a.requests + 2) ∧ d = c) := fun both => same both.2
          rw [if_neg same, if_neg unset]
          by_cases again : m.Passes (a.requests + 1)
          · have fresh : ¬(m.Passes (a.requests + 2) ∧ ¬m.Passes (a.requests + 1) ∧
                fs.entrySector c = fs.entrySector c) := fun all => all.2.1 again
            rw [if_neg (mt reread.mp (not_not_intro again)), if_neg fresh, ← places,
              FATFileSystem.slot, here, sector]
          · rw [if_pos (reread.mpr again), if_pos ⟨passes, again, rfl⟩, FATFileSystem.slot, here,
              sector]
      · have other : d ≠ c := fun same => here (congrArg fs.slotSector same)
        rw [Function.update_of_ne (sector ▸ here), if_neg fun both => other both.2,
          if_neg fun all => here all.2.2, ← places]
        rfl
  · have content := (Medium.writeSectors_failed (later₂.inRange.mpr inRange)
      (mt later₂.passes.mp passes) (fs.withEntry (if isError (m₁.status (fs.entrySector c)) then
        m.content (fs.entrySector c) else m₁.content (fs.entrySector c)) c a.answer)).1
    refine ⟨a, allocates, ?_, fun d => ?_⟩
    · rw [if_pos (written.mpr passes), if_neg passes]
    · rw [content, Medium.ask_content, if_neg fun both => passes both.1,
        if_neg fun all => passes all.1, places]

theorem endOfChain_pos (fs : FATFileSystem) : 0 < fs.endOfChain := by
  rw [FATFileSystem.endOfChain]
  split
  all_goals decide

theorem lt_EOC (volume : fs.OnPartition m) : fs.countOfClusters + 2 < EOC := by
  rw [EOC]
  rcases volume with fat16 | fat32
  · have numbers := fat16.numbers
    omega
  · have numbers := fat32.numbers
    omega

/-- A last cluster is none of the free ones. -/
theorem ne_of_free (ends : fs.endOfChain ≤ fs.entry m.content c)
    (free : fs.entry m.content f = 0) : f ≠ c := by
  intro same
  have some := endOfChain_pos fs
  rw [same] at free
  omega

/-- An entry is at most its place. -/
theorem entry_le (volume : fs.OnPartition m) (inside : c < fs.countOfClusters + 2) :
    fs.entry m.content c ≤ fs.slot m.content c := by
  rw [volume.entry_eq inside]
  split
  · exact Nat.le_refl _
  · exact Nat.mod_le _ _

/-- A last cluster is handled as it should exactly when what follows suits the
allocation. -/
theorem last_contract_iff (volume : fs.OnPartition m) (inside : c < fs.countOfClusters + 2)
    (readable : m.Passes 0) (ends : fs.endOfChain ≤ fs.entry m.content c) :
    (Failed fs m (fs.getFATTableEntry m c true).1 (fs.getFATTableEntry m c true).2 ∨
      Extended fs m c (fs.getFATTableEntry m c true).1 (fs.getFATTableEntry m c true).2) ↔
      ∃ a, fs.Allocates (m.ask (.read (fs.entrySector c))) a ∧ Suits fs m c a := by
  have volume' : fs.OnPartition (m.ask (.read (fs.entrySector c))) := volume.same (.ask m _)
  obtain ⟨a, allocates, answer, places⟩ := slot_extend volume inside readable ends
  have inTable := volume.inTable inside
  -- what is known of an entry that is marked
  have marks {f : Nat} (marked : a.marked = some f) : f < fs.perSector * fs.fatSz ∧ f ≠ c ∧
      fs.entry m.content f = 0 ∧ fs.slot m.content f ≠ 0xffffff8 := by
    obtain ⟨inTable, free, unmarked⟩ := slot_of_marked volume' allocates marked
    exact ⟨inTable, ne_of_free ends free, free, unmarked⟩
  generalize fs.getFATTableEntry m c true = result at answer places
  obtain ⟨m', answered⟩ := result
  simp only at answer places ⊢
  constructor
  · rintro (failed | extended)
    · refine ⟨a, allocates, ?_⟩
      by_cases written : m.Passes (a.requests + 2)
      · apply Suits.rewritten written
        · intro n marked
          obtain ⟨inside, other, free, unmarked⟩ := marks marked
          have kept := failed.table n inside
          rw [places, if_neg fun both => other both.2, if_pos marked] at kept
          by_contra still
          rw [if_neg fun all => still all.2] at kept
          exact unmarked kept.symm
        · have kept := failed.table c inTable
          rw [places, if_pos ⟨written, rfl⟩] at kept
          exact kept.symm
      · apply Suits.unwritten _ written
        cases marked : a.marked with
        | none => rfl
        | some n =>
          obtain ⟨inside, other, free, unmarked⟩ := marks marked
          have kept := failed.table n inside
          rw [places, if_neg fun both => other both.2, if_neg fun all => written all.1,
            if_pos marked] at kept
          exact absurd kept.symm unmarked
    · refine ⟨a, allocates, ?_⟩
      have small := extended.free.2.1
      have other := ne_of_free ends extended.free.2.2
      have taken : m.Passes (a.requests + 2) ∧ answered = a.answer := by
        by_cases written : m.Passes (a.requests + 2)
        · rw [if_pos written] at answer
          exact ⟨written, answer⟩
        · have beyond := lt_EOC volume
          rw [if_neg written] at answer
          omega
      obtain ⟨written, rfl⟩ := taken
      have changed : fs.slot m'.content a.answer ≠ fs.slot m.content a.answer := by
        intro same
        have ends' := extended.ends
        have free := extended.free.2.2
        rw [volume.entry_eq small] at ends' free
        rw [same, free] at ends'
        exact absurd (endOfChain_pos fs) (Nat.not_lt.mpr (by simpa using ends'))
      have place := places a.answer
      rw [if_neg fun both => other both.2] at place
      by_cases stale : m.Passes (a.requests + 2) ∧ ¬m.Passes (a.requests + 1) ∧
          fs.slotSector a.answer = fs.slotSector c
      · rw [if_pos stale] at place
        exact absurd place changed
      · rw [if_neg stale] at place
        by_cases marked : a.marked = some a.answer
        · apply Suits.extended marked written _ extended.free.1 small
          by_contra lost
          obtain ⟨unread, sector⟩ := not_or.mp lost
          exact stale ⟨written, unread, Classical.not_not.mp sector⟩
        · rw [if_neg marked] at place
          exact absurd place changed
  · rintro ⟨a', allocates', suits⟩
    obtain rfl := allocates.unique allocates'
    cases suits with
    | extended marked written kept low high =>
      obtain ⟨inside', other, free, unmarked⟩ := marks marked
      have type := (found_of_marked allocates marked).1
      have stale : ¬(m.Passes (a.requests + 2) ∧ ¬m.Passes (a.requests + 1) ∧
          fs.slotSector a.answer = fs.slotSector c) := by
        rintro ⟨_, unread, sector⟩
        exact kept.elim unread fun apart => apart sector
      rw [if_pos written] at answer
      subst answer
      right
      constructor
      · exact ⟨low, high, free⟩
      · have beyond := lt_EOC volume
        rw [volume.entry_eq inside, if_neg type, places, if_pos ⟨written, rfl⟩]
        rw [EOC] at beyond
        exact Nat.mod_eq_of_lt (by omega)
      · rw [volume.entry_eq high, if_neg type, places, if_neg fun both => other both.2,
          if_neg stale, if_pos marked, FATFileSystem.endOfChain, if_neg type]
        decide
      · intro d _ before new
        have unmarked : a.marked ≠ some d := by
          intro here
          rw [marked] at here
          exact new (Option.some.inj here).symm
        rw [places, if_neg fun both => before both.2, if_neg unmarked, ite_self]
    | unwritten unmarked fails =>
      left
      rw [if_neg fails] at answer
      constructor
      · rw [answer]
        exact FATFileSystem.endOfChain_le
      · intro d _
        rw [places, if_neg fun both => fails both.1, if_neg fun all => fails all.1, unmarked,
          if_neg (Option.some_ne_none d).symm]
    | rewritten written lost same =>
      left
      rw [if_pos written] at answer
      constructor
      · rw [answer, ← same]
        exact ends.trans (entry_le volume inside)
      · intro d _
        rw [places]
        split
        · next here => rw [here.2, same]
        · split
          · rfl
          · next fresh =>
            split
            · next marked => exact absurd ⟨written, lost d marked⟩ fresh
            · rfl

/-- A cluster of a volume is asked for its successor with allocation. The call does
what it should exactly when the sectors can be read and written that it needs, and
otherwise nothing is written. -/
theorem getFATTableEntry_contract_iff (volume : fs.OnPartition m)
    (inside : c < fs.countOfClusters + 2) :
    ExtensionContract fs m c (fs.getFATTableEntry m c true).1 (fs.getFATTableEntry m c true).2 ↔
      Extendable fs m c := by
  have inRange := volume.inRange inside
  have status := Medium.isError_status_iff inRange
  have sector : fs.fatSecNum (fs.entryAddr c) = fs.entrySector c := rfl
  rw [ExtensionContract, Extendable]
  by_cases readable : m.Passes 0
  · split
    · next ends =>
      rw [last_contract_iff volume inside readable ends]
      exact ⟨fun suits _ => suits, fun suits => suits readable⟩
    · next more =>
      have result := FATFileSystem.getFATTableEntry_follow
        (mt status.mp (not_not_intro readable)) more true
      rw [result]
      exact iff_of_true ⟨rfl, fun d _ => rfl⟩ readable
  · have result : fs.getFATTableEntry m c true = (m.ask (.read (fs.entrySector c)), EOC) := by
      rw [FATFileSystem.getFATTableEntry, sector, Medium.readSectors_failed (status.mpr readable)]
    rw [result]
    split
    · next ends =>
      exact iff_of_true (.inl ⟨FATFileSystem.endOfChain_le, fun d _ => rfl⟩)
        fun passes => absurd passes readable
    · next more =>
      apply iff_of_false _ readable
      intro followed
      have answer : EOC = fs.entry m.content c := followed.answer
      rw [← answer] at more
      exact more FATFileSystem.endOfChain_le

/-- A FAT32 volume of 65525 clusters with a chain of cluster 2 alone. The third
transfer, that of the information sector, fails. -/
def unreadableInfo : Medium where
  content := lateHintFileSystem.setTableWord lateHint.content 2 0x0ffffff8
  sectors := 70000
  outcome n := if n = 2 then cError else cOk
  requests := []

theorem mount_unreadableInfo : (mount 0 unreadableInfo).2 = some lateHintFileSystem := by
  decide +kernel

theorem volume_unreadableInfo :
    lateHintFileSystem.OnPartition (mount 0 unreadableInfo).1 :=
  .inr ⟨rfl, rfl, by decide, by decide, by decide, by decide +kernel, by decide +kernel⟩

theorem getFATTableEntry_contract_iff_unreadableInfo :
    ExtensionContract lateHintFileSystem (mount 0 unreadableInfo).1 2
        (lateHintFileSystem.getFATTableEntry (mount 0 unreadableInfo).1 2 true).1
        (lateHintFileSystem.getFATTableEntry (mount 0 unreadableInfo).1 2 true).2 ↔
      Extendable lateHintFileSystem (mount 0 unreadableInfo).1 2 :=
  getFATTableEntry_contract_iff volume_unreadableInfo (by decide)

/-- The allocation fails and its error code is the successor of the last cluster. -/
theorem last_entry_overwritten :
    ¬∀ memory m fs c, (mount memory m).2 = some fs → fs.OnPartition (mount memory m).1 →
      c < fs.countOfClusters + 2 →
        ExtensionContract fs (mount memory m).1 c (fs.getFATTableEntry (mount memory m).1 c true).1
          (fs.getFATTableEntry (mount memory m).1 c true).2 := by
  intro meets
  have contract := meets 0 unreadableInfo lateHintFileSystem 2 mount_unreadableInfo
    volume_unreadableInfo (by decide)
  rw [ExtensionContract, if_pos (by decide +kernel)] at contract
  rcases contract with failed | extended
  · exact absurd (failed.table 2 (by decide)) (by decide +kernel)
  · exact absurd extended.free.2.1 (by decide +kernel)

end Orcos.Guarantees.ChainExtension
