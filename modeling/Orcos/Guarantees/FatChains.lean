import Orcos.Guarantees.FatVolumes

/-!
# Chains of FAT files

Source: src/source/filesystem/fat/FATFile.cc, `writeBytes`, `readBytes`;
src/source/filesystem/fat/FATFileSystem.cc, `getNextSector`.

A file is at a sector of its chain or behind the last one. Stepping on finds the next sector,
or a new one behind the last while clusters are free, and leaves the bytes of the chain; a
write to a sector puts its bytes at their place.
-/
namespace Orcos.Guarantees.FatChains
open Orcos.Source Orcos.Source.Fat Orcos.Lib.ByteMemory Orcos.Lib.Successors Orcos.Lib.Extents
open Orcos.Guarantees.ClusterWalks (chainSectors chainSectors_cons length_chainSectors)
open Orcos.Guarantees.FatVolumes

variable {fs : FATFileSystem} {m m' : Medium} {s s' : FileState} {clusters : List Nat}
  {c d k n sector : Nat} {bytes : List Byte}

/-! ### The place in a file -/

/-- What becomes of a file when only the place in it changes. -/
def Onward (s s' : FileState) : Prop :=
  s'.file = { s.file with
    position := s'.file.position
    currentSector := s'.file.currentSector
    currentCluster := s'.file.currentCluster }

/-- The clusters of a file. Its entry lies behind the table and in no cluster that is the
file's own or free. -/
structure Chained (fs : FATFileSystem) (s : FileState) (clusters : List Nat) : Prop where
  usable : Usable fs s.medium
  linked : Linked (fs.successor s.medium.content) clusters
  inVolume : ∀ c ∈ clusters, InVolume fs c
  first : clusters.head? = some s.file.clusterStart
  listed : s.medium.InRange s.file.directorySector
  behind : fs.myFATBPB.rsvdSecCnt + fs.fatSz ≤ s.file.directorySector
  apart : ∀ c, InVolume fs c → c ∈ clusters ∨ fs.entry s.medium.content c = 0 →
    s.file.directorySector ∉ fs.clusterSectors c

/-- The file is at a sector of its chain, or behind the last one. -/
structure At (fs : FATFileSystem) (s : FileState) (clusters : List Nat) (i : Nat) : Prop
    extends Chained fs s clusters where
  sector : s.file.currentSector = ((chainSectors fs clusters)[i]?).getD EOC
  cluster : ∀ c, clusters[i / fs.myFATBPB.secPerClus]? = some c → s.file.currentCluster = c

variable {s'' : FileState} {i : Nat}

theorem Onward.refl (s : FileState) : Onward s s := rfl

theorem Onward.trans (first : Onward s s') (second : Onward s' s'') : Onward s s'' := by
  rw [Onward] at *
  rw [second, first]

theorem Onward.clusterStart (onward : Onward s s') :
    s'.file.clusterStart = s.file.clusterStart := by
  rw [onward]

theorem Onward.directorySector (onward : Onward s s') :
    s'.file.directorySector = s.file.directorySector := by
  rw [onward]

theorem Onward.filesize (onward : Onward s s') : s'.file.filesize = s.file.filesize := by
  rw [onward]

theorem onward_pass (s : FileState) (len : Nat) : Onward s (s.pass len) := rfl

theorem onward_nextSector {allocate more : Bool} (moved : s.nextSector fs allocate = (s', more)) :
    Onward s s' := by
  have file := s.nextSector_file fs allocate
  rw [moved] at file
  rw [Onward, file]

theorem successor_congr {content content' : Nat → Memory}
    (same : fs.entry content' c = fs.entry content c) :
    fs.successor content' c = fs.successor content c := by
  rw [FATFileSystem.successor, FATFileSystem.successor, same]

theorem tableKept_of_same (same : m.Same m') : TableKept fs m m' :=
  ⟨same.sectors, same.outcome, fun _ _ => by rw [same.content]⟩

namespace Chained

variable (chained : Chained fs s clusters)

include chained

theorem unique {clusters' : List Nat} (linked : Linked (fs.successor s.medium.content) clusters')
    (first : clusters'.head? = some s.file.clusterStart) : clusters' = clusters := by
  obtain ⟨rest, rfl⟩ := List.head?_eq_some_iff.mp chained.first
  obtain ⟨rest', rfl⟩ := List.head?_eq_some_iff.mp first
  rw [chained.linked.unique linked]

/-- The file on a medium with the same table. -/
theorem kept (kept : TableKept fs s.medium s'.medium)
    (start : s'.file.clusterStart = s.file.clusterStart)
    (entry : s'.file.directorySector = s.file.directorySector) : Chained fs s' clusters := by
  have usable := chained.usable
  refine ⟨usable.same kept.sectors kept.outcome, ?_, chained.inVolume, by rw [start, chained.first],
    ?_, by rw [entry]; exact chained.behind, ?_⟩
  · exact chained.linked.congr fun c member =>
      successor_congr (kept.entry_eq usable (chained.inVolume c member))
  · rw [entry, Medium.InRange, kept.sectors]
    exact chained.listed
  · intro c inVolume
    rw [entry, kept.entry_eq usable inVolume]
    exact chained.apart c inVolume

theorem same (same : s.medium.Same s'.medium) (onward : Onward s s') : Chained fs s' clusters :=
  chained.kept (tableKept_of_same same) onward.clusterStart onward.directorySector

end Chained

/-- The sectors of a chain in their order. -/
theorem getElem?_chainSectors_div (usable : Usable fs m) (clusters : List Nat) (i : Nat) :
    (chainSectors fs clusters)[i]? =
      clusters[i / fs.myFATBPB.secPerClus]?.map fun c =>
        fs.firstSector c + i % fs.myFATBPB.secPerClus := by
  have sector := getElem?_chainSectors fs clusters (i / fs.myFATBPB.secPerClus)
    (Nat.mod_lt i usable.positive)
  rwa [Nat.div_add_mod] at sector

/-- No sector occurs twice in the chain. -/
theorem Chained.sector_unique (chained : Chained fs s clusters) {j : Nat}
    (here : (chainSectors fs clusters)[i]? = some sector)
    (there : (chainSectors fs clusters)[j]? = some sector) : i = j := by
  have usable := chained.usable
  rw [getElem?_chainSectors_div usable] at here there
  obtain ⟨c, member, rfl⟩ := Option.map_eq_some_iff.mp here
  obtain ⟨d, member', same⟩ := Option.map_eq_some_iff.mp there
  obtain ⟨rfl, offset⟩ := sector_inj usable (chained.inVolume d (List.mem_of_getElem? member'))
    (chained.inVolume c (List.mem_of_getElem? member)) (Nat.mod_lt j usable.positive)
    (Nat.mod_lt i usable.positive) same
  have block : i / fs.myFATBPB.secPerClus = j / fs.myFATBPB.secPerClus := by
    have below := (List.getElem?_eq_some_iff.mp member).1
    apply (List.getElem?_inj below chained.linked.nodup).mp
    rw [member, member']
  rw [← Nat.div_add_mod i fs.myFATBPB.secPerClus, ← Nat.div_add_mod j fs.myFATBPB.secPerClus, block,
    offset]

namespace At

variable (at_ : At fs s clusters i)

include at_

theorem place (inside : i < fs.myFATBPB.secPerClus * clusters.length) :
    ∃ c, clusters[i / fs.myFATBPB.secPerClus]? = some c ∧ InVolume fs c ∧
      s.file.currentCluster = c ∧
      (chainSectors fs clusters)[i]? = some (fs.firstSector c + i % fs.myFATBPB.secPerClus) ∧
      s.file.currentSector = fs.firstSector c + i % fs.myFATBPB.secPerClus := by
  have block : i / fs.myFATBPB.secPerClus < clusters.length := Nat.div_lt_of_lt_mul inside
  have member := List.getElem?_eq_getElem block
  have sector := getElem?_chainSectors_div at_.usable clusters i
  rw [member, Option.map_some] at sector
  refine ⟨_, member, at_.inVolume _ (List.getElem_mem _), at_.cluster _ member, sector, ?_⟩
  rw [at_.sector, sector, Option.getD_some]

end At

/-! ### The next sector -/

theorem nextSector_some {allocate : Bool} {next : Nat} (proper : next ≠ EOC)
    (result : fs.getNextSector s.medium s.file.currentSector s.file.currentCluster allocate =
      (m', next)) :
    s.nextSector fs allocate = ({ s with
      medium := m'
      file := { s.file with
        currentSector := next
        currentCluster := fs.sectorToCluster next } }, true) := by
  rw [FileState.nextSector, result]
  simp only [if_neg proper]

theorem nextSector_none {allocate : Bool}
    (result : fs.getNextSector s.medium s.file.currentSector s.file.currentCluster allocate =
      (m', EOC)) :
    s.nextSector fs allocate = ({ s with
      medium := m'
      file := { s.file with currentSector := EOC } }, false) := by
  rw [FileState.nextSector, result]
  simp only [if_true]

namespace At

variable (at_ : At fs s clusters i)

include at_

/-- There is a next sector in the chain. -/
theorem next (more : i + 1 < fs.myFATBPB.secPerClus * clusters.length) (allocate : Bool) :
    ∃ s', s.nextSector fs allocate = (s', true) ∧ At fs s' clusters (i + 1) ∧
      s.medium.Same s'.medium := by
  have usable := at_.usable
  have positive := usable.positive
  obtain ⟨c, member, inVolume, current, _, sector⟩ := at_.place (by omega)
  have offset := Nat.mod_lt i positive
  have split := Nat.div_add_mod i fs.myFATBPB.secPerClus
  by_cases within : i % fs.myFATBPB.secPerClus + 1 < fs.myFATBPB.secPerClus
  · have result := usable.getNextSector_inside inVolume within s.file.currentCluster allocate
    rw [← sector] at result
    have number : i + 1 = fs.myFATBPB.secPerClus * (i / fs.myFATBPB.secPerClus) +
        (i % fs.myFATBPB.secPerClus + 1) := by omega
    have block : (i + 1) / fs.myFATBPB.secPerClus = i / fs.myFATBPB.secPerClus := by
      rw [number, Nat.mul_add_div positive, Nat.div_eq_of_lt within, Nat.add_zero]
    have moved := nextSector_some (usable.ne_EOC inVolume within) result
    refine ⟨_, moved, ⟨at_.toChained.same (.refl _) (onward_nextSector moved), ?_, ?_⟩, .refl _⟩
    · rw [number, getElem?_chainSectors _ _ _ within, member]
      rfl
    · intro d member'
      rw [block, member] at member'
      cases member'
      exact usable.sectorToCluster_eq inVolume within
  · have last : i % fs.myFATBPB.secPerClus + 1 = fs.myFATBPB.secPerClus := by omega
    have number : i + 1 = fs.myFATBPB.secPerClus * (i / fs.myFATBPB.secPerClus + 1) + 0 := by
      rw [Nat.mul_succ]
      omega
    have block : (i + 1) / fs.myFATBPB.secPerClus = i / fs.myFATBPB.secPerClus + 1 := by
      rw [number, Nat.add_zero, Nat.mul_div_cancel_left _ positive]
    have below : i / fs.myFATBPB.secPerClus + 1 < clusters.length := by
      rw [number, Nat.add_zero] at more
      exact Nat.lt_of_mul_lt_mul_left more
    have member' := List.getElem?_eq_getElem below
    generalize clusters[i / fs.myFATBPB.secPerClus + 1] = d at member'
    have inVolume' := at_.inVolume d (List.mem_of_getElem? member')
    have leads := at_.linked.getElem? member
    rw [member', FATFileSystem.successor] at leads
    by_cases ends : fs.endOfChain ≤ fs.entry s.medium.content c
    · rw [if_pos ends] at leads
      cases leads
    · rw [if_neg ends, Option.some.injEq] at leads
      have result := usable.getNextSector_end inVolume last s.file.currentCluster allocate
      rw [← sector, current, FATFileSystem.getFATTableEntry_follow
        (usable.readable inVolume) ends] at result
      simp only [if_neg ends] at result
      rw [leads, usable.clusterToSector_eq inVolume', ← current] at result
      have moved := nextSector_some (usable.ne_EOC inVolume' positive) result
      have same : s.medium.Same (s.medium.ask (.read (fs.entrySector s.file.currentCluster))) :=
        .ask _ _
      refine ⟨_, moved, ⟨at_.toChained.same same (onward_nextSector moved), ?_, ?_⟩, same⟩
      · rw [number, getElem?_chainSectors _ _ _ positive, member']
        rfl
      · intro e member
        rw [block, member'] at member
        cases member
        exact usable.sectorToCluster_eq inVolume' positive

end At

/-! ### Behind the last sector -/

namespace Chained

variable (chained : Chained fs s clusters)

include chained

/-- No cluster of a chain is free. -/
theorem entry_ne (member : c ∈ clusters) : fs.entry s.medium.content c ≠ 0 := by
  obtain ⟨i, below, rfl⟩ := List.mem_iff_getElem.mp member
  have leads := chained.linked.getElem? (List.getElem?_eq_getElem below)
  have some := ChainExtension.endOfChain_pos fs
  rw [FATFileSystem.successor] at leads
  by_cases ends : fs.endOfChain ≤ fs.entry s.medium.content clusters[i]
  · omega
  · rw [if_neg ends] at leads
    have low := (chained.inVolume _ (List.mem_of_getElem? leads.symm)).1
    omega

/-- A cluster that was free is put behind the last one. -/
theorem extend {front : List Nat} (whole : clusters = front ++ [c])
    (free : fs.entry s.medium.content f = 0) (inVolume : InVolume fs f)
    (kept : DataKept fs s.medium s'.medium) (onward : Onward s s')
    (leads : fs.entry s'.medium.content c = f)
    (ends : fs.endOfChain ≤ fs.entry s'.medium.content f)
    (others : ∀ d, InVolume fs d → d ≠ c → d ≠ f →
      fs.entry s'.medium.content d = fs.entry s.medium.content d) :
    Chained fs s' (clusters ++ [f]) := by
  have two := inVolume.1
  have number := chained.usable.number_lt inVolume
  have positive := ChainExtension.endOfChain_pos fs
  have fresh : f ∉ clusters := fun member => chained.entry_ne member free
  have short : ¬fs.endOfChain ≤ f := by
    have high := inVolume.2
    rw [FATFileSystem.endOfChain]
    rcases chained.usable.partition with fat16 | fat32
    · have numbers := fat16.numbers
      rw [if_pos fat16.type]
      omega
    · have numbers := fat32.numbers
      rw [if_neg fat32.not_fat16]
      omega
  refine ⟨chained.usable.same kept.sectors kept.outcome, ?_, ?_, ?_, ?_, ?_, ?_⟩
  · have linked := chained.linked
    have nodup := chained.linked.nodup
    have known := chained.inVolume
    rw [whole] at linked nodup known fresh ⊢
    apply linked.concat
    · intro y member
      apply successor_congr
      apply others y (known y (by simp [member]))
      · intro same
        exact List.disjoint_of_nodup_append nodup member (by simp [same])
      · intro same
        exact fresh (by simp [← same, member])
    · rw [FATFileSystem.successor, leads, if_neg short]
    · rw [FATFileSystem.successor, if_pos ends]
  · intro d member
    rcases List.mem_append.mp member with old | new
    · exact chained.inVolume d old
    · rwa [List.mem_singleton.mp new]
  · rw [onward.clusterStart, List.head?_append, chained.first]
    rfl
  · rw [onward.directorySector, Medium.InRange, kept.sectors]
    exact chained.listed
  · rw [onward.directorySector]
    exact chained.behind
  · intro d inVolume' taken
    rw [onward.directorySector]
    apply chained.apart d inVolume'
    by_cases new : d = f
    · exact .inr (new ▸ free)
    · by_cases last : d = c
      · left
        rw [last, whole]
        simp
      · rw [others d inVolume' last new, List.mem_append, List.mem_singleton] at taken
        exact taken.imp_left fun old => old.resolve_right new

/-- The last cluster stays the last one. -/
theorem stay {front : List Nat} (whole : clusters = front ++ [c])
    (kept : DataKept fs s.medium s'.medium) (onward : Onward s s')
    (ends : fs.endOfChain ≤ fs.entry s'.medium.content c)
    (others : ∀ d, InVolume fs d → d ≠ c →
      fs.entry s'.medium.content d = fs.entry s.medium.content d) :
    Chained fs s' clusters := by
  have positive := ChainExtension.endOfChain_pos fs
  refine ⟨chained.usable.same kept.sectors kept.outcome, ?_, chained.inVolume, ?_, ?_, ?_, ?_⟩
  · have linked := chained.linked
    have nodup := chained.linked.nodup
    have known := chained.inVolume
    rw [whole] at linked nodup known ⊢
    apply linked.replace
    · intro y member
      apply successor_congr
      apply others y (known y (by simp [member]))
      intro same
      exact List.disjoint_of_nodup_append nodup member (by simp [same])
    · refine ⟨?_, trivial⟩
      rw [FATFileSystem.successor, if_pos ends]
      rfl
  · rw [onward.clusterStart, chained.first]
  · rw [onward.directorySector, Medium.InRange, kept.sectors]
    exact chained.listed
  · rw [onward.directorySector]
    exact chained.behind
  · intro d inVolume taken
    rw [onward.directorySector]
    apply chained.apart d inVolume
    by_cases last : d = c
    · left
      rw [last, whole]
      simp
    · rwa [others d inVolume last] at taken

end Chained

namespace At

variable (at_ : At fs s clusters i)

include at_

/-- The last sector of the chain, and the cluster it lies in. -/
theorem last_place (last : i + 1 = fs.myFATBPB.secPerClus * clusters.length) :
    ∃ c front, clusters = front ++ [c] ∧ InVolume fs c ∧ s.file.currentCluster = c ∧
      fs.endOfChain ≤ fs.entry s.medium.content c ∧
      ∀ allocate, fs.getNextSector s.medium s.file.currentSector s.file.currentCluster allocate =
        ((fs.getFATTableEntry s.medium c allocate).1,
          if fs.endOfChain ≤ (fs.getFATTableEntry s.medium c allocate).2 then EOC
          else fs.clusterToSector (fs.getFATTableEntry s.medium c allocate).2) := by
  have usable := at_.usable
  have positive := usable.positive
  obtain ⟨c, member, inVolume, current, _, sector⟩ := at_.place (by omega)
  have offset := Nat.mod_lt i positive
  have split := Nat.div_add_mod i fs.myFATBPB.secPerClus
  have block : i / fs.myFATBPB.secPerClus + 1 = clusters.length := by
    have below := (List.getElem?_eq_some_iff.mp member).1
    apply Nat.le_antisymm below
    apply Nat.le_of_mul_le_mul_left _ positive
    rw [Nat.mul_succ]
    omega
  have ended : i % fs.myFATBPB.secPerClus + 1 = fs.myFATBPB.secPerClus := by
    rw [← block, Nat.mul_succ] at last
    omega
  have final : clusters.getLast? = some c := by
    rw [List.getLast?_eq_getElem?, ← block, Nat.add_sub_cancel, member]
  obtain ⟨front, whole⟩ := List.getLast?_eq_some_iff.mp final
  have leads := at_.linked.getElem? member
  rw [block, List.getElem?_eq_none (Nat.le_refl _), FATFileSystem.successor] at leads
  by_cases ends : fs.endOfChain ≤ fs.entry s.medium.content c
  · refine ⟨c, front, whole, inVolume, current, ends, fun allocate => ?_⟩
    rw [sector, usable.getNextSector_end inVolume ended, current]
  · rw [if_neg ends] at leads
    cases leads

end At

/-- The file behind its last sector. -/
theorem At.ended (chained : Chained fs s' clusters)
    (last : fs.myFATBPB.secPerClus * clusters.length ≤ i)
    (sector : s'.file.currentSector = EOC) : At fs s' clusters i := by
  have full : clusters.length ≤ i / fs.myFATBPB.secPerClus :=
    (Nat.le_div_iff_mul_le chained.usable.positive).mpr (by rwa [Nat.mul_comm])
  refine ⟨chained, ?_, fun c member => ?_⟩
  · rw [sector, getElem?_chainSectors_div chained.usable, List.getElem?_eq_none full]
    rfl
  · rw [List.getElem?_eq_none full] at member
    cases member

namespace At

variable (at_ : At fs s clusters i) (last : i + 1 = fs.myFATBPB.secPerClus * clusters.length)

include at_ last

/-- Without allocation the end is reported. -/
theorem last_read : ∃ s', s.nextSector fs false = (s', false) ∧ At fs s' clusters (i + 1) ∧
    s.medium.Same s'.medium := by
  have usable := at_.usable
  obtain ⟨c, front, whole, inVolume, current, ends, result⟩ := at_.last_place last
  have inRange := usable.partition.inRange inVolume.2
  have result := result false
  rw [FATFileSystem.getFATTableEntry_read usable.reliable, FATFileSystem.lookup, if_pos inRange,
    if_pos ends] at result
  have moved := nextSector_none result
  have same : s.medium.Same (s.medium.ask (.read (fs.entrySector c))) := .ask _ _
  have chained := at_.toChained.same same (onward_nextSector moved)
  exact ⟨_, moved, .ended chained (by omega) rfl, same⟩

/-- Where nothing is free the end is reported. -/
theorem last_dry (dry : Dry fs s.medium) :
    ∃ s', s.nextSector fs true = (s', false) ∧ At fs s' clusters (i + 1) ∧
      DataKept fs s.medium s'.medium := by
  have usable := at_.usable
  obtain ⟨c, front, whole, inVolume, current, ends, result⟩ := at_.last_place last
  have result := result true
  have kept := dataKept_extend usable inVolume ends
  rcases slot_extended usable inVolume ends with ⟨type, found, _⟩ | ⟨_, value, places⟩
  · exact absurd ⟨_, found⟩ (dry.resolve_left type)
  · rw [value] at places
    have behind : fs.endOfChain ≤ if fs.myFatType = .fat16 then 0xFFFF else EOC := by
      rw [FATFileSystem.endOfChain]
      split
      all_goals decide
    rw [value, if_pos behind] at result
    have moved := nextSector_none result
    have chained := at_.toChained.stay whole kept (onward_nextSector moved) (by
        rw [usable.partition.entry_eq inVolume.2, places c, if_pos rfl]
        split at behind
        · next type =>
          rw [if_pos type, if_pos type]
          exact behind
        · next type =>
          rw [if_neg type, if_neg type]
          exact behind)
      fun d inVolume' other => usable.entry_of_slot inVolume' (by rw [places d, if_neg other])
    exact ⟨_, moved, .ended chained (by omega) rfl, kept⟩

/-- A free cluster of the volume is put behind the last one. -/
theorem last_found (supply : Supply fs s.medium (fs.searchStart s.medium) (n + 1)) :
    ∃ s' f, s.nextSector fs true = (s', true) ∧ At fs s' (clusters ++ [f]) (i + 1) ∧
      DataKept fs s.medium s'.medium ∧ Supply fs s'.medium (fs.searchStart s'.medium) n := by
  have usable := at_.usable
  have positive := usable.positive
  obtain ⟨c, front, whole, inVolume, current, ends, result⟩ := at_.last_place last
  obtain ⟨type, f, found, inVolume', rest⟩ := supply
  have result := result true
  have kept := dataKept_extend usable inVolume ends
  have start := searchStart_extended usable inVolume ends type found inVolume'
  have fat32 := usable.partition.fat32 type
  have number := usable.number_lt inVolume'
  have two := inVolume'.1
  have other : f ≠ c := ChainExtension.ne_of_free ends found.free
  rcases slot_extended usable inVolume ends with ⟨_, found', places⟩ | ⟨dry, _⟩
  · rw [← found.unique found'] at places result
    have short : ¬fs.endOfChain ≤ f := by
      have numbers := fat32.numbers
      have high := inVolume'.2
      rw [FATFileSystem.endOfChain, if_neg type]
      omega
    rw [if_neg short, usable.clusterToSector_eq inVolume'] at result
    have leads : fs.entry (fs.getFATTableEntry s.medium c true).1.content c = f := by
      rw [usable.partition.entry_eq inVolume.2, if_neg type, places c, if_pos rfl]
      exact Nat.mod_eq_of_lt number
    have ends' : fs.endOfChain ≤ fs.entry (fs.getFATTableEntry s.medium c true).1.content f := by
      rw [usable.partition.entry_eq inVolume'.2, if_neg type, places f, if_neg other, if_pos rfl,
        FATFileSystem.endOfChain, if_neg type]
      decide
    have moved := nextSector_some (usable.ne_EOC inVolume' positive) result
    have chained := at_.toChained.extend whole found.free inVolume' kept (onward_nextSector moved)
      leads ends' fun d inVolume'' before new =>
        usable.entry_of_slot inVolume'' (by rw [places d, if_neg before, if_neg new])
    have block : (i + 1) / fs.myFATBPB.secPerClus = clusters.length := by
      rw [last, Nat.mul_div_cancel_left _ positive]
    have here : (clusters ++ [f])[clusters.length]? = some f := List.getElem?_concat_length
    refine ⟨_, f, moved, ⟨chained, ?_, ?_⟩, kept, ?_⟩
    · rw [last, ← Nat.add_zero (_ * _), getElem?_chainSectors _ _ _ positive, here]
      rfl
    · intro d member
      rw [block, here] at member
      cases member
      exact usable.sectorToCluster_eq inVolume' positive
    · change Supply fs (fs.getFATTableEntry s.medium c true).1 (fs.searchStart _) n
      rw [start]
      apply rest.congr
      intro _ d above high
      have table := fat32.table
      have numbers := fat32.numbers
      have bound : fs.searchEnd = (fs.countOfClusters + 127) / 128 * 128 := rfl
      by_cases before : d = c
      · have positive := ChainExtension.endOfChain_pos fs
        rw [before, leads]
        omega
      · have place := places d
        rw [if_neg before, if_neg (by omega), FATFileSystem.slot_eq_tableWord type,
          FATFileSystem.slot_eq_tableWord type] at place
        rw [fat32.entry_eq (by omega) (by omega), fat32.entry_eq (by omega) (by omega), place]
  · exact absurd ⟨f, found⟩ (dry.resolve_left type)

end At

/-! ### Writing a sector -/

/-- The bytes of the chain after one of its sectors was written. -/
theorem Chained.getElem?_written (chained : Chained fs s clusters) (content : Nat → Memory)
    (buffer : Memory) (k : Nat) {r : Nat} (here : (chainSectors fs clusters)[i]? = some sector)
    (inside : r < 512) :
    (chainBytes fs (Function.update content sector buffer) clusters)[512 * k + r]? =
      if k = i then some (buffer r) else (chainBytes fs content clusters)[512 * k + r]? := by
  rw [getElem?_chainBytes _ _ _ _ inside, getElem?_chainBytes _ _ _ _ inside]
  by_cases same : k = i
  · rw [if_pos same, same, here, Option.map_some, Function.update_self]
  · rw [if_neg same]
    cases other : (chainSectors fs clusters)[k]? with
    | none => rfl
    | some sector' =>
      have apart : sector' ≠ sector := by
        intro equal
        rw [equal] at other
        exact same (chained.sector_unique other here)
      rw [Option.map_some, Option.map_some, Function.update_of_ne apart]

/-- Bytes are copied to a sector that was read before, or that begins behind a size that
counts. -/
theorem Chained.stored_copyInto (chained : Chained fs s clusters) {content : Nat → Memory}
    {buffer : Memory} {part : List Byte} {place size : Nat} {newSector : Bool}
    (here : (chainSectors fs clusters)[place / 512]? = some sector)
    (room : place % 512 + part.length ≤ 512)
    (old : newSector = false → buffer = content sector)
    (new : newSector = true → place % 512 = 0 ∧ size ≤ place) :
    Stored (chainBytes fs content clusters)
      (chainBytes fs (Function.update content sector (copyInto buffer (place % 512) part)) clusters)
      place part size := by
  have written (j : Nat) := chained.getElem?_written content (copyInto buffer (place % 512) part)
    (j / 512) here (Nat.mod_lt j (by decide))
  simp only [Nat.div_add_mod] at written
  have before (j : Nat) := getElem?_chainBytes fs content clusters (j / 512)
    (Nat.mod_lt j (by decide))
  simp only [Nat.div_add_mod] at before
  -- the bytes of the sector that are not written
  have outside (j : Nat) (apart : j % 512 < place % 512 ∨ place % 512 + part.length ≤ j % 512)
      (read : newSector = false) (within : j / 512 = place / 512) :
      (chainBytes fs (Function.update content sector (copyInto buffer (place % 512) part))
        clusters)[j]? = (chainBytes fs content clusters)[j]? := by
    rw [written, if_pos within, before, within, here, copyInto_changedIn _ _ _ _ apart, old read]
    rfl
  constructor
  · intro j less
    by_cases within : j / 512 = place / 512
    · cases newSector with
      | false => exact outside j (by omega) rfl within
      | true =>
        have start := (new rfl).1
        omega
    · rw [written, if_neg within]
  · intro j less
    have within : (place + j) / 512 = place / 512 := by omega
    have offset : (place + j) % 512 = place % 512 + j := by omega
    rw [written, if_pos within, offset, copyInto_inside less, List.getElem?_eq_getElem less]
  · intro j above less
    by_cases within : j / 512 = place / 512
    · cases newSector with
      | false => exact outside j (by omega) rfl within
      | true =>
        have ended := (new rfl).2
        omega
    · rw [written, if_neg within]

/-- A sector of the data area is written. -/
theorem tableKept_update {buffer : Memory}
    (behind : fs.myFATBPB.rsvdSecCnt + fs.fatSz ≤ sector) (content : m'.content =
      Function.update m.content sector buffer) (sectors : m'.sectors = m.sectors)
    (outcome : m'.outcome = m.outcome) : TableKept fs m m' :=
  ⟨sectors, outcome, fun s less => by rw [content, Function.update_of_ne (by omega)]⟩

/-- The buffer a sector that lies on the medium is changed in. -/
theorem loadSector_of_inRange (reliable : s.medium.Reliable)
    (inRange : s.medium.InRange s.file.currentSector) (newSector : Bool) :
    ∃ m' buffer, s.loadSector newSector = (m', .ok buffer) ∧ s.medium.Same m' ∧
      (newSector = false → buffer = s.medium.content s.file.currentSector) := by
  rw [FileState.loadSector]
  cases newSector with
  | false => exact ⟨_, _, Medium.readSectors_ok reliable inRange, .ask _ _, fun _ => rfl⟩
  | true => exact ⟨_, _, rfl, .refl _, fun read => by cases read⟩

/-- Part of the bytes is written to the sector the file is at. -/
theorem At.writeSector (at_ : At fs s clusters (s.file.position / 512))
    (inside : s.file.position / 512 < fs.myFATBPB.secPerClus * clusters.length)
    (word : s.file.position + bytes.length < 2 ^ 32) {size : Nat} {newSector : Bool}
    (new : newSector = true → s.file.position % 512 = 0 ∧ size ≤ s.file.position) :
    ∃ s', s.writeSector bytes newSector = (s', cOk) ∧
      At fs s' clusters (s.file.position / 512) ∧ Onward s s' ∧
      s'.file.position = s.file.position + sectorLen s.file.sectorPos bytes.length ∧
      TableKept fs s.medium s'.medium ∧
      Stored (chainBytes fs s.medium.content clusters) (chainBytes fs s'.medium.content clusters)
        s.file.position (bytes.take (sectorLen s.file.sectorPos bytes.length)) size := by
  have usable := at_.usable
  obtain ⟨c, member, inVolume, current, here, sector⟩ := at_.place inside
  have inRange := usable.inRange inVolume (Nat.mod_lt (s.file.position / 512) usable.positive)
  have behind : fs.myFATBPB.rsvdSecCnt + fs.fatSz ≤ s.file.currentSector := by
    have table := usable.table
    rw [sector, FATFileSystem.firstSector]
    omega
  rw [← sector] at here inRange
  have below := sectorLen_le s.file.sectorPos bytes.length
  have room : s.file.position % 512 +
      (bytes.take (sectorLen s.file.sectorPos bytes.length)).length ≤ 512 := by
    rw [List.length_take, ← FATFile.sectorPos_eq, sectorLen]
    have less := s.file.sectorPos_lt
    split <;> omega
  obtain ⟨m₁, buffer, loaded, same, old⟩ := loadSector_of_inRange usable.reliable inRange newSector
  obtain ⟨m₂, wrote, written⟩ := Medium.writeSectors_ok (same.reliable usable.reliable)
    (same.inRange.mpr inRange) (copyInto buffer s.file.sectorPos
      (bytes.take (sectorLen s.file.sectorPos bytes.length)))
  have content := wrote.content
  rw [same.content] at content
  have kept : TableKept fs s.medium m₂ := tableKept_update behind content
    (wrote.sectors.trans same.sectors) (wrote.outcome.trans same.outcome)
  have stored := at_.toChained.stored_copyInto here room old new
  rw [← FATFile.sectorPos_eq, ← content] at stored
  have result : s.writeSector bytes newSector =
      (({ s with
        medium := m₂
        buffer := copyInto buffer s.file.sectorPos
          (bytes.take (sectorLen s.file.sectorPos bytes.length)) }).pass
            (sectorLen s.file.sectorPos bytes.length), cOk) := by
    rw [FileState.writeSector, loaded]
    simp only [written]
    rfl
  exact ⟨_, result, ⟨at_.toChained.kept kept rfl rfl, at_.sector, at_.cluster⟩, rfl,
    wordAdd_eq (show s.file.position + _ < 2 ^ 32 by omega), kept, stored⟩

end Orcos.Guarantees.FatChains
