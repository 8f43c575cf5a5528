import Orcos.Guarantees.FatChains

/-!
# Contents of FAT files

Source: src/source/filesystem/fat/FATFile.cc, `writeBytes`, `readBytes`, `seek`.

A file holds the bytes of its chain up to its size. A write puts its bytes over them where the
sectors are there or can be allocated; without a free cluster it stops behind the last sector.
A seek behind the end fills up with zeros the same way.
-/
namespace Orcos.Guarantees.FatFiles
open Orcos.Source Orcos.Source.Fat Orcos.Lib.ByteMemory Orcos.Lib.Successors Orcos.Lib.Extents
open Orcos.Guarantees.ClusterWalks (chainSectors chainSectors_cons length_chainSectors)
open Orcos.Guarantees.FatVolumes Orcos.Guarantees.FatChains

variable {fs : FATFileSystem} {m m' : Medium} {s s' : FileState} {clusters : List Nat}
  {c d k n sector : Nat} {bytes : List Byte}
variable {i : Nat}

/-! ### The loop of `writeBytes` -/

/-- All bytes of the clusters of a file. -/
def contents (fs : FATFileSystem) (s : FileState) (clusters : List Nat) : List Byte :=
  chainBytes fs s.medium.content clusters

theorem length_contents : (contents fs s clusters).length =
    512 * (fs.myFATBPB.secPerClus * clusters.length) := length_chainBytes

theorem contents_same (same : s.medium.Same s'.medium) :
    contents fs s' clusters = contents fs s clusters := by
  rw [contents, same.content]
  rfl

/-- The data of a file stays with the data area. -/
theorem contents_kept (usable : Usable fs s.medium) (kept : DataKept fs s.medium s'.medium) :
    contents fs s' clusters = contents fs s clusters := by
  apply chainBytes_congr
  intro sector member
  obtain ⟨c, _, n, _, rfl⟩ := mem_chainSectors.mp member
  have table := usable.table
  apply kept.content
  rw [FATFileSystem.firstSector]
  omega

theorem contents_append (added : List Nat) : contents fs s (clusters ++ added) =
    contents fs s clusters ++ contents fs s added := by
  simp only [contents, chainBytes, chainSectors, List.flatMap_append]

/-- What is left when bytes were written that so many clusters could be added for. -/
structure Wrote (fs : FATFileSystem) (s : FileState) (clusters : List Nat) (bytes : List Byte)
    (n : Nat) (s' : FileState) (added : List Nat) : Prop where
  at_ : At fs s' (clusters ++ added) (s'.file.position / 512)
  inside : s'.file.position / 512 < fs.myFATBPB.secPerClus * (clusters ++ added).length
  onward : Onward s s'
  position : s'.file.position = s.file.position + bytes.length
  fewer : added.length ≤ n
  supply : Supply fs s'.medium (fs.searchStart s'.medium) (n - added.length)
  kept : added = [] → TableKept fs s.medium s'.medium
  stored : Stored (contents fs s clusters)
    (contents fs s' (clusters ++ added)) s.file.position bytes
    s.file.filesize

variable {added added' : List Nat} {bytes' : List Byte} {newSector : Bool}

theorem Wrote.trans (first : Wrote fs s clusters bytes n s' added)
    (second : Wrote fs s' (clusters ++ added) bytes' (n - added.length) s'' added') :
    Wrote fs s clusters (bytes ++ bytes') n s'' (added ++ added') := by
  have fewer := first.fewer
  have fewer' := second.fewer
  have stored := second.stored
  rw [first.position, first.onward.filesize, List.append_assoc] at stored
  constructor
  · rw [← List.append_assoc]
    exact second.at_
  · rw [← List.append_assoc]
    exact second.inside
  · exact first.onward.trans second.onward
  · rw [second.position, first.position, List.length_append, Nat.add_assoc]
  · rw [List.length_append]
    omega
  · rw [List.length_append, Nat.sub_add_eq]
    exact second.supply
  · intro none
    obtain ⟨none, none'⟩ := List.append_eq_nil_iff.mp none
    exact (first.kept none).trans (second.kept none')
  · exact first.stored.append stored

section Round

variable (at_ : At fs s clusters (s.file.position / 512))
  (inside : s.file.position / 512 < fs.myFATBPB.secPerClus * clusters.length)
  (word : s.file.position + bytes.length < 2 ^ 32)
  (new : newSector = true → s.file.position % 512 = 0 ∧ s.file.filesize ≤ s.file.position)

include at_ inside word new

/-- What is written to one sector, and where the loop goes on. -/
theorem writeLoop_sector (some_ : bytes ≠ []) :
    ∃ s', At fs s' clusters (s.file.position / 512) ∧ Onward s s' ∧
      s'.file.position = s.file.position + sectorLen (s.file.position % 512) bytes.length ∧
      TableKept fs s.medium s'.medium ∧
      Stored (contents fs s clusters) (contents fs s' clusters) s.file.position
        (bytes.take (sectorLen (s.file.position % 512) bytes.length)) s.file.filesize ∧
      s.writeLoop fs bytes newSector =
        if bytes.length < 512 - s.file.position % 512 then (s', none)
        else match s'.nextSector fs true with
          | (s'', false) => (s'', some cDeviceMemoryExhausted)
          | (s'', true) => s''.writeLoop fs (bytes.drop (512 - s.file.position % 512))
              (s''.file.filesize < s''.file.position) := by
  have positive : 0 < bytes.length := List.length_pos_iff.mpr some_
  obtain ⟨s', result, here, onward, position, kept, stored⟩ := at_.writeSector inside word new
  rw [FATFile.sectorPos_eq] at position stored
  refine ⟨s', here, onward, position, kept, stored, ?_⟩
  rw [FileState.writeLoop, dif_pos positive, FATFile.sectorPos_eq]
  simp only [result]
  rw [if_neg (by decide)]
  by_cases short : bytes.length < 512 - s.file.position % 512
  · have len : sectorLen (s.file.position % 512) bytes.length = bytes.length := if_pos short
    rw [if_pos short, if_pos short, len, List.drop_length, FileState.writeLoop, dif_neg (by simp)]
  · have len : sectorLen (s.file.position % 512) bytes.length = 512 - s.file.position % 512 :=
      if_neg short
    rw [len, if_neg short]
    exact (if_neg short).symm

variable (supply : Supply fs s.medium (fs.searchStart s.medium) n)
  (size : s.file.filesize ≤ 512 * (fs.myFATBPB.secPerClus * clusters.length))

include supply

/-- The last round does not fill its sector. -/
theorem writeLoop_short (short : bytes.length < 512 - s.file.position % 512) (some_ : bytes ≠ []) :
    ∃ s', s.writeLoop fs bytes newSector = (s', none) ∧ Wrote fs s clusters bytes n s' [] := by
  obtain ⟨s', at', onward, position, kept, stored, result⟩ :=
    writeLoop_sector at_ inside word new some_
  have len : sectorLen (s.file.position % 512) bytes.length = bytes.length := if_pos short
  rw [len] at position
  rw [len, List.take_length] at stored
  rw [if_pos short] at result
  have same : s'.file.position / 512 = s.file.position / 512 := by omega
  refine ⟨s', result, ?_, ?_, onward, position, Nat.zero_le n, kept.supply at_.usable supply,
    fun _ => kept, ?_⟩
  · rwa [List.append_nil, same]
  · rwa [List.append_nil, same]
  · rwa [List.append_nil]

include size

/-- A round that fills its sector goes on to the next one, which may be in a new cluster. -/
theorem writeLoop_full (full : 512 - s.file.position % 512 ≤ bytes.length)
    (more : s.file.position / 512 + 1 < fs.myFATBPB.secPerClus * (clusters.length + n)) :
    ∃ s' added, Wrote fs s clusters (bytes.take (512 - s.file.position % 512)) n s' added ∧
      s.writeLoop fs bytes newSector = s'.writeLoop fs (bytes.drop (512 - s.file.position % 512))
        (s'.file.filesize < s'.file.position) := by
  have usable := at_.usable
  have some_ : bytes ≠ [] := by
    intro none
    rw [none, List.length_nil] at full
    omega
  obtain ⟨s₁, at₁, onward, position, kept, stored, result⟩ :=
    writeLoop_sector at_ inside word new some_
  have len : sectorLen (s.file.position % 512) bytes.length = 512 - s.file.position % 512 :=
    if_neg (by omega)
  have filled : (bytes.take (512 - s.file.position % 512)).length =
      512 - s.file.position % 512 := by
    rw [List.length_take]
    omega
  have supply₁ := kept.supply usable supply
  rw [len] at position stored
  rw [if_neg (by omega)] at result
  by_cases last : s.file.position / 512 + 1 = fs.myFATBPB.secPerClus * clusters.length
  · cases n with
    | zero =>
      rw [last, Nat.add_zero] at more
      exact absurd more (Nat.lt_irrefl _)
    | succ n =>
      obtain ⟨s', f, moved, at', data, supply'⟩ := at₁.last_found last supply₁
      have position' := position_nextSector moved
      have sector : s'.file.position / 512 = s.file.position / 512 + 1 := by omega
      have positive := usable.positive
      have grown : Stored (contents fs s₁ clusters) (contents fs s' (clusters ++ [f]))
          (s.file.position + (bytes.take (512 - s.file.position % 512)).length) []
            s.file.filesize := by
        rw [contents_append, contents_kept at₁.usable data]
        apply Stored.grow
        · rw [length_contents]
          omega
        · rwa [length_contents]
      have whole := stored.append grown
      rw [List.append_nil] at whole
      rw [moved] at result
      refine ⟨s', [f], ⟨?_, ?_, onward.trans (onward_nextSector moved), by omega, by simp, supply',
        fun none => by simp at none, whole⟩, result⟩
      · rwa [sector]
      · rw [sector, last, List.length_append, Nat.mul_add]
        exact Nat.lt_add_of_pos_right (by simpa using positive)
  · obtain ⟨s', moved, at', same⟩ := at₁.next (by omega) true
    have position' := position_nextSector moved
    have sector : s'.file.position / 512 = s.file.position / 512 + 1 := by omega
    rw [moved] at result
    refine ⟨s', [], ⟨?_, ?_, onward.trans (onward_nextSector moved), by omega, Nat.zero_le n,
      (tableKept_of_same same).supply at₁.usable supply₁,
      fun _ => kept.trans (tableKept_of_same same), ?_⟩, result⟩
    · rwa [List.append_nil, sector]
    · rw [List.append_nil, sector]
      omega
    · rw [List.append_nil, contents_same same]
      exact stored

end Round

/-- All bytes are written when the clusters that are needed are free. -/
theorem writeLoop_enough (bytes : List Byte) (s : FileState) (clusters : List Nat) (n : Nat)
    (newSector : Bool) (at_ : At fs s clusters (s.file.position / 512))
    (inside : s.file.position / 512 < fs.myFATBPB.secPerClus * clusters.length)
    (word : s.file.position + bytes.length < 2 ^ 32)
    (size : s.file.filesize ≤ 512 * (fs.myFATBPB.secPerClus * clusters.length))
    (new : newSector = true → s.file.position % 512 = 0 ∧ s.file.filesize ≤ s.file.position)
    (supply : Supply fs s.medium (fs.searchStart s.medium) n)
    (enough : (s.file.position + bytes.length) / 512 <
      fs.myFATBPB.secPerClus * (clusters.length + n)) :
    ∃ s' added, s.writeLoop fs bytes newSector = (s', none) ∧
      Wrote fs s clusters bytes n s' added := by
  induction length : bytes.length using Nat.strong_induction_on
    generalizing bytes s clusters n newSector with
  | _ _ ih =>
    subst length
    by_cases none_ : bytes = []
    · subst none_
      rw [FileState.writeLoop, dif_neg (by simp)]
      refine ⟨s, [], rfl, ?_, ?_, .refl s, rfl, Nat.zero_le n, supply,
        fun _ => tableKept_of_same (.refl _), ?_⟩
      · rwa [List.append_nil]
      · rwa [List.append_nil]
      · rw [List.append_nil]
        exact .refl _ _ _
    by_cases short : bytes.length < 512 - s.file.position % 512
    · obtain ⟨s', result, wrote⟩ := writeLoop_short at_ inside word new supply short none_
      exact ⟨s', [], result, wrote⟩
    · obtain ⟨s₁, added, wrote, result⟩ :=
        writeLoop_full at_ inside word new supply size (by omega) (by omega)
      have left : (bytes.drop (512 - s.file.position % 512)).length =
          bytes.length - (512 - s.file.position % 512) := List.length_drop
      have filled : (bytes.take (512 - s.file.position % 512)).length =
          512 - s.file.position % 512 := by
        rw [List.length_take]
        omega
      have position := wrote.position
      have filesize := wrote.onward.filesize
      have fewer := wrote.fewer
      have count : (clusters ++ added).length + (n - added.length) = clusters.length + n := by
        rw [List.length_append]
        omega
      have target : s₁.file.position + (bytes.drop (512 - s.file.position % 512)).length =
          s.file.position + bytes.length := by omega
      obtain ⟨s', added', result', wrote'⟩ :=
        ih _ (by omega) (bytes.drop (512 - s.file.position % 512)) s₁ (clusters ++ added)
          (n - added.length) (s₁.file.filesize < s₁.file.position) wrote.at_ wrote.inside (by omega)
          (by
            rw [filesize, List.length_append, Nat.mul_add]
            omega)
          (fun grows => by
            have := of_decide_eq_true grows
            omega)
          wrote.supply (by rw [target, count]; exact enough) rfl
      have whole := wrote.trans wrote'
      rw [List.take_append_drop] at whole
      exact ⟨s', added ++ added', result.trans result', whole⟩

/-- Where nothing is free the chain is filled up to its end. -/
theorem writeLoop_dry (bytes : List Byte) (s : FileState) (newSector : Bool)
    (at_ : At fs s clusters (s.file.position / 512))
    (inside : s.file.position < 512 * (fs.myFATBPB.secPerClus * clusters.length))
    (full : 512 * (fs.myFATBPB.secPerClus * clusters.length) ≤ s.file.position + bytes.length)
    (word : s.file.position + bytes.length < 2 ^ 32)
    (size : s.file.filesize ≤ 512 * (fs.myFATBPB.secPerClus * clusters.length))
    (new : newSector = true → s.file.position % 512 = 0 ∧ s.file.filesize ≤ s.file.position)
    (dry : Dry fs s.medium) :
    ∃ s', s.writeLoop fs bytes newSector = (s', some cDeviceMemoryExhausted) ∧
      At fs s' clusters (s'.file.position / 512) ∧ Onward s s' ∧
      s'.file.position = 512 * (fs.myFATBPB.secPerClus * clusters.length) ∧
      Stored (contents fs s clusters) (contents fs s' clusters) s.file.position
        (bytes.take (512 * (fs.myFATBPB.secPerClus * clusters.length) - s.file.position))
        s.file.filesize := by
  induction length : bytes.length using Nat.strong_induction_on generalizing bytes s newSector with
  | _ _ ih =>
    subst length
    by_cases more : s.file.position / 512 + 1 < fs.myFATBPB.secPerClus * clusters.length
    · have nothing : Supply fs s.medium (fs.searchStart s.medium) 0 := trivial
      obtain ⟨s₁, added, wrote, result⟩ :=
        writeLoop_full at_ (by omega) word new nothing size (by omega) more
      obtain rfl := List.length_eq_zero_iff.mp (Nat.le_zero.mp wrote.fewer)
      have left : (bytes.drop (512 - s.file.position % 512)).length =
          bytes.length - (512 - s.file.position % 512) := List.length_drop
      have filled : (bytes.take (512 - s.file.position % 512)).length =
          512 - s.file.position % 512 := by
        rw [List.length_take]
        omega
      have position := wrote.position
      have filesize := wrote.onward.filesize
      have stored := wrote.stored
      have at₁ := wrote.at_
      rw [List.append_nil] at stored at₁
      obtain ⟨s', result', at', onward, position', stored'⟩ :=
        ih _ (by omega) (bytes.drop (512 - s.file.position % 512)) s₁
          (s₁.file.filesize < s₁.file.position) at₁ (by omega) (by omega) (by omega) (by omega)
          (fun grows => by
            have := of_decide_eq_true grows
            omega)
          ((wrote.kept rfl).dry at_.usable dry) rfl
      refine ⟨s', result.trans result', at', wrote.onward.trans onward, position', ?_⟩
      rw [position, filesize] at stored'
      have all := stored.append stored'
      have count : 512 * (fs.myFATBPB.secPerClus * clusters.length) - s.file.position =
          512 - s.file.position % 512 + (512 * (fs.myFATBPB.secPerClus * clusters.length) -
            (s.file.position + (512 - s.file.position % 512))) := by omega
      rw [filled] at all
      rwa [count, List.take_add]
    · have some_ : bytes ≠ [] := List.length_pos_iff.mp (by omega)
      obtain ⟨s₁, at₁, onward, position, kept, stored, result⟩ :=
        writeLoop_sector at_ (by omega) word new some_
      have len : sectorLen (s.file.position % 512) bytes.length = 512 - s.file.position % 512 :=
        if_neg (by omega)
      rw [len] at position stored
      obtain ⟨s', moved, at', data⟩ := at₁.last_dry (by omega) (kept.dry at_.usable dry)
      have position' := position_nextSector moved
      have sector : s'.file.position / 512 = s.file.position / 512 + 1 := by omega
      rw [if_neg (by omega), moved] at result
      refine ⟨s', result, ?_, onward.trans (onward_nextSector moved), by omega, ?_⟩
      · rwa [sector]
      · have count : 512 * (fs.myFATBPB.secPerClus * clusters.length) - s.file.position =
            512 - s.file.position % 512 := by omega
        rw [contents_kept at₁.usable data, count]
        exact stored

/-! ### The size of a file -/

/-- The bytes of a file. -/
def content (fs : FATFileSystem) (s : FileState) (clusters : List Nat) : List Byte :=
  (contents fs s clusters).take s.file.filesize

/-- A file between two operations. -/
structure Holds (fs : FATFileSystem) (s : FileState) (clusters : List Nat) : Prop
    extends At fs s clusters (s.file.position / 512) where
  size : s.file.filesize ≤ 512 * (fs.myFATBPB.secPerClus * clusters.length)
  word : s.file.filesize < 2 ^ 32
  position : s.file.position ≤ s.file.filesize

/-- The size that is set does not touch the bytes. -/
theorem updateSize_at (at_ : At fs s clusters i) :
    ∃ s', s.updateSize = (s', cOk) ∧ At fs s' clusters i ∧
      s'.file.position = s.file.position ∧
      s'.file.filesize = max s.file.filesize s.file.position ∧
      TableKept fs s.medium s'.medium ∧ contents fs s' clusters = contents fs s clusters := by
  have usable := at_.usable
  rw [FileState.updateSize]
  by_cases grown : s.file.filesize < s.file.position
  · have read := Medium.readSectors_ok usable.reliable at_.listed
    obtain ⟨m', wrote, written⟩ := Medium.writeSectors_ok (m := s.medium.ask
      (.read s.file.directorySector)) usable.reliable at_.listed
      (write32 (s.medium.content s.file.directorySector) (s.file.directoryEntryNumber * 32 + 28)
        s.file.position)
    have kept : TableKept fs s.medium m' :=
      tableKept_update at_.behind wrote.content wrote.sectors wrote.outcome
    rw [if_pos grown, read]
    simp only [written]
    refine ⟨_, rfl, ⟨at_.toChained.kept kept rfl rfl, at_.sector, at_.cluster⟩, rfl,
      (Nat.max_eq_right (Nat.le_of_lt grown)).symm, kept, ?_⟩
    apply chainBytes_congr
    intro sector member
    have apart : sector ≠ s.file.directorySector := by
      obtain ⟨c, member', inside⟩ := List.mem_flatMap.mp member
      intro here
      exact at_.apart c (at_.inVolume c member') (.inl member') (here ▸ inside)
    change m'.content sector = s.medium.content sector
    rw [wrote.content, Function.update_of_ne apart]
    rfl
  · rw [if_neg grown]
    exact ⟨s, rfl, at_, rfl, (Nat.max_eq_left (Nat.le_of_not_lt grown)).symm,
      tableKept_of_same (.refl _), rfl⟩

namespace Holds

variable (holds : Holds fs s clusters)

include holds

theorem writeBytes_nil : s.writeBytes fs [] = (s, cOk) := by
  rw [FileState.writeBytes, FileState.writeLoop, dif_neg (by simp)]
  exact if_neg (Nat.not_lt.mpr holds.position)

/-- A write for which enough clusters are free puts all bytes over the content. -/
theorem writeBytes_enough
    (inside : bytes ≠ [] →
      s.file.position < 512 * (fs.myFATBPB.secPerClus * clusters.length))
    (word : s.file.position + bytes.length < 2 ^ 32)
    (supply : Supply fs s.medium (fs.searchStart s.medium) n)
    (enough : (s.file.position + bytes.length) / 512 <
      fs.myFATBPB.secPerClus * (clusters.length + n)) :
    ∃ s' added, s.writeBytes fs bytes = (s', cOk) ∧ Holds fs s' (clusters ++ added) ∧
      s'.file.position = s.file.position + bytes.length ∧
      s'.file.filesize = max s.file.filesize (s.file.position + bytes.length) ∧
      added.length ≤ n ∧ Supply fs s'.medium (fs.searchStart s'.medium) (n - added.length) ∧
      (added = [] → TableKept fs s.medium s'.medium) ∧
      content fs s' (clusters ++ added) =
        overlay (content fs s clusters) s.file.position bytes := by
  have before := holds.position
  have small := holds.word
  by_cases none_ : bytes = []
  · subst none_
    refine ⟨s, [], holds.writeBytes_nil, by rwa [List.append_nil], rfl,
      (Nat.max_eq_left before).symm, Nat.zero_le n,
      supply, fun _ => tableKept_of_same (.refl _), ?_⟩
    rw [List.append_nil, overlay_nil]
  · have inside := inside none_
    obtain ⟨s₁, added, result, wrote⟩ :=
      writeLoop_enough bytes s clusters n false holds.toAt (by omega) word holds.size
        (fun none => by cases none) supply enough
    obtain ⟨s', updated, at', position', filesize, kept, same⟩ := updateSize_at wrote.at_
    have within := wrote.inside
    have position := wrote.position
    rw [wrote.onward.filesize, position] at filesize
    have capacity : s'.file.filesize ≤
        512 * (fs.myFATBPB.secPerClus * (clusters ++ added).length) := by
      have size := holds.size
      rw [List.length_append, Nat.mul_add] at within ⊢
      omega
    refine ⟨s', added, ?_, ⟨by rw [position']; exact at', capacity, by omega, by omega⟩,
      position'.trans position, filesize, wrote.fewer, kept.supply wrote.at_.usable wrote.supply,
      fun none => (wrote.kept none).trans kept, ?_⟩
    · rw [FileState.writeBytes, result]
      exact updated
    · rw [content, same, filesize, content]
      exact wrote.stored.take_eq before (by rw [length_contents]; exact holds.size)

/-- A write that nothing is free for fills a file up that is as long as its chain. -/
theorem writeBytes_dry
    (inside : s.file.position < 512 * (fs.myFATBPB.secPerClus * clusters.length))
    (whole : s.file.filesize = 512 * (fs.myFATBPB.secPerClus * clusters.length))
    (full : s.file.filesize ≤ s.file.position + bytes.length)
    (word : s.file.position + bytes.length < 2 ^ 32) (dry : Dry fs s.medium) :
    ∃ s', s.writeBytes fs bytes = (s', cDeviceMemoryExhausted) ∧ Holds fs s' clusters ∧
      s'.file.position = s.file.filesize ∧ s'.file.filesize = s.file.filesize ∧
      content fs s' clusters = overlay (content fs s clusters) s.file.position
        (bytes.take (s.file.filesize - s.file.position)) := by
  obtain ⟨s', result, at', onward, position, stored⟩ :=
    writeLoop_dry bytes s false holds.toAt inside (by omega) word holds.size
    (fun none => by cases none) dry
  have filesize := onward.filesize
  rw [← whole] at position stored
  refine ⟨s', ?_, ⟨at', by omega, ?_, by omega⟩, position, filesize, ?_⟩
  · rw [FileState.writeBytes, result]
  · rw [filesize]
    exact holds.word
  · have count : (bytes.take (s.file.filesize - s.file.position)).length =
        s.file.filesize - s.file.position := by
      rw [List.length_take]
      omega
    have before := holds.position
    have all := stored.take_eq before (by rw [length_contents]; exact holds.size)
    rw [count, Nat.add_sub_cancel' before, Nat.max_self] at all
    rw [content, filesize, all]
    rfl

/-- Behind the last sector a write fails at once. -/
theorem writeBytes_end (some_ : bytes ≠ [])
    (ended : s.file.position = 512 * (fs.myFATBPB.secPerClus * clusters.length)) :
    ∃ s', s.writeBytes fs bytes = (s', cError) ∧ Holds fs s' clusters ∧
      s'.file = s.file ∧ s.medium.Same s'.medium := by
  have usable := holds.usable
  have sector : s.file.currentSector = EOC := by
    rw [holds.sector, getElem?_chainSectors_div usable, ended,
      Nat.mul_div_cancel_left _ (by decide),
      Nat.mul_div_cancel_left _ usable.positive, List.getElem?_eq_none (Nat.le_refl _)]
    rfl
  have outside : ¬s.medium.InRange s.file.currentSector := by
    have ends := usable.ends
    rw [Medium.InRange, sector]
    rw [EOC] at ends ⊢
    rw [wordAdd_eq (by omega)]
    omega
  have read := Medium.readSectors_outside outside
  have positive : 0 < bytes.length := List.length_pos_iff.mpr some_
  have same : s.medium.Same (s.medium.ask (.read s.file.currentSector)) := .ask _ _
  have result : s.writeBytes fs bytes =
      ({ s with medium := s.medium.ask (.read s.file.currentSector) }, cError) := by
    rw [FileState.writeBytes, FileState.writeLoop, dif_pos positive, FileState.writeSector,
      FileState.loadSector, if_neg (by decide), read]
    rfl
  refine ⟨_, result, ⟨⟨holds.toChained.same same rfl, holds.sector, holds.cluster⟩, holds.size,
    holds.word, holds.position⟩, rfl, same⟩

end Holds

/-! ### Reading and seeking -/

/-- The bytes of the sector the file is at. -/
theorem bytesAt_place (at_ : At fs s clusters (s.file.position / 512))
    (inside : s.file.position / 512 < fs.myFATBPB.secPerClus * clusters.length)
    (short : n ≤ 512 - s.file.position % 512) :
    bytesAt (s.medium.content s.file.currentSector) (s.file.position % 512) n =
      ((contents fs s clusters).drop s.file.position).take n := by
  obtain ⟨c, member, inVolume, current, here, sector⟩ := at_.place inside
  rw [← sector] at here
  apply List.ext_getElem?
  intro j
  by_cases less : j < n
  · have whole := getElem?_chainBytes fs s.medium.content clusters (s.file.position / 512)
      (show s.file.position % 512 + j < 512 by omega)
    rw [← Nat.add_assoc, Nat.div_add_mod, here] at whole
    rw [List.getElem?_eq_getElem (by rwa [length_bytesAt]), getElem_bytesAt,
      List.getElem?_take_of_lt less, List.getElem?_drop]
    exact whole.symm
  · rw [List.getElem?_eq_none (by rw [length_bytesAt]; omega),
      List.getElem?_eq_none (by rw [List.length_take]; omega)]

/-- What is read of one sector, and where the loop goes on. -/
theorem readLoop_sector (at_ : At fs s clusters (s.file.position / 512))
    (inside : s.file.position / 512 < fs.myFATBPB.secPerClus * clusters.length)
    (word : s.file.position + n < 2 ^ 32) (some_ : 0 < n) (length : Nat) (bytes : List Byte) :
    ∃ s', At fs s' clusters (s.file.position / 512) ∧ Onward s s' ∧
      s'.file.position = s.file.position + sectorLen (s.file.position % 512) n ∧
      s.medium.Same s'.medium ∧
      FileState.readLoop fs length s n bytes =
        let read := bytes ++ ((contents fs s clusters).drop s.file.position).take
          (sectorLen (s.file.position % 512) n)
        if n < 512 - s.file.position % 512 then (s', ⟨cOk, read, read.length⟩)
        else match s'.nextSector fs false with
          | (s'', false) => (s'', ⟨cEOF, read, read.length⟩)
          | (s'', true) =>
            FileState.readLoop fs length s'' (n - (512 - s.file.position % 512)) read := by
  have usable := at_.usable
  obtain ⟨c, member, inVolume, current, here, sector⟩ := at_.place inside
  have inRange := usable.inRange inVolume (Nat.mod_lt (s.file.position / 512) usable.positive)
  rw [← sector] at inRange
  have taken : sectorLen (s.file.position % 512) n ≤ 512 - s.file.position % 512 := by
    rw [sectorLen]
    split <;> omega
  have below := sectorLen_le (s.file.position % 512) n
  have same : s.medium.Same (s.medium.ask (.read s.file.currentSector)) := .ask _ _
  refine ⟨FileState.pass { s with
      medium := s.medium.ask (.read s.file.currentSector)
      buffer := s.medium.content s.file.currentSector } (sectorLen (s.file.position % 512) n),
    ⟨at_.toChained.same same rfl, at_.sector, at_.cluster⟩, rfl,
    wordAdd_eq (show s.file.position + _ < 2 ^ 32 by omega), same, ?_⟩
  rw [FileState.readLoop, dif_pos some_, FileState.readSector,
    Medium.readSectors_ok usable.reliable inRange, FATFile.sectorPos_eq]
  simp only [bytesAt_place at_ inside taken]
  by_cases short : n < 512 - s.file.position % 512
  · have rest : n - sectorLen (s.file.position % 512) n = 0 := by
      rw [sectorLen, if_pos short, Nat.sub_self]
    rw [if_pos short, if_pos short, rest, FileState.readLoop, dif_neg (Nat.lt_irrefl 0)]
  · have len : sectorLen (s.file.position % 512) n = 512 - s.file.position % 512 := if_neg short
    rw [len, if_neg short]
    exact (if_neg short).symm

/-- The loop copies what stands there. -/
theorem readLoop_at (length n : Nat) (s : FileState) (bytes : List Byte)
    (at_ : At fs s clusters (s.file.position / 512))
    (inside : s.file.position + n ≤ 512 * (fs.myFATBPB.secPerClus * clusters.length))
    (word : s.file.position + n < 2 ^ 32) :
    ∃ s' status length', FileState.readLoop fs length s n bytes = (s', ⟨status,
        bytes ++ ((contents fs s clusters).drop s.file.position).take n, length'⟩) ∧
      At fs s' clusters (s'.file.position / 512) ∧ Onward s s' ∧
      s'.file.position = s.file.position + n ∧ s.medium.Same s'.medium := by
  induction n using Nat.strong_induction_on generalizing s bytes with
  | _ n ih =>
    by_cases none : n = 0
    · subst none
      rw [FileState.readLoop, dif_neg (Nat.lt_irrefl 0)]
      simp only [List.take_zero, List.append_nil]
      exact ⟨s, _, _, rfl, at_, .refl s, rfl, .refl _⟩
    obtain ⟨s₁, at₁, onward, position, same, result⟩ :=
      readLoop_sector at_ (by omega) word (Nat.pos_of_ne_zero none) length bytes
    simp only at result
    by_cases short : n < 512 - s.file.position % 512
    · have len : sectorLen (s.file.position % 512) n = n := if_pos short
      rw [len] at position
      rw [if_pos short, len] at result
      have sector : s₁.file.position / 512 = s.file.position / 512 := by omega
      exact ⟨s₁, _, _, result, by rwa [sector], onward, position, same⟩
    · have len : sectorLen (s.file.position % 512) n = 512 - s.file.position % 512 := if_neg short
      rw [len] at position
      rw [if_neg short, len] at result
      have sector : s₁.file.position / 512 = s.file.position / 512 + 1 := by omega
      by_cases more : s.file.position / 512 + 1 < fs.myFATBPB.secPerClus * clusters.length
      · obtain ⟨s₂, moved, at₂, same₂⟩ := at₁.next more false
        have position₂ := position_nextSector moved
        rw [moved] at result
        obtain ⟨s', status, length', result', at', onward', position', same'⟩ :=
          ih (n - (512 - s.file.position % 512)) (by omega) s₂
            (bytes ++ ((contents fs s clusters).drop s.file.position).take
              (512 - s.file.position % 512))
            (by rw [position₂, sector]; exact at₂) (by omega) (by omega)
        refine ⟨s', status, length', result.trans (result'.trans ?_), at',
          (onward.trans (onward_nextSector moved)).trans onward', by omega,
          (same.trans same₂).trans same'⟩
        have count : n = 512 - s.file.position % 512 + (n - (512 - s.file.position % 512)) := by
          omega
        rw [contents_same (same.trans same₂), position₂, position, ← List.drop_drop,
          List.append_assoc]
        conv_rhs => rw [count, List.take_add]
      · obtain ⟨s', moved, at', same'⟩ := at₁.last_read (by omega)
        have position' := position_nextSector moved
        have all : 512 - s.file.position % 512 = n := by omega
        rw [moved, all] at result
        refine ⟨s', _, _, result, ?_, onward.trans (onward_nextSector moved), by omega,
          same.trans same'⟩
        rwa [position', sector]

/-- The loop of a seek that stays in the chain goes all the way. -/
theorem seekLoop_at (n : Nat) (s : FileState) (at_ : At fs s clusters (s.file.position / 512))
    (inside : s.file.position + n ≤ 512 * (fs.myFATBPB.secPerClus * clusters.length))
    (word : s.file.position + n < 2 ^ 32) :
    ∃ s' status, FileState.seekLoop fs s n = (s', status) ∧
      At fs s' clusters (s'.file.position / 512) ∧ Onward s s' ∧
      s'.file.position = s.file.position + n ∧ s.medium.Same s'.medium := by
  induction n using Nat.strong_induction_on generalizing s with
  | _ n ih =>
    have passed (len : Nat) (least : len ≤ n) :
        (s.pass len).file.position = s.file.position + len := by
      rw [FileState.pass_position, wordAdd_eq (by omega)]
    have at₁ (len : Nat) : At fs (s.pass len) clusters (s.file.position / 512) :=
      ⟨at_.toChained.same (.refl _) (onward_pass s len), at_.sector, at_.cluster⟩
    by_cases none : n = 0
    · subst none
      exact ⟨s, _, FileState.seekLoop_stay (Int.le_refl 0), at_, .refl s, rfl, .refl _⟩
    by_cases short : n < 512 - s.file.sectorPos
    · rw [FileState.seekLoop_inside (by omega) short]
      rw [FATFile.sectorPos_eq] at short
      have position := passed n (Nat.le_refl n)
      refine ⟨_, _, rfl, ?_, onward_pass s n, position, .refl _⟩
      have sector : (s.pass n).file.position / 512 = s.file.position / 512 := by omega
      rw [sector]
      exact at₁ n
    · rw [FileState.seekLoop_over (Nat.le_of_not_lt short)]
      rw [FATFile.sectorPos_eq] at short ⊢
      have position := passed (512 - s.file.position % 512) (by omega)
      have sector : (s.pass (512 - s.file.position % 512)).file.position / 512 =
          s.file.position / 512 + 1 := by omega
      by_cases more : s.file.position / 512 + 1 < fs.myFATBPB.secPerClus * clusters.length
      · obtain ⟨s₂, moved, at₂, same⟩ := (at₁ (512 - s.file.position % 512)).next more false
        have position₂ := position_nextSector moved
        rw [moved]
        obtain ⟨s', status, result, at', onward', position', same'⟩ :=
          ih (n - (512 - s.file.position % 512)) (by omega) s₂
            (by rw [position₂, sector]; exact at₂) (by omega) (by omega)
        exact ⟨s', status, result, at',
          ((onward_pass s _).trans (onward_nextSector moved)).trans onward', by omega,
          same.trans same'⟩
      · obtain ⟨s', moved, at', same⟩ := (at₁ (512 - s.file.position % 512)).last_read (by omega)
        have position₂ := position_nextSector moved
        rw [moved]
        refine ⟨s', _, rfl, ?_, (onward_pass s _).trans (onward_nextSector moved), by omega, same⟩
        rwa [position₂, sector]

theorem content_same (same : s.medium.Same s'.medium) (onward : Onward s s') :
    content fs s' clusters = content fs s clusters := by
  rw [content, contents_same same, onward.filesize]
  rfl

namespace Holds

variable (holds : Holds fs s clusters)

include holds

/-- The file at another place. -/
theorem moved (at_ : At fs s' clusters (s'.file.position / 512)) (onward : Onward s s')
    (inside : s'.file.position ≤ s.file.filesize) : Holds fs s' clusters := by
  refine ⟨at_, ?_, ?_, ?_⟩
  · rw [onward.filesize]
    exact holds.size
  · rw [onward.filesize]
    exact holds.word
  · rwa [onward.filesize]

/-- The file at its first byte. -/
theorem rewound : Holds fs (s.rewound fs) clusters := by
  have usable := holds.usable
  obtain ⟨rest, rfl⟩ := List.head?_eq_some_iff.mp holds.first
  have inVolume := holds.inVolume s.file.clusterStart (by simp)
  have start := usable.clusterToSector_eq inVolume
  have zero : (s.rewound fs).file.position = 0 := rfl
  refine holds.moved ⟨holds.toChained.same (.refl _) rfl, ?_, ?_⟩ rfl (Nat.zero_le _)
  · change fs.clusterToSector s.file.clusterStart = _
    have first := getElem?_chainSectors fs (s.file.clusterStart :: rest) 0 usable.positive
    rw [Nat.mul_zero, Nat.add_zero] at first
    rw [start]
    rw [zero, Nat.zero_div, first]
    rfl
  · intro c member
    rw [zero, Nat.zero_div] at member
    exact Option.some.inj member

/-- A read answers bytes of the content from the position on. -/
theorem readBytes (length : Nat) :
    ∃ s' status bytes length', s.readBytes fs length = (s', ⟨status, bytes, length'⟩) ∧
      Holds fs s' clusters ∧ s.medium.Same s'.medium ∧ Onward s s' ∧
      bytes <+: (content fs s clusters).drop s.file.position := by
  have position := holds.position
  have size := holds.size
  have word := holds.word
  rw [FileState.readBytes, wordSub_eq position word]
  obtain ⟨n, count⟩ : ∃ n, n = if s.file.filesize - s.file.position < length then
    s.file.filesize - s.file.position else length := ⟨_, rfl⟩
  have inside : s.file.position + n ≤ s.file.filesize := by
    rw [count]
    split <;> omega
  simp only [← count]
  by_cases none : n = 0
  · rw [if_pos none]
    exact ⟨s, _, _, _, rfl, holds, .refl _, .refl s, List.nil_prefix⟩
  · rw [if_neg none]
    obtain ⟨s', status, length', result, at', onward, position', same⟩ :=
      readLoop_at length n s [] holds.toAt (by omega) (by omega)
    refine ⟨s', status, _, length', result, holds.moved at' onward (by omega), same, onward, ?_⟩
    rw [List.nil_append, content, List.drop_take]
    exact (List.take_prefix_take_left (by omega))

/-- A seek in the file leaves it at a place in it. -/
theorem seekLoop (n : Nat) (inside : s.file.position + n ≤ s.file.filesize) :
    Holds fs (FileState.seekLoop fs s n).1 clusters ∧ Onward s (FileState.seekLoop fs s n).1 ∧
      (FileState.seekLoop fs s n).1.file.position = s.file.position + n ∧
      s.medium.Same (FileState.seekLoop fs s n).1.medium := by
  have size := holds.size
  have word := holds.word
  obtain ⟨s', status, result, at', onward, position, same⟩ :=
    seekLoop_at n s holds.toAt (by omega) (by omega)
  rw [result]
  exact ⟨holds.moved at' onward (position.trans_le inside), onward, position, same⟩

end Holds

/-! ### Seeks behind the end -/

/-- A sector for the byte at this place is in the chain or can be put behind it. -/
def Enough (fs : FATFileSystem) (s : FileState) (clusters : List Nat) (place : Nat) : Prop :=
  ∃ n, Supply fs s.medium (fs.searchStart s.medium) n ∧
    place / 512 < fs.myFATBPB.secPerClus * (clusters.length + n)

/-- The file is as long as its chain, and nothing is free. -/
structure Full (fs : FATFileSystem) (s : FileState) (clusters : List Nat) : Prop where
  whole : s.file.filesize = 512 * (fs.myFATBPB.secPerClus * clusters.length)
  dry : Dry fs s.medium

/-- What a file that is to be filled up finds. -/
def Fillable (fs : FATFileSystem) (s : FileState) (clusters : List Nat) (n : Nat) : Prop :=
  s.file.position = 512 * (fs.myFATBPB.secPerClus * clusters.length) ∨
    Enough fs s clusters (s.file.position + n) ∨ Full fs s clusters

namespace Holds

variable (holds : Holds fs s clusters)

include holds

/-- Part of what the file is to be filled up with is written. -/
theorem writeBytes_part (bytes : List Byte) (some_ : bytes ≠ []) (part : bytes.length ≤ n)
    (word : s.file.position + n < 2 ^ 32) (fillable : Fillable fs s clusters n) :
    ∃ clusters', Holds fs (s.writeBytes fs bytes).1 clusters' ∧
      (s.writeBytes fs bytes).1.file.position + (n - bytes.length) < 2 ^ 32 ∧
      Fillable fs (s.writeBytes fs bytes).1 clusters' (n - bytes.length) := by
  have size := holds.size
  have position := holds.position
  by_cases ended : s.file.position = 512 * (fs.myFATBPB.secPerClus * clusters.length)
  · obtain ⟨s', result, holds', file, _⟩ := holds.writeBytes_end some_ ended
    rw [result]
    refine ⟨clusters, holds', ?_, .inl ?_⟩
    · rw [file]
      omega
    · rw [file, ended]
  have inside : s.file.position < 512 * (fs.myFATBPB.secPerClus * clusters.length) := by omega
  have fits : s.file.position + bytes.length < 2 ^ 32 := by omega
  rcases fillable with last | ⟨k, supply, enough⟩ | full
  · exact absurd last ended
  · obtain ⟨s', added, result, holds', position', _, fewer, supply', _, _⟩ :=
      holds.writeBytes_enough (fun _ => inside) fits supply
        (Nat.lt_of_le_of_lt (Nat.div_le_div_right (by omega)) enough)
    have target : s'.file.position + (n - bytes.length) = s.file.position + n := by omega
    have count : (clusters ++ added).length + (k - added.length) = clusters.length + k := by
      rw [List.length_append]
      omega
    rw [result]
    refine ⟨clusters ++ added, holds', target.trans_lt word, .inr (.inl ⟨_, supply', ?_⟩)⟩
    rw [target, count]
    exact enough
  · have whole := full.whole
    by_cases short : s.file.position + bytes.length < s.file.filesize
    · have supply : Supply fs s.medium (fs.searchStart s.medium) 0 := trivial
      obtain ⟨s', added, result, holds', position', filesize, none, _, kept, _⟩ :=
        holds.writeBytes_enough (fun _ => inside) fits supply (by rw [Nat.add_zero]; omega)
      obtain rfl := List.length_eq_zero_iff.mp (Nat.le_zero.mp none)
      have target : s'.file.position + (n - bytes.length) < 2 ^ 32 := by omega
      have same : s'.file.filesize = s.file.filesize := by omega
      rw [result]
      refine ⟨clusters ++ [], holds', target,
        .inr (.inr ⟨?_, (kept rfl).dry holds.usable full.dry⟩)⟩
      rw [List.append_nil]
      exact same.trans whole
    · obtain ⟨s', result, holds', position', filesize, _⟩ :=
        holds.writeBytes_dry inside whole (Nat.le_of_not_lt short) fits full.dry
      rw [result]
      exact ⟨clusters, holds', by simp only; omega, .inl (by simp only; omega)⟩

/-- The file is filled up as far as it goes. -/
theorem fillLoop (word : s.file.position + n < 2 ^ 32) (fillable : Fillable fs s clusters n) :
    ∃ clusters', Holds fs (FileState.fillLoop fs s n) clusters' := by
  induction n using Nat.strong_induction_on generalizing s clusters with
  | _ n ih =>
    rw [FileState.fillLoop]
    by_cases some : 0 < n
    · rw [dif_pos some]
      by_cases long : 512 < n
      · rw [if_pos long]
        obtain ⟨clusters', holds', word', fillable'⟩ :=
          holds.writeBytes_part (FileState.zeros 512) (by decide)
            (by rw [FileState.length_zeros]; omega) word fillable
        rw [FileState.length_zeros] at word' fillable'
        exact ih (n - 512) (by omega) holds' word' fillable'
      · rw [if_neg long]
        obtain ⟨clusters', holds', _⟩ :=
          holds.writeBytes_part (FileState.zeros n)
            (List.ne_nil_of_length_pos (by rwa [FileState.length_zeros]))
            (by rw [FileState.length_zeros]) word fillable
        exact ⟨clusters', holds'⟩
    · rw [dif_neg some]
      exact ⟨clusters, holds⟩

theorem word_position : s.file.position < 2 ^ 32 :=
  Nat.lt_of_le_of_lt holds.position holds.word

/-- A seek that stays in the file. -/
theorem seekInside {v : Int} (inside : s.file.newPosition v < s.file.position ∨
    s.file.position + v ≤ s.file.filesize) :
    Holds fs (s.seekInside fs v).1 clusters ∧ Onward s (s.seekInside fs v).1 ∧
      s.medium.Same (s.seekInside fs v).1.medium ∧
      (s.seekInside fs v).1.file.position =
        if v = 0 then s.file.position
        else if s.file.newPosition v < s.file.position then
          if s.file.newPosition v < 2 ^ 31 then s.file.newPosition v else 0
        else if 0 < v then s.file.position + v.toNat else s.file.position := by
  have word := holds.word_position
  have least := holds.position
  rw [FileState.seekInside]
  by_cases stay : v = 0
  · rw [if_pos stay, if_pos stay]
    exact ⟨holds, .refl s, .refl _, rfl⟩
  · rw [if_neg stay, if_neg stay]
    by_cases back : s.file.newPosition v < s.file.position
    · rw [if_pos back, if_pos back]
      have start : (s.rewound fs).file.position = 0 := rfl
      by_cases small : s.file.newPosition v < 2 ^ 31
      · have room : (s.rewound fs).file.position + s.file.newPosition v ≤
            (s.rewound fs).file.filesize := by
          rw [start, Nat.zero_add]
          exact Nat.le_trans (Nat.le_of_lt back) least
        rw [if_pos small, int4_of_lt small]
        obtain ⟨holds', onward, position, same⟩ :=
          holds.rewound.seekLoop (s.file.newPosition v) room
        rw [start, Nat.zero_add] at position
        exact ⟨holds', Onward.trans rfl onward, same, position⟩
      · rw [if_neg small, int4_of_le (Nat.le_of_not_lt small) (Nat.lt_trans back word),
          FileState.seekLoop_stay (by omega)]
        exact ⟨holds.rewound, rfl, .refl _, rfl⟩
    · rw [if_neg back, if_neg back]
      by_cases forward : 0 < v
      · obtain ⟨n, rfl⟩ := Int.eq_ofNat_of_zero_le (Int.le_of_lt forward)
        obtain ⟨holds', onward, position, same⟩ := holds.seekLoop n (by omega)
        rw [if_pos forward]
        exact ⟨holds', onward, same, position⟩
      · rw [if_neg forward, FileState.seekLoop_stay (by omega)]
        exact ⟨holds, .refl s, .refl _, rfl⟩

end Holds

/-- Where a file is filled up from: its end, when that can be told as a signed distance. -/
def fillStart (s : FileState) : Nat :=
  if s.file.filesize - s.file.position < 2 ^ 31 then s.file.filesize else 0

/-- A seek is to a place in the file, or finds the sectors up to that place. It does not go
over the range of a word in a file of the largest size. -/
def SeekRoom (fs : FATFileSystem) (s : FileState) (clusters : List Nat) (v : Int) : Prop :=
  v < 2 ^ 31 ∧ (s.file.filesize = 2 ^ 32 - 1 → s.file.position + v < 2 ^ 32) ∧
    (s.file.filesize < s.file.newPosition v →
      fillStart s = 512 * (fs.myFATBPB.secPerClus * clusters.length) ∨
        Enough fs s clusters (fillStart s + (s.file.newPosition v - s.file.filesize)) ∨
        Full fs s clusters)

/-- The place the file is filled up from. -/
theorem Holds.atEnd (holds : Holds fs s clusters) :
    Holds fs (s.atEnd fs) clusters ∧ Onward s (s.atEnd fs) ∧
      s.medium.Same (s.atEnd fs).medium ∧ (s.atEnd fs).file.position = fillStart s := by
  have word := holds.word
  have least := holds.position
  rw [FileState.atEnd, FileState.sought_eq, wordSub_eq least word, fillStart]
  by_cases near : s.file.filesize - s.file.position < 2 ^ 31
  · have place := FATFile.newPosition_inside (f := s.file)
      (v := (s.file.filesize - s.file.position : Nat)) (by omega) (by omega)
    rw [int4_of_lt near, if_pos near]
    obtain ⟨holds', onward, same, position⟩ := holds.seekInside
      (v := (s.file.filesize - s.file.position : Nat)) (.inr (by omega))
    refine ⟨holds', onward, same, position.trans ?_⟩
    split
    · omega
    · rw [if_neg (by omega)]
      split <;> omega
  · have before := FATFile.newPosition_before (f := s.file)
      (v := (s.file.filesize - s.file.position : Nat) - 2 ^ 32) holds.word_position (by omega)
      (by omega)
    rw [int4_of_le (by omega) (by omega), if_neg near]
    obtain ⟨holds', onward, same, position⟩ := holds.seekInside
      (v := (s.file.filesize - s.file.position : Nat) - 2 ^ 32) (.inr (by omega))
    refine ⟨holds', onward, same, position.trans ?_⟩
    rw [before, if_neg (by omega)]
    split
    · rw [if_pos (by decide)]
    · rw [if_neg (by omega)]
      omega

/-- A seek leaves the file at a place in it. -/
theorem Holds.seek (holds : Holds fs s clusters) {v : Int} (room : SeekRoom fs s clusters v) :
    ∃ clusters', Holds fs (s.seek fs v).1 clusters' := by
  obtain ⟨small, largest, fills⟩ := room
  have word := holds.word
  have least := holds.position
  have place := FATFile.newPosition_lt s.file v
  by_cases behind : v ≠ 0 ∧ s.file.position ≤ s.file.newPosition v ∧
      s.file.filesize < s.file.newPosition v
  · obtain ⟨holds', onward, same, position⟩ := holds.atEnd
    have start : fillStart s ≤ s.file.filesize := by
      rw [fillStart]
      split <;> omega
    have onwards : 0 < v := by
      by_contra back
      have low := FATFile.newPosition_le s.file (show v < 0 by omega)
      omega
    rw [FileState.seek_behind onwards behind.2.1 behind.2.2 onward.filesize]
    apply holds'.fillLoop (by omega)
    rw [Fillable, position]
    rcases fills behind.2.2 with last | ⟨n, supply, enough⟩ | full
    · exact .inl last
    · refine .inr (.inl ⟨n, (tableKept_of_same same).supply holds.usable supply, enough⟩)
    · exact .inr (.inr ⟨by rw [onward.filesize, full.whole],
        (tableKept_of_same same).dry holds.usable full.dry⟩)
  · rw [FileState.seek, if_neg behind]
    refine ⟨clusters, (holds.seekInside ?_).1⟩
    by_cases forward : 0 < v
    · by_cases below : s.file.position + v < 2 ^ 32
      · have inside := FATFile.newPosition_inside (f := s.file) (v := v) (by omega) below
        omega
      · have inside := FATFile.newPosition_beyond holds.word_position small (by omega)
        omega
    · omega

end Orcos.Guarantees.FatFiles
