import Orcos.Source.Fat.Table

/-!
# Allocation of a cluster on a FAT32 volume

What `allocateCluster` finds and what it writes. The search goes from the hint
through whole sectors of the table, from the one of the hint up to the one of
the cluster before the last two.
-/
namespace Orcos.Source.Fat.FATFileSystem
open Lib.ByteMemory

variable (fs : FATFileSystem) (m : Medium)

/-- `FSI_Nxt_Free`. -/
def nxtFree : Nat := read32 (m.content fs.fsinfoLba) 492

/-- `FSI_FreeCount`. -/
def freeCount : Nat := read32 (m.content fs.fsinfoLba) 488

/-- The cluster the search starts at. -/
def searchStart : Nat := if fs.nxtFree m = 0xFFFFFFFF then 2 else fs.nxtFree m

/-- The end of the table sector in which the search stops. -/
def searchEnd : Nat := (fs.countOfClusters + 127) / 128 * 128

/-- The entry the search ends at: the first free one from the start on. -/
structure Found (start f : Nat) : Prop where
  started : start < fs.countOfClusters
  low : start ≤ f
  high : f < fs.searchEnd
  free : fs.entry m.content f = 0
  first : ∀ d, start ≤ d → d < f → fs.entry m.content d ≠ 0

/-- The sectors an allocation may touch. -/
def InTableOrInfo (sector : Nat) : Prop := fs.InTable sector ∨ sector = fs.fsinfoLba

/-- The contents after a cluster was taken. -/
def takenContent (content : Nat → Memory) (f : Nat) : Nat → Memory :=
  let fsinfo := content fs.fsinfoLba
  Function.update (fs.setTableWord content f 0xffffff8) fs.fsinfoLba
    (write32 (write32 fsinfo 488 (wordSub (read32 fsinfo 488) 1)) 492 (wordAdd f 1))

/-- The state of the search before the entry of a cluster. -/
def searchAt (value offset c : Nat) : Search := ⟨value, offset, c, c * 4⟩

variable {fs m}

/-- The loop over one sector of the table stops behind the first free entry or at
the end of the sector. -/
theorem searchSector_spec (volume : fs.Fat32Volume m) (c value : Nat) (some : value ≠ 0)
    (inside : c / 128 < fs.fatSz) (small : c < 2 ^ 28) :
    (∃ f, c ≤ f ∧ f / 128 = c / 128 ∧ fs.entry m.content f = 0 ∧
      (∀ d, c ≤ d → d < f → fs.entry m.content d ≠ 0) ∧
      searchSector (m.content (fs.myFATBPB.rsvdSecCnt + c / 128))
        (searchAt value (c % 128 * 4) c) = searchAt 0 (f % 128 * 4 + 4) (f + 1)) ∨
    ((∀ d, c ≤ d → d / 128 = c / 128 → fs.entry m.content d ≠ 0) ∧ ∃ value', value' ≠ 0 ∧
      searchSector (m.content (fs.myFATBPB.rsvdSecCnt + c / 128))
        (searchAt value (c % 128 * 4) c) = searchAt value' 512 ((c / 128 + 1) * 128)) := by
  have word : read32 (m.content (fs.myFATBPB.rsvdSecCnt + c / 128)) (c % 128 * 4) &&& 0x0FFFFFFF =
      fs.entry m.content c := by
    rw [volume.entry_eq (by omega) (by omega), and_mask]
    rfl
  have step : searchSector (m.content (fs.myFATBPB.rsvdSecCnt + c / 128))
      (searchAt value (c % 128 * 4) c) =
      searchSector (m.content (fs.myFATBPB.rsvdSecCnt + c / 128))
        (searchAt (fs.entry m.content c) (c % 128 * 4 + 4) (c + 1)) := by
    rw [searchSector, if_pos ⟨some, by simp only [searchAt]; omega⟩]
    simp only [searchAt, word]
    rw [wordAdd_eq (by omega), Nat.succ_mul]
  rw [step]
  by_cases free : fs.entry m.content c = 0
  · left
    refine ⟨c, Nat.le_refl c, rfl, free, fun d low high => by omega, ?_⟩
    rw [searchSector, if_neg (fun more => more.1 free), free]
  · have only (d : Nat) (low : c ≤ d) (later : c + 1 ≤ d → fs.entry m.content d ≠ 0) :
        fs.entry m.content d ≠ 0 := by
      rcases Nat.eq_or_lt_of_le low with rfl | above
      · exact free
      · exact later above
    by_cases last : c % 128 = 127
    · right
      refine ⟨fun d low sector => only d low fun above => by omega, fs.entry m.content c, free, ?_⟩
      rw [searchSector, if_neg (fun more => by simp only [searchAt] at more; omega)]
      simp only [searchAt, Search.mk.injEq, true_and]
      omega
    · have sector : (c + 1) / 128 = c / 128 := by omega
      have offset : c % 128 * 4 + 4 = (c + 1) % 128 * 4 := by omega
      have rest := searchSector_spec volume (c + 1) (fs.entry m.content c) free
        (by omega) (by omega)
      rw [sector, ← offset] at rest
      rcases rest with ⟨f, low, same, empty, used, result⟩ | ⟨used, value', some', result⟩
      · exact .inl ⟨f, by omega, same, empty, fun d low high => only d low fun above =>
          used d above high, result⟩
      · exact .inr ⟨fun d low same => only d low fun above => used d above same, value', some',
          result⟩
termination_by 127 - c % 128

theorem Found.same {m' : Medium} {start f : Nat} (found : fs.Found m' start f)
    (same : m.Same m') : fs.Found m start f :=
  ⟨found.started, found.low, found.high, by rw [← same.content]; exact found.free,
    fun d low high => by rw [← same.content]; exact found.first d low high⟩

/-- Only one entry is the first free one. -/
theorem Found.unique {start f f' : Nat} (found : fs.Found m start f)
    (found' : fs.Found m start f') : f = f' := by
  rcases Nat.lt_trichotomy f f' with less | same | more
  · exact absurd found.free (found'.first f found.low less)
  · exact same
  · exact absurd found'.free (found.first f' found'.low more)

/-- The search through the table finds the first free entry, or nothing when there
is none before its end. -/
theorem searchTable_spec {m : Medium} (volume : fs.Fat32Volume m) (reliable : m.Reliable)
    (c value offset sector : Nat) (buffer : Memory) (some : value ≠ 0) :
    ∃ m', m.Same m' ∧ Medium.AsksOnly fs.InTable m m' ∧
      ((∃ f, fs.Found m c f ∧ fs.searchTable m (searchAt value offset c) sector buffer =
          (m', Option.some (searchAt 0 (f % 128 * 4 + 4) (f + 1), fs.myFATBPB.rsvdSecCnt + f / 128,
            m.content (fs.myFATBPB.rsvdSecCnt + f / 128)))) ∨
        ((¬∃ f, fs.Found m c f) ∧ ∃ s sector' buffer', s.fatEntryValue ≠ 0 ∧
          fs.searchTable m (searchAt value offset c) sector buffer =
            (m', Option.some (s, sector', buffer')))) := by
  by_cases more : c < fs.countOfClusters
  · have table := volume.table
    have numbers := volume.numbers
    have bound : fs.searchEnd = (fs.countOfClusters + 127) / 128 * 128 := rfl
    have read := Medium.readSectors_ok reliable
      (volume.inRange (s := fs.myFATBPB.rsvdSecCnt + c / 128) (by omega))
    have step : fs.searchTable m (searchAt value offset c) sector buffer =
        fs.searchTable (m.ask (.read (fs.myFATBPB.rsvdSecCnt + c / 128)))
          (searchSector (m.content (fs.myFATBPB.rsvdSecCnt + c / 128))
            (searchAt value (c % 128 * 4) c))
          (fs.myFATBPB.rsvdSecCnt + c / 128) (m.content (fs.myFATBPB.rsvdSecCnt + c / 128)) := by
      rw [searchTable, dif_pos ⟨some, more⟩]
      simp only [searchAt, volume.fatSecNum_eq (show c < 128 * fs.fatSz by omega), read,
        fatEntOffset_eq]
    have same := Medium.Same.ask m (.read (fs.myFATBPB.rsvdSecCnt + c / 128))
    have asked : Medium.AsksOnly fs.InTable m (m.ask (.read (fs.myFATBPB.rsvdSecCnt + c / 128))) :=
      .one rfl (inTable (by omega))
    rw [step]
    rcases searchSector_spec volume c value some (by omega) (by omega) with
      ⟨f, low, sector', free, used, result⟩ | ⟨used, value', some', result⟩
    · refine ⟨_, same, asked, .inl ⟨f, ⟨more, low, by omega, free, used⟩, ?_⟩⟩
      rw [result, searchTable, dif_neg (fun again => again.1 rfl), sector']
    · obtain ⟨m', same', asked', rest⟩ := searchTable_spec (volume.same same) reliable
        ((c / 128 + 1) * 128) value' 512 (fs.myFATBPB.rsvdSecCnt + c / 128)
        (m.content (fs.myFATBPB.rsvdSecCnt + c / 128)) some'
      refine ⟨m', same.trans same', asked.trans asked', ?_⟩
      rw [result]
      rcases rest with ⟨f, found, result'⟩ | ⟨none, s, sector', buffer', nonzero, result'⟩
      · have low := found.low
        refine .inl ⟨f, ⟨more, by omega, found.high, found.free, fun d above below => ?_⟩, result'⟩
        by_cases here : d / 128 = c / 128
        · exact used d above here
        · exact found.first d (by omega) below
      · refine .inr ⟨?_, s, sector', buffer', nonzero, result'⟩
        rintro ⟨f, found⟩
        have low := found.low
        have high := found.high
        have beyond : f / 128 ≠ c / 128 := fun here => used f low here found.free
        exact none ⟨f, by omega, by omega, high, found.free, fun d above below =>
          found.first d (by omega) below⟩
  · refine ⟨m, .refl m, .refl m, .inr ⟨?_, searchAt value offset c, sector, buffer, some, ?_⟩⟩
    · rintro ⟨f, found⟩
      exact more found.started
    · rw [searchTable, dif_neg (fun again => more again.2)]
termination_by fs.countOfClusters - c

theorem fsinfo_not_inTable (volume : fs.Fat32Volume m) (k : Nat) :
    fs.fsinfoLba ≠ fs.myFATBPB.rsvdSecCnt + k := by
  have info := volume.info
  omega

/-- The allocation goes through the table from the hint on. -/
theorem allocateCluster_eq (volume : fs.Fat32Volume m) (reliable : m.Reliable)
    (hint : fs.searchStart m < 2 ^ 30) :
    fs.allocateCluster m = fs.takeEntry (fs.searchTable (m.ask (.read fs.fsinfoLba))
      (searchAt EOC 0 (fs.searchStart m)) 0 (m.content fs.fsinfoLba)) := by
  have info := volume.info
  have read := Medium.readSectors_ok reliable (volume.inRange (s := fs.fsinfoLba) (by omega))
  have address : fs.searchStart m * 4 % 2 ^ 32 = fs.searchStart m * 4 :=
    Nat.mod_eq_of_lt (by omega)
  rw [searchAt, ← address, allocateCluster, volume.type]
  simp only [read]
  rfl

/-- Nothing is found and nothing written. -/
theorem allocateCluster_none (volume : fs.Fat32Volume m) (reliable : m.Reliable)
    (hint : fs.searchStart m < 2 ^ 30) (none : ¬∃ f, fs.Found m (fs.searchStart m) f) :
    ∃ m', m.Same m' ∧ Medium.AsksOnly fs.InTableOrInfo m m' ∧ fs.allocateCluster m = (m', EOC) := by
  have same := Medium.Same.ask m (.read fs.fsinfoLba)
  obtain ⟨m', same', asked, ⟨f, found, _⟩ | ⟨_, s, sector, buffer, nonzero, result⟩⟩ :=
    searchTable_spec (volume.same same) reliable (fs.searchStart m) EOC 0 0
      (m.content fs.fsinfoLba) (by decide)
  · exact absurd ⟨f, found.same same⟩ none
  · refine ⟨m', same.trans same', ?_, ?_⟩
    · exact (Medium.AsksOnly.one rfl (.inr rfl)).trans (asked.mono fun _ => .inl)
    · rw [allocateCluster_eq volume reliable hint, result]
      simp only [takeEntry, if_neg nonzero]

/-- A free entry that was found is taken in the table and in the information
sector. -/
theorem takeEntry_found (volume : fs.Fat32Volume m) (reliable : m.Reliable) {f : Nat}
    (inside : f / 128 < fs.fatSz) :
    ∃ m', m'.content = fs.takenContent m.content f ∧ m'.sectors = m.sectors ∧
      m'.outcome = m.outcome ∧ Medium.AsksOnly fs.InTableOrInfo m m' ∧
      fs.takeEntry (m, some (searchAt 0 (f % 128 * 4 + 4) (f + 1), fs.myFATBPB.rsvdSecCnt + f / 128,
        m.content (fs.myFATBPB.rsvdSecCnt + f / 128))) = (m', f) := by
  have info := volume.info
  have inRange : m.InRange fs.fsinfoLba := volume.inRange (by omega)
  obtain ⟨m₁, wrote, written⟩ := Medium.writeSectors_ok reliable
    (volume.inRange (s := fs.myFATBPB.rsvdSecCnt + f / 128) (by omega))
    (write32 (m.content (fs.myFATBPB.rsvdSecCnt + f / 128)) (f % 128 * 4) 0xffffff8)
  have content : m₁.content = fs.setTableWord m.content f 0xffffff8 := wrote.content
  have untouched : m₁.content fs.fsinfoLba = m.content fs.fsinfoLba := by
    rw [content, setTableWord_elsewhere (fsinfo_not_inTable volume _)]
  have read := Medium.readSectors_ok (wrote.reliable reliable) (wrote.inRange.mpr inRange)
  obtain ⟨m₂, wrote₂, written₂⟩ := Medium.writeSectors_ok
    (m := m₁.ask (.read fs.fsinfoLba)) (wrote.reliable reliable) (wrote.inRange.mpr inRange)
    (write32 (write32 (m.content fs.fsinfoLba) 488
      (wordSub (read32 (m.content fs.fsinfoLba) 488) 1)) 492 (wordAdd f 1))
  refine ⟨m₂, ?_, ?_, ?_, ?_, ?_⟩
  · rw [wrote₂.content, Medium.ask_content, content]
    rfl
  · rw [wrote₂.sectors, Medium.ask_sectors, wrote.sectors]
  · rw [wrote₂.outcome, Medium.ask_outcome, wrote.outcome]
  · have first : Medium.AsksOnly fs.InTableOrInfo m m₁ :=
      .one wrote.requests (.inl (inTable (by omega)))
    have second : Medium.AsksOnly fs.InTableOrInfo m₁ (m₁.ask (.read fs.fsinfoLba)) :=
      .one rfl (.inr rfl)
    exact (first.trans second).trans (.one wrote₂.requests (.inr rfl))
  · simp only [takeEntry, searchAt, if_pos, Nat.add_sub_cancel, written, takeFsInfo, read,
      untouched,
      written₂]
    rfl

/-- The cluster found is taken. -/
theorem allocateCluster_found (volume : fs.Fat32Volume m) (reliable : m.Reliable)
    (hint : fs.searchStart m < 2 ^ 30) {f : Nat} (found : fs.Found m (fs.searchStart m) f) :
    ∃ m', m'.content = fs.takenContent m.content f ∧ m'.sectors = m.sectors ∧
      m'.outcome = m.outcome ∧ Medium.AsksOnly fs.InTableOrInfo m m' ∧
      fs.allocateCluster m = (m', f) := by
  have same := Medium.Same.ask m (.read fs.fsinfoLba)
  obtain ⟨m', same', asked, ⟨f', found', result⟩ | ⟨none, _⟩⟩ :=
    searchTable_spec (volume.same same) reliable (fs.searchStart m) EOC 0 0
      (m.content fs.fsinfoLba) (by decide)
  · obtain rfl : f' = f := (found'.same same).unique found
    have whole := same.trans same'
    have table := volume.table
    have high := found.high
    have bound : fs.searchEnd = (fs.countOfClusters + 127) / 128 * 128 := rfl
    obtain ⟨m₁, content, sectors, outcome, asked', taken⟩ :=
      takeEntry_found (f := f') (volume.same whole) (whole.reliable reliable) (by omega)
    refine ⟨m₁, by rw [content, whole.content], by rw [sectors, whole.sectors],
      by rw [outcome, whole.outcome], ?_, ?_⟩
    · exact ((Medium.AsksOnly.one rfl (.inr rfl)).trans (asked.mono fun _ => .inl)).trans asked'
    · rw [allocateCluster_eq volume reliable hint, result, ← taken, whole.content]
      rfl
  · exact absurd ⟨f, found.same same.symm⟩ none

end Orcos.Source.Fat.FATFileSystem

/-! ## Allocation of a cluster when transfers fail

What `allocateCluster` answers and which entries it leaves alone whatever the
transfers report.
-/
namespace Orcos.Source.Fat
open Lib.ByteMemory

namespace Medium

variable {m m' : Medium} {sector : Nat} {buffer : Memory}

theorem readSectors_failed (failed : isError (m.status sector)) :
    m.readSectors sector = (m.ask (.read sector), .error (m.status sector)) := by
  rw [readSectors, if_pos failed]

theorem readSectors_passed (passed : ¬isError (m.status sector)) :
    m.readSectors sector = (m.ask (.read sector), .ok (m.content sector)) := by
  rw [readSectors, if_neg passed]

/-- A sector that is not written to keeps its contents. -/
theorem writeSectors_elsewhere {s : Nat} (other : s ≠ sector) :
    (m.writeSectors sector buffer).1.content s = m.content s := by
  rw [writeSectors, ask_content]
  split
  · rfl
  · exact Function.update_of_ne other _ _

theorem writeSectors_content : (m.writeSectors sector buffer).1.content sector =
    if isError (m.status sector) then m.content sector else buffer := by
  rw [writeSectors, ask_content]
  split
  · rfl
  · exact Function.update_self _ _ _

end Medium

namespace FATFileSystem

variable {fs : FATFileSystem} {m : Medium} {c : Nat}

/-- A word of a sector whose entry part is zero, and the offset behind it. -/
def FreeWord (buffer : Memory) (offset : Nat) : Prop :=
  4 ≤ offset ∧ offset % 4 = 0 ∧ read32 buffer (offset - 4) &&& 0x0FFFFFFF = 0

theorem searchSector_free (buffer : Memory) (s : Search) (value : s.fatEntryValue ≠ 0)
    (aligned : s.fatentoffset % 4 = 0) (address : s.currentClusterAddr % 4 = 0) :
    (searchSector buffer s).currentClusterAddr % 4 = 0 ∧
      ((searchSector buffer s).fatEntryValue = 0 →
        FreeWord buffer (searchSector buffer s).fatentoffset) := by
  induction s using searchSector.induct buffer with
  | case1 s more ih =>
    have next : wordAdd s.currentClusterAddr 4 % 4 = 0 := by
      rw [wordAdd]
      omega
    rw [searchSector, if_pos more]
    by_cases free : read32 buffer s.fatentoffset &&& 0x0FFFFFFF = 0
    · rw [searchSector, if_neg fun again => again.1 free]
      refine ⟨next, fun _ => ⟨Nat.le_add_left 4 _, ?_, free⟩⟩
      simp only
      omega
    · exact ih free (by simp only; omega) next
  | case2 s ended =>
    rw [searchSector, if_neg ended]
    exact ⟨address, fun free => absurd free value⟩

theorem fatEntOffset_mod {addr : Nat} (aligned : addr % 4 = 0) : fatEntOffset addr % 4 = 0 := by
  have low : addr &&& 2 ^ 9 - 1 = addr % 2 ^ 9 := Nat.and_two_pow_sub_one_eq_mod addr 9
  rw [fatEntOffset, show 512 - 1 = 2 ^ 9 - 1 from rfl, low]
  omega

/-- The search changes nothing. What it finds is a free entry of the sector read
last. -/
theorem searchTable_free (fs : FATFileSystem) (m : Medium) (s : Search) (sector : Nat)
    (buffer : Memory) (address : s.currentClusterAddr % 4 = 0)
    (start : s.fatEntryValue = 0 → FreeWord buffer s.fatentoffset ∧ buffer = m.content sector) :
    m.Same (fs.searchTable m s sector buffer).1 ∧
      ∀ s' sector' buffer', (fs.searchTable m s sector buffer).2 = some (s', sector', buffer') →
        s'.fatEntryValue = 0 → FreeWord buffer' s'.fatentoffset ∧ buffer' = m.content sector' := by
  rw [searchTable]
  split
  · next more =>
    by_cases failed : isError (m.status (fs.fatSecNum s.currentClusterAddr))
    · simp only [Medium.readSectors_failed failed]
      exact ⟨.ask m _, fun _ _ _ none => nomatch none⟩
    · simp only [Medium.readSectors_passed failed]
      have aligned : fatEntOffset s.currentClusterAddr % 4 = 0 := fatEntOffset_mod address
      obtain ⟨address', free⟩ := searchSector_free
        (m.content (fs.fatSecNum s.currentClusterAddr))
        { s with fatentoffset := fatEntOffset s.currentClusterAddr } more.1 aligned address
      have advances := lt_searchSector (m.content (fs.fatSecNum s.currentClusterAddr))
        { s with fatentoffset := fatEntOffset s.currentClusterAddr } more.1 (fatEntOffset_lt _)
      obtain ⟨same, found⟩ := searchTable_free fs
        (m.ask (.read (fs.fatSecNum s.currentClusterAddr))) _ (fs.fatSecNum s.currentClusterAddr) _
        address' fun zero => ⟨free zero, rfl⟩
      exact ⟨(Medium.Same.ask m _).trans same, found⟩
  · refine ⟨.refl m, fun s' sector' buffer' result zero => ?_⟩
    cases result
    exact start zero
termination_by fs.countOfClusters - s.currentCluster
decreasing_by
  simp only at advances
  omega

/-- The update of the information sector changes no sector of the table. -/
theorem takeFsInfo_elsewhere {s : Nat} (other : s ≠ fs.fsinfoLba) :
    (fs.takeFsInfo m c).1.content s = m.content s := by
  rw [takeFsInfo]
  by_cases failed : isError (m.status fs.fsinfoLba)
  · simp only [Medium.readSectors_failed failed, Medium.ask_content]
  · simp only [Medium.readSectors_passed failed]
    split
    all_goals
      rw [Medium.writeSectors_elsewhere other, Medium.ask_content]

/-- Taking a free entry changes no other word of the table. -/
theorem takeEntry_keeps {s : Search} {sector : Nat} {buffer : Memory}
    (volume : fs.Fat32Volume m) (used : fs.tableWord m.content c % 2 ^ 28 ≠ 0)
    (found : s.fatEntryValue = 0 → FreeWord buffer s.fatentoffset ∧ buffer = m.content sector) :
    fs.tableWord (fs.takeEntry (m, some (s, sector, buffer))).1.content c =
      fs.tableWord m.content c := by
  have apart : fs.myFATBPB.rsvdSecCnt + c / 128 ≠ fs.fsinfoLba := by
    have info := volume.info
    omega
  simp only [takeEntry]
  split
  · next zero =>
    obtain ⟨⟨four, aligned, free⟩, rfl⟩ := found zero
    have word : fs.tableWord (m.writeSectors sector
        (write32 (m.content sector) (s.fatentoffset - 4) 0xffffff8)).1.content c =
          fs.tableWord m.content c := by
      by_cases same : fs.myFATBPB.rsvdSecCnt + c / 128 = sector
      · subst same
        rw [tableWord, Medium.writeSectors_content]
        split
        · rfl
        · have other : c % 128 * 4 ≠ s.fatentoffset - 4 := by
            intro here
            rw [← here, and_mask] at free
            exact used free
          rw [read32_write32_of_apart (by omega)]
          rfl
      · rw [tableWord, Medium.writeSectors_elsewhere same]
        rfl
    split
    · exact word
    · rw [tableWord, takeFsInfo_elsewhere apart]
      exact word
  · rfl

/-- On a FAT32 volume no entry of a cluster is changed that was not free. -/
theorem allocateCluster_keeps (volume : fs.Fat32Volume m) (inside : c < fs.countOfClusters + 2)
    (used : fs.entry m.content c ≠ 0) :
    fs.entry (fs.allocateCluster m).1.content c = fs.entry m.content c := by
  have table := volume.table
  have numbers := volume.numbers
  rw [volume.entry_eq (by omega) (by omega)] at used
  rw [volume.entry_eq (by omega) (by omega), volume.entry_eq (by omega) (by omega)]
  congr 1
  rw [allocateCluster, volume.type]
  by_cases failed : isError (m.status fs.fsinfoLba)
  · simp only [Medium.readSectors_failed failed, Medium.ask_content]
  · simp only [Medium.readSectors_passed failed]
    have start (c : Nat) : c * 4 % 2 ^ 32 % 4 = 0 := by omega
    obtain ⟨same, found⟩ := searchTable_free fs (m.ask (.read fs.fsinfoLba))
      ⟨EOC, 0, if read32 (m.content fs.fsinfoLba) 492 = 0xFFFFFFFF then 2
        else read32 (m.content fs.fsinfoLba) 492,
        (if read32 (m.content fs.fsinfoLba) 492 = 0xFFFFFFFF then 2
        else read32 (m.content fs.fsinfoLba) 492) * 4 % 2 ^ 32⟩ 0 (m.content fs.fsinfoLba)
      (start _) fun zero => absurd (show EOC = 0 from zero) (by decide)
    generalize fs.searchTable _ _ _ _ = result at same found
    obtain ⟨m', answer⟩ := result
    have content : m'.content = m.content := same.content
    cases answer with
    | none => simp only [takeEntry, content]
    | some result =>
      obtain ⟨s, sector, buffer⟩ := result
      rw [takeEntry_keeps (volume.same ((Medium.Same.ask m _).trans same)) (by rwa [content])
        fun zero => ?_, content]
      obtain ⟨free, whole⟩ := found s sector buffer rfl zero
      exact ⟨free, by rw [whole, content]; rfl⟩

/-- The answer of `allocateCluster` when the information sector cannot be read. -/
theorem allocateCluster_unreadable (type : fs.myFatType ≠ .fat16)
    (failed : isError (m.status fs.fsinfoLba)) :
    fs.allocateCluster m = (m.ask (.read fs.fsinfoLba), errorWord cError) := by
  rw [allocateCluster]
  split
  · next fat16 => exact absurd fat16 type
  · simp only [Medium.readSectors_failed failed]

theorem allocateCluster_fat16 (type : fs.myFatType = .fat16) :
    fs.allocateCluster m = (m, 0xFFFF) := by
  rw [allocateCluster, type]

/-- A sector of the table with an entry set. -/
def withEntry (fs : FATFileSystem) (buffer : Memory) (c v : Nat) : Memory :=
  if fs.myFatType = .fat16 then write16 buffer (fatEntOffset (fs.entryAddr c)) (v % 2 ^ 16)
  else write32 buffer (fatEntOffset (fs.entryAddr c)) v

/-- A cluster that has a successor is only looked up. -/
theorem getFATTableEntry_follow (readable : ¬isError (m.status (fs.entrySector c)))
    (more : ¬fs.endOfChain ≤ fs.entry m.content c) (allocate : Bool) :
    fs.getFATTableEntry m c allocate =
      (m.ask (.read (fs.entrySector c)), fs.entry m.content c) := by
  have sector : fs.fatSecNum (fs.entryAddr c) = fs.entrySector c := rfl
  rw [endOfChain, entry] at more
  simp only [getFATTableEntry, sector, Medium.readSectors_passed readable,
    entry]
  by_cases type : fs.myFatType = .fat16
  · simp only [if_pos type] at more ⊢
    rw [if_neg fun both => more both.1]
  · simp only [if_neg type] at more ⊢
    rw [if_neg fun both => more both.1]

/-- An entry that ends a chain is given what the allocation answers. The sector is
written in any case, with the contents before the allocation when it cannot be
read again. -/
theorem getFATTableEntry_extend {m₁ : Medium} {v : Nat}
    (readable : ¬isError (m.status (fs.entrySector c)))
    (ends : fs.endOfChain ≤ fs.entry m.content c)
    (answer : fs.allocateCluster (m.ask (.read (fs.entrySector c))) = (m₁, v)) :
    fs.getFATTableEntry m c true =
      (((m₁.ask (.read (fs.entrySector c))).writeSectors (fs.entrySector c)
          (fs.withEntry (if isError (m₁.status (fs.entrySector c)) then
            m.content (fs.entrySector c) else m₁.content (fs.entrySector c)) c v)).1,
        if isError ((m₁.ask (.read (fs.entrySector c))).status (fs.entrySector c)) then EOC
        else if fs.myFatType = .fat16 then v % 2 ^ 16 else v) := by
  have sector : fs.fatSecNum (fs.entryAddr c) = fs.entrySector c := rfl
  have again : (m₁.readSectors (fs.entrySector c)).2.toOption.getD (m.content (fs.entrySector c)) =
      if isError (m₁.status (fs.entrySector c)) then m.content (fs.entrySector c)
      else m₁.content (fs.entrySector c) := by
    rw [Medium.readSectors]
    split <;> rfl
  simp only [getFATTableEntry, sector, Medium.readSectors_passed readable, answer, again]
  rw [endOfChain, entry] at ends
  by_cases type : fs.myFatType = .fat16
  · rw [if_pos type, if_pos type] at ends
    simp only [type, if_true, withEntry]
    rw [if_pos ⟨ends, trivial⟩]
    rfl
  · rw [if_neg type, if_neg type] at ends
    simp only [type, if_false, withEntry]
    rw [if_pos ⟨ends, trivial⟩]
    rfl

theorem getFATTableEntry_allocate (readable : ¬isError (m.status (fs.entrySector c)))
    (ends : fs.endOfChain ≤ fs.entry m.content c) :
    ∃ m₁ v buffer, fs.allocateCluster (m.ask (.read (fs.entrySector c))) = (m₁, v) ∧
      fs.getFATTableEntry m c true =
        (((m₁.ask (.read (fs.entrySector c))).writeSectors (fs.entrySector c)
            (fs.withEntry buffer c v)).1,
          if isError ((m₁.ask (.read (fs.entrySector c))).status (fs.entrySector c)) then EOC
          else if fs.myFatType = .fat16 then v % 2 ^ 16 else v) := by
  cases answer : fs.allocateCluster (m.ask (.read (fs.entrySector c))) with
  | mk m₁ v => exact ⟨m₁, v, _, rfl, getFATTableEntry_extend readable ends answer⟩

/-- The entry after its sector was written, or not. -/
theorem entry_withEntry {buffer : Memory} {v : Nat} (word : v < 2 ^ 32) :
    fs.entry (m.writeSectors (fs.entrySector c) (fs.withEntry buffer c v)).1.content c =
      if isError (m.status (fs.entrySector c)) then fs.entry m.content c
      else if fs.myFatType = .fat16 then v % 2 ^ 16 else v % 2 ^ 28 := by
  have written : (m.writeSectors (fs.entrySector c) (fs.withEntry buffer c v)).1.content
      (fs.entrySector c) = if isError (m.status (fs.entrySector c)) then
        m.content (fs.entrySector c) else fs.withEntry buffer c v :=
    Medium.writeSectors_content
  by_cases failed : isError (m.status (fs.entrySector c))
  · rw [if_pos failed] at written
    rw [if_pos failed, entry, written]
    rfl
  · rw [if_neg failed] at written
    rw [if_neg failed, entry, written, withEntry]
    by_cases type : fs.myFatType = .fat16
    · simp only [type, if_true]
      exact read16_write16 _ _ (Nat.mod_lt _ (by decide))
    · simp only [type, if_false]
      rw [read32_write32 _ _ word, and_mask]

end FATFileSystem

end Orcos.Source.Fat
