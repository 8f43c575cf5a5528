import Orcos.Source.Fat.Allocation
import Mathlib.Data.List.Perm.Subperm

/-!
# Release of a cluster chain on a FAT32 volume

The loop of `freeClusterChain` changes the entries of one table sector in a
buffer and writes it back when the chain leads to another sector. The medium
with the buffer in place of the current sector is the table as it is to be.
-/
namespace Orcos.Source.Fat.FATFileSystem
open Lib.ByteMemory Lib.Loop Lib.Successors

variable (fs : FATFileSystem)

/-- The contents after the entries of some clusters were set to free. -/
def freedContent (content : Nat → Memory) (cs : List Nat) : Nat → Memory :=
  cs.foldl (fun content c => fs.setTableWord content c 0) content

/-- The contents after a chain was freed, the information sector included. -/
def releasedContent (content : Nat → Memory) (c : Nat) (cs : List Nat) : Nat → Memory :=
  let fsinfo := content fs.fsinfoLba
  let fsinfo := write32 fsinfo 488 (wordAdd (read32 fsinfo 488) (cs.length + 1))
  Function.update (fs.freedContent content (c :: cs)) fs.fsinfoLba
    (if c < read32 fsinfo 492 then write32 fsinfo 492 c else fsinfo)

/-- The clusters of a chain on a volume, in their order. A chain that ends has no
cycle. -/
structure TableChain (content : Nat → Memory) (cs : List Nat) : Prop where
  onVolume : ∀ c ∈ cs, 2 ≤ c ∧ c < fs.countOfClusters + 2
  linked : Linked (fs.successor content) cs

/-- The contents of the medium, with the buffer in place of the current sector. -/
def Release.pending (s : Release) : Nat → Memory :=
  Function.update s.medium.content s.fatsecnum s.buffer

/-- The loop is about to free the entry of a cluster. -/
structure AtCluster (m : Medium) (content : Nat → Memory) (count c : Nat) (s : Release) : Prop where
  value : s.fatEntryValue ≠ 0x0ffffff8
  offset : s.fatentoffset = c % 128 * 4
  sector : s.fatsecnum = fs.myFATBPB.rsvdSecCnt + c / 128
  pending : s.pending = content
  sectors : s.medium.sectors = m.sectors
  outcome : s.medium.outcome = m.outcome
  count : s.freeCount = count

/-- The loop has ended with these contents still to be written back. -/
structure Released (m : Medium) (content : Nat → Memory) (count : Nat) (s : Release) : Prop where
  sector : fs.InTable s.fatsecnum
  pending : s.pending = content
  sectors : s.medium.sectors = m.sectors
  outcome : s.medium.outcome = m.outcome
  count : s.freeCount = count

variable {fs} {m : Medium} {content : Nat → Memory} {cs : List Nat} {c d : Nat}

theorem tableWord_freedContent (content : Nat → Memory) (cs : List Nat) (d : Nat) :
    fs.tableWord (fs.freedContent content cs) d =
      if d ∈ cs then 0 else fs.tableWord content d := by
  induction cs generalizing content with
  | nil => rfl
  | cons c cs ih =>
    rw [freedContent, List.foldl_cons, ← freedContent, ih]
    by_cases later : d ∈ cs
    · rw [if_pos later, if_pos (List.mem_cons_of_mem _ later)]
    · rw [if_neg later]
      by_cases here : d = c
      · rw [if_pos (by simp [here]), here, tableWord_setTableWord (by decide)]
      · rw [if_neg (by simp [here, later]), tableWord_setTableWord_of_ne here]

theorem freedContent_elsewhere {s : Nat} (table : ∀ c ∈ cs, c < 128 * fs.fatSz)
    (apart : ¬fs.InTable s) : fs.freedContent content cs s = content s := by
  induction cs generalizing content with
  | nil => rfl
  | cons c cs ih =>
    have inside := inTable (table c (by simp))
    rw [freedContent, List.foldl_cons, ← freedContent,
      ih fun d member => table d (by simp [member])]
    exact setTableWord_elsewhere fun same => apart (by rw [same]; exact inside)

namespace AtCluster

variable {count : Nat} {s : Release} (at_ : fs.AtCluster m content count c s)

include at_

theorem buffer_eq : s.buffer = content s.fatsecnum := by
  rw [← at_.pending, Release.pending, Function.update_self]

/-- The entry the body of the loop reads. -/
theorem value_eq (volume : fs.Fat32Volume m) (inside : c < fs.countOfClusters + 2) :
    read32 s.buffer s.fatentoffset &&& 0x0FFFFFFF = fs.entry content c := by
  have table := volume.table
  have numbers := volume.numbers
  rw [volume.entry_eq (by omega) (by omega), and_mask, at_.buffer_eq, at_.offset, at_.sector]
  rfl

/-- The buffer without the entry. -/
theorem pending_cleared : Function.update s.medium.content s.fatsecnum
    (write32 s.buffer s.fatentoffset 0) = fs.setTableWord content c 0 := by
  rw [setTableWord, ← at_.sector, ← at_.offset, ← at_.buffer_eq, ← at_.pending, Release.pending,
    Function.update_idem]

theorem enters (volume : fs.Fat32Volume m) :
    s.fatEntryValue ≠ 0x0ffffff8 ∧ s.fatentoffset < fs.myFATBPB.bytsPerSec := by
  refine ⟨at_.value, ?_⟩
  rw [at_.offset, volume.bytes]
  omega

/-- The last entry of the chain is freed in the buffer. -/
theorem releaseEntry_last (volume : fs.Fat32Volume m) (inside : c < fs.countOfClusters + 2)
    (small : count + 1 < 2 ^ 32) (ends : fs.endOfChain ≤ fs.entry content c) :
    ∃ s', fs.releaseEntry s = .done s' ∧
      fs.Released m (fs.setTableWord content c 0) (count + 1) s' := by
  have table := volume.table
  rw [endOfChain, if_neg volume.not_fat16] at ends
  refine ⟨{ s with
    fatEntryValue := fs.entry content c
    buffer := write32 s.buffer s.fatentoffset 0
    freeCount := wordAdd s.freeCount 1 }, ?_, ?_⟩
  · rw [releaseEntry, if_pos (at_.enters volume)]
    simp only [at_.value_eq volume inside, if_neg (show fs.entry content c ≠ 0 by omega),
      if_pos ends]
  · exact ⟨by rw [at_.sector]; exact inTable (by omega), at_.pending_cleared, at_.sectors,
      at_.outcome,
      by rw [at_.count, wordAdd_eq small]⟩

/-- An entry that leads on is freed in the buffer, and the next one is made ready. -/
theorem releaseEntry_next (volume : fs.Fat32Volume m) (reliable : m.Reliable)
    (inside : c < fs.countOfClusters + 2) (small : count + 1 < 2 ^ 32)
    (leads : fs.entry content c = d) (onVolume : 2 ≤ d ∧ d < fs.countOfClusters + 2) :
    ∃ s', fs.releaseEntry s = .again s' ∧
      fs.AtCluster m (fs.setTableWord content c 0) (count + 1) d s' := by
  have table := volume.table
  have numbers := volume.numbers
  obtain ⟨two, high⟩ := onVolume
  have address : d * 4 % 2 ^ 32 = d * 4 := Nat.mod_eq_of_lt (by omega)
  have sector : fs.fatSecNum (d * 4) = fs.myFATBPB.rsvdSecCnt + d / 128 :=
    volume.fatSecNum_eq (by omega)
  have counted : wordAdd s.freeCount 1 = count + 1 := by rw [at_.count, wordAdd_eq small]
  by_cases other : fs.myFATBPB.rsvdSecCnt + d / 128 ≠ s.fatsecnum
  · -- the sector is written back and the next one read
    have reliable' : s.medium.Reliable := fun n => by rw [at_.outcome, reliable]
    have inRange (k : Nat) (low : k < fs.fatSz) :
        s.medium.InRange (fs.myFATBPB.rsvdSecCnt + k) := by
      have same := volume.inRange (s := fs.myFATBPB.rsvdSecCnt + k) (by omega)
      rw [Medium.InRange, at_.sectors]
      exact same
    have current : s.medium.InRange s.fatsecnum := by
      rw [at_.sector]
      exact inRange (c / 128) (by omega)
    obtain ⟨m₁, wrote, written⟩ := Medium.writeSectors_ok reliable' current
      (write32 s.buffer s.fatentoffset 0)
    have read := Medium.readSectors_ok (wrote.reliable reliable')
      (wrote.inRange.mpr (inRange (d / 128) (by omega)))
    have cleared : m₁.content = fs.setTableWord content c 0 :=
      wrote.content.trans at_.pending_cleared
    refine ⟨{ s with
      medium := m₁.ask (.read (fs.myFATBPB.rsvdSecCnt + d / 128))
      buffer := m₁.content (fs.myFATBPB.rsvdSecCnt + d / 128)
      fatEntryValue := d
      fatEntryAddr := d * 4
      fatentoffset := d % 128 * 4
      fatsecnum := fs.myFATBPB.rsvdSecCnt + d / 128
      freeCount := wordAdd s.freeCount 1 }, ?_, ?_⟩
    · rw [releaseEntry, if_pos (at_.enters volume)]
      simp only [at_.value_eq volume inside, leads, if_neg (show d ≠ 0 by omega),
        if_neg (show ¬0xffffff8 ≤ d by omega), address, sector, if_pos other, written, read,
        fatEntOffset_eq]
      rfl
    · refine ⟨by show d ≠ 0x0ffffff8; omega, rfl, rfl, ?_, ?_, ?_, counted⟩
      · rw [Release.pending, Medium.ask_content, Function.update_eq_self, cleared]
      · rw [Medium.ask_sectors, wrote.sectors, at_.sectors]
      · rw [Medium.ask_outcome, wrote.outcome, at_.outcome]
  · have here : fs.myFATBPB.rsvdSecCnt + d / 128 = s.fatsecnum := Decidable.not_not.mp other
    refine ⟨{ s with
      buffer := write32 s.buffer s.fatentoffset 0
      fatEntryValue := d
      fatEntryAddr := d * 4
      fatentoffset := d % 128 * 4
      freeCount := wordAdd s.freeCount 1 }, ?_, ?_⟩
    · rw [releaseEntry, if_pos (at_.enters volume)]
      simp only [at_.value_eq volume inside, leads, if_neg (show d ≠ 0 by omega),
        if_neg (show ¬0xffffff8 ≤ d by omega), address, sector, if_neg other, fatEntOffset_eq]
    · exact ⟨by show d ≠ 0x0ffffff8; omega, rfl, here.symm, at_.pending_cleared, at_.sectors,
        at_.outcome, counted⟩

end AtCluster

theorem successor_setTableWord_of_ne (volume : fs.Fat32Volume m) {v : Nat}
    (inside : d < fs.countOfClusters + 2) (other : d ≠ c) :
    fs.successor (fs.setTableWord content c v) d = fs.successor content d := by
  have table := volume.table
  have numbers := volume.numbers
  have same : fs.entry (fs.setTableWord content c v) d = fs.entry content d := by
    rw [volume.entry_eq (by omega) (by omega), volume.entry_eq (by omega) (by omega),
      tableWord_setTableWord_of_ne other]
  rw [successor, successor, same]

theorem endOfChain_le_of_successor (last : fs.successor content c = none) :
    fs.endOfChain ≤ fs.entry content c := by
  by_contra more
  rw [successor, if_neg more] at last
  cases last

theorem entry_of_successor (next : fs.successor content c = some d) : fs.entry content c = d := by
  rw [successor] at next
  split at next
  · cases next
  · exact Option.some.inj next

/-- The rest of a chain is untouched by the release of its first cluster. -/
theorem TableChain.rest (volume : fs.Fat32Volume m) {v : Nat}
    (chain : fs.TableChain content (c :: cs)) :
    fs.TableChain (fs.setTableWord content c v) cs := by
  have fresh := (List.nodup_cons.mp chain.linked.nodup).1
  refine ⟨fun d member => chain.onVolume d (by simp [member]), ?_⟩
  refine chain.linked.tail.congr fun d member => ?_
  refine successor_setTableWord_of_ne volume (chain.onVolume d (by simp [member])).2 ?_
  rintro rfl
  exact fresh member

theorem TableChain.length_le (chain : fs.TableChain content cs) :
    cs.length ≤ fs.countOfClusters + 2 := by
  have below : cs ⊆ List.range (fs.countOfClusters + 2) := fun c member =>
    List.mem_range.mpr (chain.onVolume c member).2
  simpa using (List.subperm_of_subset chain.linked.nodup below).length_le

/-- The loop frees the clusters of a chain one after the other. -/
theorem loop_releaseEntry (volume : fs.Fat32Volume m) (reliable : m.Reliable) {count : Nat}
    {s : Release} (chain : fs.TableChain content (c :: cs))
    (small : count + cs.length + 1 < 2 ^ 32) (at_ : fs.AtCluster m content count c s) :
    ∃ s', loop fs.releaseEntry (cs.length + 1) s = some s' ∧
      fs.Released m (fs.freedContent content (c :: cs)) (count + cs.length + 1) s' := by
  induction cs generalizing c content count s with
  | nil =>
    have ends := endOfChain_le_of_successor chain.linked.1
    obtain ⟨s', step, released⟩ :=
      at_.releaseEntry_last volume (chain.onVolume c (by simp)).2 small ends
    exact ⟨s', loop_done step, released⟩
  | cons d cs ih =>
    have leads := entry_of_successor chain.linked.1
    rw [List.length_cons] at small
    obtain ⟨s₁, step, next⟩ := at_.releaseEntry_next volume reliable
      (chain.onVolume c (by simp)).2 (by omega) leads (chain.onVolume d (by simp))
    obtain ⟨s', ended, released⟩ := ih (chain.rest volume) (by omega) next
    refine ⟨s', (loop_again step).trans ended, ?_⟩
    rw [List.length_cons, ← Nat.add_assoc, Nat.add_right_comm count]
    exact released

/-- A chain is freed as it is. -/
theorem freeClusterChain_spec (volume : fs.Fat32Volume m) (reliable : m.Reliable)
    (chain : fs.TableChain m.content (c :: cs)) {rounds : Nat} (enough : cs.length < rounds) :
    ∃ m', fs.freeClusterChain rounds m c = some (m', true) ∧
      m'.content = fs.releasedContent m.content c cs ∧ m'.sectors = m.sectors ∧
      m'.outcome = m.outcome := by
  obtain ⟨two, high⟩ := chain.onVolume c (by simp)
  have table := volume.table
  have numbers := volume.numbers
  have info := volume.info
  have length := chain.length_le
  rw [List.length_cons] at length
  have address : c * 4 % 2 ^ 32 = c * 4 := Nat.mod_eq_of_lt (by omega)
  have sector : fs.fatSecNum (c * 4) = fs.myFATBPB.rsvdSecCnt + c / 128 :=
    volume.fatSecNum_eq (by omega)
  have read := Medium.readSectors_ok reliable
    (volume.inRange (s := fs.myFATBPB.rsvdSecCnt + c / 128) (by omega))
  have start : fs.AtCluster m m.content 0 c
      ⟨m.ask (.read (fs.myFATBPB.rsvdSecCnt + c / 128)),
        m.content (fs.myFATBPB.rsvdSecCnt + c / 128), 0, c * 4, c % 128 * 4,
        fs.myFATBPB.rsvdSecCnt + c / 128, 0⟩ :=
    ⟨show (0 : Nat) ≠ 0x0ffffff8 by decide, rfl, rfl, Function.update_eq_self _ _, rfl, rfl, rfl⟩
  obtain ⟨s, ended, released⟩ := loop_releaseEntry volume reliable chain (by omega) start
  rw [Nat.zero_add] at released
  -- the last sector is written back
  have reliable' : s.medium.Reliable := fun n => by rw [released.outcome, reliable]
  have inRange (k : Nat) (below : k < fs.myFATBPB.rsvdSecCnt + fs.fatSz) : s.medium.InRange k := by
    have same := volume.inRange below
    rw [Medium.InRange, released.sectors]
    exact same
  obtain ⟨m₁, wrote, written⟩ := Medium.writeSectors_ok reliable'
    (inRange s.fatsecnum released.sector.2) s.buffer
  have content : m₁.content = fs.freedContent m.content (c :: cs) :=
    wrote.content.trans released.pending
  have untouched : m₁.content fs.fsinfoLba = m.content fs.fsinfoLba := by
    rw [content]
    refine freedContent_elsewhere (fun d member => ?_) fun inside => by have := inside.1; omega
    have := (chain.onVolume d member).2
    omega
  -- the information sector
  have lba := wrote.inRange.mpr (inRange fs.fsinfoLba (by omega))
  have readInfo := Medium.readSectors_ok (wrote.reliable reliable') lba
  obtain ⟨m₂, wrote₂, written₂⟩ := Medium.writeSectors_ok (m := m₁.ask (.read fs.fsinfoLba))
    (wrote.reliable reliable') lba (fs.releasedContent m.content c cs fs.fsinfoLba)
  refine ⟨m₂, ?_, ?_, ?_, ?_⟩
  · have rest : fs.releaseFsInfo { s with medium := m₁ } c = (m₂, true) := by
      rw [releasedContent, Function.update_self] at written₂
      simp only [releaseFsInfo, readInfo, untouched, Except.toOption, Option.getD_some,
        released.count, written₂]
      rfl
    rw [freeClusterChain, volume.type]
    simp only [address, sector, read, fatEntOffset_eq, loop_mono ended enough, Option.map_some,
      written, rest]
  · rw [wrote₂.content, Medium.ask_content, content, releasedContent, Function.update_self]
  · rw [wrote₂.sectors, Medium.ask_sectors, wrote.sectors, released.sectors]
  · rw [wrote₂.outcome, Medium.ask_outcome, wrote.outcome, released.outcome]

end Orcos.Source.Fat.FATFileSystem
