import Orcos.Source.Fat.Allocation
import Orcos.Source.Fat.Release

/-!
# Allocation of a free cluster

Source: src/source/filesystem/fat/FATFileSystem.cc, `allocateCluster`.

The search starts at the hint and does not come back to the entries before it.
Its end is checked sector by sector and against the number of clusters, although
the clusters are numbered from 2 on.
-/
namespace Orcos.Guarantees.ClusterAllocation
open Orcos.Source Orcos.Source.Fat Orcos.Lib.ByteMemory
open Orcos.Source.Fat.FATFileSystem (Found InTableOrInfo)

variable (fs : FATFileSystem) (m : Medium)

/-- The entry of a cluster of the volume is free. -/
def FreeCluster (c : Nat) : Prop :=
  2 ≤ c ∧ c < fs.countOfClusters + 2 ∧ fs.entry m.content c = 0

/-- What an allocation answers and leaves. -/
structure AllocationContract (m' : Medium) (answer : Nat) : Prop where
  free : answer ≠ EOC → FreeCluster fs m answer
  marked : answer ≠ EOC → fs.endOfChain ≤ fs.entry m'.content answer
  others : ∀ c < 128 * fs.fatSz, answer = EOC ∨ c ≠ answer →
    fs.tableWord m'.content c = fs.tableWord m.content c
  count : answer ≠ EOC → fs.freeCount m' + 1 = fs.freeCount m
  noSpace : answer = EOC ↔ ¬∃ c, FreeCluster fs m c
  within : Medium.AsksOnly fs.InTableOrInfo m m'

/-- The hint is unset or a cluster of the volume. -/
def HintInRange : Prop :=
  fs.nxtFree m = 0xFFFFFFFF ∨ 2 ≤ fs.nxtFree m ∧ fs.nxtFree m < fs.countOfClusters + 2

instance : Decidable (HintInRange fs m) := inferInstanceAs (Decidable (_ ∨ _))

/-- The first free entry from the hint on, up to the end of the table sector of
the cluster numbered one less than the clusters, is one of the volume, and the
free count is not zero; or there is none and no cluster is free. -/
def Searchable : Prop :=
  (∃ f, fs.Found m (fs.searchStart m) f ∧ f < fs.countOfClusters + 2 ∧ 0 < fs.freeCount m) ∨
    (¬∃ f, fs.Found m (fs.searchStart m) f) ∧ ¬∃ c, FreeCluster fs m c

variable {fs m} {m' : Medium} {f : Nat}

theorem HintInRange.searchStart (volume : fs.Fat32Volume m) (hint : HintInRange fs m) :
    2 ≤ fs.searchStart m ∧ fs.searchStart m < 2 ^ 28 := by
  have numbers := volume.numbers
  rw [FATFileSystem.searchStart]
  rcases hint with unset | ⟨low, high⟩
  · rw [if_pos unset]
    decide
  · split
    · decide
    · omega

theorem found_lt (volume : fs.Fat32Volume m) {start : Nat} (found : fs.Found m start f) :
    f < 128 * fs.fatSz ∧ f < 2 ^ 30 := by
  have table := volume.table
  have numbers := volume.numbers
  have high := found.high
  have bound : fs.searchEnd = (fs.countOfClusters + 127) / 128 * 128 := rfl
  omega

/-- The table after a cluster was taken; the information sector is not in it. -/
theorem tableWord_takenContent (volume : fs.Fat32Volume m) (content : Nat → Memory) (c : Nat) :
    fs.tableWord (fs.takenContent content f) c =
      if c = f then 0xffffff8 else fs.tableWord content c := by
  have apart := FATFileSystem.fsinfo_not_inTable volume (c / 128)
  have same : fs.tableWord (fs.takenContent content f) c =
      fs.tableWord (fs.setTableWord content f 0xffffff8) c := by
    rw [FATFileSystem.tableWord, FATFileSystem.takenContent, Function.update_of_ne apart.symm]
    rfl
  rw [same]
  split
  · next here => rw [here, FATFileSystem.tableWord_setTableWord (by decide)]
  · next other => rw [FATFileSystem.tableWord_setTableWord_of_ne other]

theorem freeCount_takenContent (content : m'.content = fs.takenContent m.content f) :
    fs.freeCount m' = wordSub (fs.freeCount m) 1 := by
  have word : wordSub (read32 (m.content fs.fsinfoLba) 488) 1 < 2 ^ 32 := Nat.mod_lt _ (by decide)
  rw [FATFileSystem.freeCount, content, FATFileSystem.takenContent, Function.update_self,
    read32_write32_of_apart (by omega), read32_write32 _ _ word]
  rfl

/-- An allocation that takes a cluster of the volume. -/
theorem contract_of_found (volume : fs.Fat32Volume m) {start : Nat}
    (found : fs.Found m start f) (low : 2 ≤ f) (high : f < fs.countOfClusters + 2)
    (some : 0 < fs.freeCount m) (content : m'.content = fs.takenContent m.content f)
    (asked : Medium.AsksOnly fs.InTableOrInfo m m') : AllocationContract fs m m' f := by
  have numbers := volume.numbers
  have word : fs.freeCount m < 2 ^ 32 := read32_lt _ _
  have proper : f ≠ EOC := by
    rw [EOC]
    omega
  have inside := found_lt volume found
  have marked : fs.entry m'.content f = 0xffffff8 := by
    have word : fs.tableWord m'.content f = 0xffffff8 := by
      rw [content, tableWord_takenContent volume, if_pos rfl]
    calc fs.entry m'.content f = fs.tableWord m'.content f % 2 ^ 28 :=
          volume.entry_eq inside.1 inside.2
      _ = 0xffffff8 % 2 ^ 28 := by rw [word]
      _ = 0xffffff8 := by decide
  refine ⟨fun _ => ⟨low, high, found.free⟩, fun _ => ?_, fun c _ other => ?_,
    fun _ => ?_, ?_, asked⟩
  · rw [marked, FATFileSystem.endOfChain, if_neg volume.not_fat16]
  · rw [content, tableWord_takenContent volume, if_neg (other.resolve_left proper)]
  · rw [freeCount_takenContent content, wordSub_eq some word]
    omega
  · exact ⟨fun no => absurd no proper, fun none => absurd ⟨f, low, high, found.free⟩ none⟩

/-- On a FAT32 volume, with the hint unset or in range, the allocation does what
it should exactly when the entries from the hint on suffice. -/
theorem allocateCluster_contract_iff (volume : fs.Fat32Volume m) (reliable : m.Reliable)
    (hint : HintInRange fs m) :
    AllocationContract fs m (fs.allocateCluster m).1 (fs.allocateCluster m).2 ↔
      Searchable fs m := by
  have numbers := volume.numbers
  obtain ⟨low, small⟩ := hint.searchStart volume
  by_cases some : ∃ f, fs.Found m (fs.searchStart m) f
  · obtain ⟨f, found⟩ := some
    obtain ⟨m', content, _, _, asked, result⟩ :=
      FATFileSystem.allocateCluster_found volume reliable (by omega) found
    have above := found.low
    have inside := found_lt volume found
    rw [result]
    constructor
    · intro contract
      have proper : f ≠ EOC := by
        intro here
        -- the entry was taken although the answer says that none was free
        have changed := contract.others f inside.1 (.inl here)
        rw [content, tableWord_takenContent volume, if_pos rfl] at changed
        have free := found.free
        rw [volume.entry_eq inside.1 inside.2, ← changed] at free
        exact absurd free (by decide)
      have count := contract.count proper
      exact .inl ⟨f, found, (contract.free proper).2.1, by omega⟩
    · rintro (⟨f', found', high, positive⟩ | ⟨none, _⟩)
      · obtain rfl := found.unique found'
        exact contract_of_found volume found (by omega) high positive content asked
      · exact absurd ⟨f, found⟩ none
  · obtain ⟨m', same, asked, result⟩ :=
      FATFileSystem.allocateCluster_none volume reliable (by omega) some
    rw [result]
    constructor
    · intro contract
      exact .inr ⟨some, contract.noSpace.mp rfl⟩
    · rintro (⟨f, found, _⟩ | ⟨_, none⟩)
      · exact absurd ⟨f, found⟩ some
      · exact ⟨fun no => absurd rfl no, fun no => absurd rfl no,
          fun c _ _ => by rw [same.content], fun no => absurd rfl no,
          ⟨fun _ => none, fun _ => rfl⟩, asked⟩

/-- A FAT32 volume of 65525 clusters with an empty table of 512 sectors. Its hint
is 65525, its free count 100. -/
def lateHint : Medium where
  content
    | 0, 0 => 0xeb
    | 0, 12 => 2
    | 0, 13 => 1
    | 0, 14 => 32
    | 0, 16 => 1
    | 0, 32 => 0x15
    | 0, 33 => 0x02
    | 0, 34 => 0x01
    | 0, 37 => 2
    | 0, 44 => 2
    | 0, 48 => 1
    | 1, 488 => 100
    | 1, 492 => 0xf5
    | 1, 493 => 0xff
    | _, _ => 0
  sectors := 70000
  outcome _ := cOk
  requests := []

def lateHintFileSystem : FATFileSystem where
  myFatType := .fat32
  myFATBPB := ⟨0xeb, 512, 1, 32, 1, 0, 0, 0, 66069⟩
  myFAT32BPB := ⟨512, 2, 1⟩
  rootDirSectors := 0
  firstDataSector := 544
  dataSec := 65525
  countOfClusters := 65525
  sectorShiftValue := 0

theorem mount_lateHint : (mount 0 lateHint).2 = some lateHintFileSystem := by decide +kernel

theorem volume_lateHint : lateHintFileSystem.Fat32Volume lateHint :=
  ⟨rfl, rfl, by decide, by decide, by decide, by decide, by decide⟩

theorem allocateCluster_contract_iff_lateHint :
    AllocationContract lateHintFileSystem lateHint (lateHintFileSystem.allocateCluster lateHint).1
      (lateHintFileSystem.allocateCluster lateHint).2 ↔ Searchable lateHintFileSystem lateHint :=
  allocateCluster_contract_iff volume_lateHint (fun _ => rfl) (by decide +kernel)

/-- With the hint at the number of clusters no cluster is found, although all
entries are free. -/
theorem free_clusters_not_found :
    ¬∀ memory m fs, (mount memory m).2 = some fs → fs.Fat32Volume m → m.Reliable →
      HintInRange fs m →
        AllocationContract fs m (fs.allocateCluster m).1 (fs.allocateCluster m).2 := by
  intro meets
  have contract := meets 0 lateHint lateHintFileSystem mount_lateHint volume_lateHint (fun _ => rfl)
    (by decide +kernel)
  have none : (lateHintFileSystem.allocateCluster lateHint).2 = EOC := by decide +kernel
  exact contract.noSpace.mp none ⟨2, by decide, by decide, by decide +kernel⟩

end Orcos.Guarantees.ClusterAllocation

/-! ## Release of a cluster chain

Source: src/source/filesystem/fat/FATFileSystem.cc, `freeClusterChain`.

The loop loses no update, whatever way the chain takes through the table. The
hint is set to the first cluster of the chain and not to its smallest one, and
the free count is a word. On a FAT16 volume nothing is freed.
-/
namespace Orcos.Guarantees.ChainRelease
open Orcos.Source Orcos.Source.Fat Orcos.Lib.ByteMemory Orcos.Lib.Successors
open Orcos.Source.Fat.FATFileSystem (TableChain)

variable (fs : FATFileSystem) (m : Medium)

/-- What the release of a chain leaves. -/
structure ReleaseContract (m' : Medium) (cs : List Nat) : Prop where
  freed : ∀ d ∈ cs, fs.entry m'.content d = 0
  others : ∀ d < 128 * fs.fatSz, d ∉ cs → fs.tableWord m'.content d = fs.tableWord m.content d
  elsewhere : ∀ s, ¬fs.InTableOrInfo s → m'.content s = m.content s
  count : fs.freeCount m' = fs.freeCount m + cs.length
  hint : ∀ d ∈ cs, fs.nxtFree m' ≤ d

/-- The volume is a FAT32 volume, no cluster of the chain comes before both its
first one and the hint, and the new free count is a word. -/
structure Releasable (c : Nat) (cs : List Nat) : Prop where
  type : fs.myFatType = .fat32
  first : ∀ d ∈ cs, min c (fs.nxtFree m) ≤ d
  count : fs.freeCount m + (cs.length + 1) < 2 ^ 32

variable {fs m} {c d : Nat} {cs : List Nat}

/-- The table after a chain was freed; the information sector is not in it. -/
theorem tableWord_releasedContent (volume : fs.Fat32Volume m) (content : Nat → Memory) :
    fs.tableWord (fs.releasedContent content c cs) d =
      if d ∈ c :: cs then 0 else fs.tableWord content d := by
  have apart := FATFileSystem.fsinfo_not_inTable volume (d / 128)
  rw [← FATFileSystem.tableWord_freedContent, FATFileSystem.tableWord,
    FATFileSystem.releasedContent, Function.update_of_ne apart.symm]
  rfl

theorem releasedContent_elsewhere (volume : fs.Fat32Volume m) (content : Nat → Memory) {s : Nat}
    (onVolume : ∀ d ∈ c :: cs, 2 ≤ d ∧ d < fs.countOfClusters + 2)
    (apart : ¬fs.InTableOrInfo s) : fs.releasedContent content c cs s = content s := by
  have table := volume.table
  obtain ⟨notTable, notInfo⟩ := not_or.mp apart
  rw [FATFileSystem.releasedContent, Function.update_of_ne notInfo]
  apply FATFileSystem.freedContent_elsewhere _ notTable
  intro d member
  have := (onVolume d member).2
  omega

/-- The information sector after a chain was freed. -/
theorem freeCount_releasedContent {m' : Medium}
    (content : m'.content = fs.releasedContent m.content c cs) :
    fs.freeCount m' = wordAdd (fs.freeCount m) (cs.length + 1) := by
  have word : wordAdd (read32 (m.content fs.fsinfoLba) 488) (cs.length + 1) < 2 ^ 32 :=
    Nat.mod_lt _ (by decide)
  rw [FATFileSystem.freeCount, content, FATFileSystem.releasedContent, Function.update_self]
  split
  · rw [read32_write32_of_apart (by omega), read32_write32 _ _ word]
    rfl
  · rw [read32_write32 _ _ word]
    rfl

theorem nxtFree_releasedContent {m' : Medium} (word : c < 2 ^ 32)
    (content : m'.content = fs.releasedContent m.content c cs) :
    fs.nxtFree m' = min c (fs.nxtFree m) := by
  have before : read32 (write32 (m.content fs.fsinfoLba) 488
      (wordAdd (read32 (m.content fs.fsinfoLba) 488) (cs.length + 1))) 492 = fs.nxtFree m :=
    read32_write32_of_apart (by omega)
  rw [FATFileSystem.nxtFree, content, FATFileSystem.releasedContent, Function.update_self]
  simp only [before]
  split
  · next below => rw [read32_write32 _ _ word, Nat.min_eq_left (Nat.le_of_lt below)]
  · next above => rw [before, Nat.min_eq_right (Nat.le_of_not_lt above)]

/-- The entries of a chain are not free. -/
theorem entry_ne_zero (chain : fs.TableChain m.content (c :: cs)) :
    fs.entry m.content c ≠ 0 := by
  intro zero
  have goes : ¬fs.endOfChain ≤ 0 := by
    rw [FATFileSystem.endOfChain]
    split <;> decide
  have next : fs.successor m.content c = some 0 := by
    rw [FATFileSystem.successor, zero, if_neg goes]
  have linked := chain.linked
  cases cs with
  | nil =>
    rw [linked.1] at next
    cases next
  | cons d cs =>
    rw [linked.1] at next
    cases next
    exact absurd (chain.onVolume 0 (by simp)).1 (by decide)

theorem contract_of_released (volume : fs.Fat32Volume m) {m' : Medium}
    (chain : fs.TableChain m.content (c :: cs))
    (content : m'.content = fs.releasedContent m.content c cs) :
    ReleaseContract fs m m' (c :: cs) ↔ Releasable fs m c cs := by
  have numbers := volume.numbers
  have table := volume.table
  have word : c < 2 ^ 32 := by
    have := (chain.onVolume c (by simp)).2
    omega
  have count := freeCount_releasedContent content
  have hint := nxtFree_releasedContent word content
  constructor
  · intro contract
    refine ⟨volume.type, fun d member => ?_, ?_⟩
    · rw [← hint]
      exact contract.hint d (by simp [member])
    · have exact_ := contract.count
      rw [count, List.length_cons] at exact_
      rw [← exact_]
      exact Nat.mod_lt _ (by decide)
  · intro releasable
    refine ⟨fun d member => ?_, fun d _ other => ?_, fun s apart => ?_, ?_, fun d member => ?_⟩
    · have := (chain.onVolume d member).2
      have word : fs.tableWord m'.content d = 0 := by
        rw [content, tableWord_releasedContent volume, if_pos member]
      rw [volume.entry_eq (by omega) (by omega), word, Nat.zero_mod]
    · rw [content, tableWord_releasedContent volume, if_neg other]
    · rw [content, releasedContent_elsewhere volume _ chain.onVolume apart]
    · rw [count, wordAdd_eq releasable.count, List.length_cons]
    · rw [hint]
      rcases List.mem_cons.mp member with rfl | later
      · exact Nat.min_le_left _ _
      · exact releasable.first d later

/-- The release of a chain that ends does what it should exactly on a FAT32
volume where no cluster of the chain comes before both its first one and the
hint, and the free count does not wrap. -/
theorem freeClusterChain_contract_iff (volume : fs.myFatType = .fat16 ∨ fs.Fat32Volume m)
    (reliable : m.Reliable) (chain : fs.TableChain m.content (c :: cs)) {rounds : Nat}
    (enough : cs.length < rounds) :
    ∃ m' success, fs.freeClusterChain rounds m c = some (m', success) ∧
      (ReleaseContract fs m m' (c :: cs) ↔ Releasable fs m c cs) := by
  rcases volume with fat16 | volume
  · refine ⟨m, false, ?_, ?_⟩
    · rw [FATFileSystem.freeClusterChain, fat16]
    · constructor
      · intro contract
        exact absurd (contract.freed c (by simp)) (entry_ne_zero chain)
      · intro releasable
        have type := releasable.type
        rw [fat16] at type
        cases type
  · obtain ⟨m', result, content, _⟩ :=
      FATFileSystem.freeClusterChain_spec volume reliable chain enough
    exact ⟨m', true, result, contract_of_released volume chain content⟩

/-- A FAT32 volume of 65525 clusters. The chain 5, 3 is the only one and the hint
is 10. -/
def fallingChain : Medium where
  content
    | 0, 0 => 0xeb
    | 0, 12 => 2
    | 0, 13 => 1
    | 0, 14 => 32
    | 0, 16 => 1
    | 0, 32 => 0x15
    | 0, 33 => 0x02
    | 0, 34 => 0x01
    | 0, 37 => 2
    | 0, 44 => 2
    | 0, 48 => 1
    | 1, 488 => 100
    | 1, 492 => 10
    | 32, 12 => 0xf8
    | 32, 13 => 0xff
    | 32, 14 => 0xff
    | 32, 15 => 0x0f
    | 32, 20 => 3
    | _, _ => 0
  sectors := 70000
  outcome _ := cOk
  requests := []

def fallingChainFileSystem : FATFileSystem where
  myFatType := .fat32
  myFATBPB := ⟨0xeb, 512, 1, 32, 1, 0, 0, 0, 66069⟩
  myFAT32BPB := ⟨512, 2, 1⟩
  rootDirSectors := 0
  firstDataSector := 544
  dataSec := 65525
  countOfClusters := 65525
  sectorShiftValue := 0

theorem mount_fallingChain : (mount 0 fallingChain).2 = some fallingChainFileSystem := by
  decide +kernel

theorem volume_fallingChain : fallingChainFileSystem.Fat32Volume fallingChain :=
  ⟨rfl, rfl, by decide, by decide, by decide, by decide, by decide⟩

theorem chain_fallingChain : fallingChainFileSystem.TableChain fallingChain.content [5, 3] :=
  ⟨by decide, by decide +kernel⟩

theorem freeClusterChain_contract_iff_fallingChain :
    ∃ m' success, fallingChainFileSystem.freeClusterChain 2 fallingChain 5 = some (m', success) ∧
      (ReleaseContract fallingChainFileSystem fallingChain m' [5, 3] ↔
        Releasable fallingChainFileSystem fallingChain 5 [3]) :=
  freeClusterChain_contract_iff (.inr volume_fallingChain) (fun _ => rfl) chain_fallingChain
    (by decide)

/-- After the chain 5, 3 was freed the hint is 5. -/
theorem hint_above_freed_cluster :
    ¬∀ memory m fs, (mount memory m).2 = some fs → fs.Fat32Volume m → m.Reliable →
      ∀ c cs, fs.TableChain m.content (c :: cs) → ∀ rounds, cs.length < rounds →
        ∃ m' success, fs.freeClusterChain rounds m c = some (m', success) ∧
          ReleaseContract fs m m' (c :: cs) := by
  intro meets
  obtain ⟨m', success, result, contract⟩ := meets 0 fallingChain fallingChainFileSystem
    mount_fallingChain volume_fallingChain (fun _ => rfl) 5 [3] chain_fallingChain 2 (by decide)
  have hint : ((fallingChainFileSystem.freeClusterChain 2 fallingChain 5).map fun answer =>
      fallingChainFileSystem.nxtFree answer.1) = some 5 := by decide +kernel
  simp only [result, Option.map_some, Option.some.injEq] at hint
  have low := contract.hint 3 (by simp)
  omega

end Orcos.Guarantees.ChainRelease
