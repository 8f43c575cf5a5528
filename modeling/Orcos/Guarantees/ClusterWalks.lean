import Orcos.Source.Fat.Table
import Mathlib.Data.List.Chain

/-!
# The sectors of a cluster chain

Source: src/source/filesystem/fat/FATFileSystem.cc, `getNextSector`, called as
the directories and files call it: with the cluster the sector lies in.

Whether a sector is the last one of its cluster is decided by its absolute
number. That is right when the data area starts at a multiple of the cluster
size. The root directory of a FAT16 volume is followed as if it was made of
clusters.
-/
namespace Orcos.Guarantees.ClusterWalks
open Orcos.Source Orcos.Source.Fat Orcos.Lib.Successors

variable (fs : FATFileSystem)

/-- At most so many sectors, from one in a given cluster on up to the end of
the chain. -/
def sectorWalk : Nat → Medium → Nat → Nat → List Nat
  | 0, _, _, _ => []
  | n + 1, m, sector, cluster =>
    let (m, next) := fs.getNextSector m sector cluster false
    sector :: if next = EOC then [] else sectorWalk n m next (fs.sectorToCluster next)

/-- The sectors of the clusters of a chain. -/
def chainSectors (cs : List Nat) : List Nat := cs.flatMap fs.clusterSectors

/-- The walk from the first sector of a cluster visits these sectors, and then
reports the end of the chain. -/
def ChainVisited (m : Medium) (c : Nat) (cs : List Nat) : Prop :=
  sectorWalk fs ((chainSectors fs (c :: cs)).length + 1) m (fs.clusterToSector c) c =
    chainSectors fs (c :: cs)

/-- The walk from the first sector of the root directory of a FAT16 volume visits
its sectors, and then reports the end of the chain. -/
def RootVisited (m : Medium) : Prop :=
  sectorWalk fs (fs.rootDirSectors + 1) m fs.firstRootDirSecNum 0 =
    List.range' fs.firstRootDirSecNum fs.rootDirSectors

/-- The cluster a sector of the root directory is taken to lie in. -/
def rootCluster (sector : Nat) : Nat :=
  if sector = fs.firstRootDirSecNum then 0 else fs.sectorToCluster sector

/-- The root directory ends where a cluster would, and the table has an end of
chain for it there; for every other place in it where a cluster would end the
table happens to lead on to the next sector. -/
structure RootAligned (m : Medium) : Prop where
  sectors : 0 < fs.rootDirSectors
  boundary : 2 ^ fs.sectorShiftValue ∣ fs.firstRootDirSecNum + fs.rootDirSectors
  ends : fs.onward m (rootCluster fs (fs.firstRootDirSecNum + fs.rootDirSectors - 1)) = EOC
  leads : ∀ i, i + 1 < fs.rootDirSectors → 2 ^ fs.sectorShiftValue ∣ fs.firstRootDirSecNum + i + 1 →
    fs.onward m (rootCluster fs (fs.firstRootDirSecNum + i)) = fs.firstRootDirSecNum + i + 1

/-- The numbers of sectors for a cluster that the constructor has a case for. -/
def Supported (secPerClus : Nat) : Prop := secPerClus ∈ [1, 2, 4, 8, 16, 32, 64, 128]

instance (n : Nat) : Decidable (Supported n) := inferInstanceAs (Decidable (_ ∈ _))

/-- The file system with the shift value that the constructor leaves when the
memory held this before. -/
def overMemory (memory : Nat) : FATFileSystem :=
  { fs with sectorShiftValue := fs.myFATBPB.sectorShiftValue memory }

section Walk

variable {fs} {m m' : Medium} {n s c : Nat}

theorem sectorWalk_same (reliable : m.Reliable) (same : m.Same m') :
    sectorWalk fs n m' s c = sectorWalk fs n m s c := by
  induction n generalizing m m' s c with
  | zero => rfl
  | succ n ih =>
    obtain ⟨next, answer⟩ := fs.getNextSector_read (s := s) (c := c) reliable
    obtain ⟨next', answer'⟩ := fs.getNextSector_read (s := s) (c := c) (same.reliable reliable)
    simp only [sectorWalk, answer, answer', FATFileSystem.nextSector_same same]
    rw [ih reliable next, ih reliable (same.trans next')]

theorem sectorWalk_succ (reliable : m.Reliable) : sectorWalk fs (n + 1) m s c =
    s :: if fs.nextSector m s c = EOC then []
      else sectorWalk fs n m (fs.nextSector m s c) (fs.sectorToCluster (fs.nextSector m s c)) := by
  obtain ⟨next, answer⟩ := fs.getNextSector_read (s := s) (c := c) reliable
  simp only [sectorWalk, answer]
  rw [sectorWalk_same reliable next]

/-- The walk ends at the number that reports the end of the chain. -/
theorem ne_EOC_of_mem_tail (reliable : m.Reliable) :
    ∀ x ∈ (sectorWalk fs n m s c).tail, x ≠ EOC := by
  induction n generalizing s c with
  | zero => simp [sectorWalk]
  | succ n ih =>
    rw [sectorWalk_succ reliable, List.tail_cons]
    split
    · simp
    · next goes =>
      cases n with
      | zero => simp [sectorWalk]
      | succ n =>
        have rest := ih (s := fs.nextSector m s c)
          (c := fs.sectorToCluster (fs.nextSector m s c))
        rw [sectorWalk_succ reliable, List.tail_cons] at rest
        rw [sectorWalk_succ reliable]
        intro x member
        rcases List.mem_cons.mp member with rfl | later
        · exact goes
        · exact rest x later

/-- A walk over consecutive sectors, step by step. -/
theorem sectorWalk_range_iff (reliable : m.Reliable) {k : Nat} (below : s + k < EOC) :
    sectorWalk fs (k + 2) m s c = List.range' s (k + 1) ↔
      (∀ i < k, fs.nextSector m (s + i) (if i = 0 then c else fs.sectorToCluster (s + i)) =
          s + i + 1) ∧
        fs.nextSector m (s + k) (if k = 0 then c else fs.sectorToCluster (s + k)) = EOC := by
  induction k generalizing s c with
  | zero =>
    rw [sectorWalk_succ reliable]
    by_cases ends : fs.nextSector m s c = EOC
    · simp [ends]
    · simp [ends, sectorWalk_succ reliable]
  | succ k ih =>
    rw [sectorWalk_succ reliable, List.range'_succ, List.cons.injEq]
    have onward : (if fs.nextSector m s c = EOC then []
        else sectorWalk fs (k + 2) m (fs.nextSector m s c)
          (fs.sectorToCluster (fs.nextSector m s c))) = List.range' (s + 1) (k + 1) ↔
        fs.nextSector m s c = s + 1 ∧
          sectorWalk fs (k + 2) m (s + 1) (fs.sectorToCluster (s + 1)) =
            List.range' (s + 1) (k + 1) := by
      constructor
      · intro equal
        split at equal
        · simp [List.range'_succ] at equal
        · have first := congrArg List.head? equal
          rw [sectorWalk_succ reliable, List.range'_succ, List.head?_cons, List.head?_cons,
            Option.some.injEq] at first
          rw [first] at equal
          exact ⟨first, equal⟩
      · rintro ⟨first, equal⟩
        rw [first, if_neg (by omega)]
        exact equal
    have shift (i : Nat) : s + 1 + i = s + (i + 1) := by omega
    have cluster (i : Nat) : (if i = 0 then fs.sectorToCluster (s + 1)
        else fs.sectorToCluster (s + (i + 1))) = fs.sectorToCluster (s + (i + 1)) := by
      split
      · next zero => rw [zero]
      · rfl
    rw [onward, ih (by omega)]
    simp only [shift, cluster, true_and, Nat.add_eq_zero_iff, Nat.one_ne_zero, and_false, if_false]
    constructor
    · rintro ⟨first, between, last⟩
      refine ⟨fun i below => ?_, last⟩
      cases i with
      | zero => exact first
      | succ i =>
        rw [if_neg (Nat.succ_ne_zero i)]
        exact between i (by omega)
    · rintro ⟨all, last⟩
      refine ⟨by simpa using all 0 (by omega), fun i below => ?_, last⟩
      have := all (i + 1) (by omega)
      rwa [if_neg (Nat.succ_ne_zero i)] at this

/-- On a FAT16 volume the walk over the root directory visits its sectors exactly
when the directory lies as its own clusters would. -/
theorem rootVisited_iff (reliable : m.Reliable)
    (below : fs.firstRootDirSecNum + fs.rootDirSectors < EOC) :
    RootVisited fs m ↔ RootAligned fs m := by
  have word : EOC < 2 ^ 32 := by decide
  have cluster (i : Nat) : rootCluster fs (fs.firstRootDirSecNum + i) =
      if i = 0 then 0 else fs.sectorToCluster (fs.firstRootDirSecNum + i) := by
    simp [rootCluster]
  -- what follows a sector of the directory
  have next (i : Nat) (inside : i < fs.rootDirSectors) :
      fs.nextSector m (fs.firstRootDirSecNum + i) (rootCluster fs (fs.firstRootDirSecNum + i)) =
        if 2 ^ fs.sectorShiftValue ∣ fs.firstRootDirSecNum + i + 1 then
          fs.onward m (rootCluster fs (fs.firstRootDirSecNum + i))
        else fs.firstRootDirSecNum + i + 1 := by
    split
    · next divides => exact FATFileSystem.nextSector_boundary (by omega) divides
    · next not => exact FATFileSystem.nextSector_inside (by omega) not
  cases total : fs.rootDirSectors with
  | zero =>
    constructor
    · intro visited
      rw [RootVisited, total, sectorWalk_succ reliable] at visited
      cases visited
    · intro aligned
      have := aligned.sectors
      omega
  | succ k =>
    rw [RootVisited, total, sectorWalk_range_iff reliable (by omega)]
    simp only [← cluster]
    rw [next k (by omega)]
    constructor
    · rintro ⟨between, last⟩
      have boundary : 2 ^ fs.sectorShiftValue ∣ fs.firstRootDirSecNum + k + 1 := by
        by_contra not
        rw [if_neg not] at last
        omega
      rw [if_pos boundary] at last
      refine ⟨by omega, by rwa [total], ?_, fun i inside divides => ?_⟩
      · rw [total]
        exact last
      · have step := between i (by omega)
        rwa [next i (by omega), if_pos divides] at step
    · intro aligned
      have boundary := aligned.boundary
      have ends := aligned.ends
      rw [total] at boundary ends
      refine ⟨fun i inside => ?_, ?_⟩
      · rw [next i (by omega)]
        split
        · next divides => exact aligned.leads i (by omega) divides
        · rfl
      · rw [if_pos (show _ ∣ fs.firstRootDirSecNum + k + 1 from boundary)]
        exact ends

/-- Neighbours of the walk: each sector is the one that follows the sector before. -/
theorem isChain_sectorWalk (reliable : m.Reliable) (start : fs.sectorToCluster s = c) :
    (sectorWalk fs n m s c).IsChain fun a b => b = fs.nextSector m a (fs.sectorToCluster a) := by
  induction n generalizing s c with
  | zero => exact .nil
  | succ n ih =>
    rw [sectorWalk_succ reliable]
    split
    · exact .singleton s
    · cases n with
      | zero => exact .singleton s
      | succ n =>
        have rest := ih (s := fs.nextSector m s c) (c := _) rfl
        rw [sectorWalk_succ reliable] at rest ⊢
        exact .cons_cons (by rw [start]) rest

end Walk

section Chain

variable {fs} {m : Medium} {c d : Nat} {cs : List Nat}

theorem chainSectors_cons :
    chainSectors fs (c :: cs) = fs.clusterSectors c ++ chainSectors fs cs := List.flatMap_cons

/-- A volume whose shift value fits its clusters. -/
structure Fitting (fs : FATFileSystem) : Prop where
  shift : 2 ^ fs.sectorShiftValue = fs.myFATBPB.secPerClus
  word : fs.myFATBPB.totSec < 2 ^ 32

theorem end_eq (two : 2 ≤ c) :
    fs.firstDataSector + (c - 1) * fs.myFATBPB.secPerClus =
      fs.firstSector c + fs.myFATBPB.secPerClus := by
  obtain ⟨k, rfl⟩ : ∃ k, c = k + 2 := ⟨c - 2, by omega⟩
  rw [FATFileSystem.firstSector, Nat.add_sub_cancel, show k + 2 - 1 = k + 1 by omega,
    Nat.succ_mul, Nat.add_assoc]

/-- Clusters start as the data area does. -/
theorem dvd_firstSector_iff {i : Nat} : fs.myFATBPB.secPerClus ∣ fs.firstSector c + i ↔
    fs.myFATBPB.secPerClus ∣ fs.firstDataSector + i := by
  rw [FATFileSystem.firstSector, Nat.add_right_comm]
  exact (Nat.dvd_add_iff_left (Nat.dvd_mul_left _ _)).symm

namespace Fitting

variable (fitting : Fitting fs) (onVolume : fs.OnVolume m c)

include fitting onVolume

theorem last_lt : fs.firstSector c + fs.myFATBPB.secPerClus < 2 ^ 32 := by
  have inside := onVolume.inside
  rw [end_eq onVolume.two] at inside
  exact Nat.lt_of_le_of_lt inside fitting.word

theorem clusterToSector_eq : fs.clusterToSector c = fs.firstSector c := by
  have last := fitting.last_lt onVolume
  have two := onVolume.two
  rw [FATFileSystem.firstSector, ← fitting.shift] at last ⊢
  exact FATFileSystem.clusterToSector_eq two (Nat.lt_of_le_of_lt (Nat.le_add_right _ _) last)

theorem sectorToCluster_eq {i : Nat} (below : i < fs.myFATBPB.secPerClus) :
    fs.sectorToCluster (fs.firstSector c + i) = c := by
  have last := fitting.last_lt onVolume
  have two := onVolume.two
  have number := onVolume.lt
  have word : EOC < 2 ^ 32 := by decide
  rw [FATFileSystem.firstSector, ← fitting.shift] at last ⊢
  rw [← fitting.shift] at below
  exact FATFileSystem.sectorToCluster_eq two (by omega) below
    (Nat.lt_trans (Nat.add_lt_add_left below _) last)

end Fitting

/-- In an aligned data area the walk goes through a cluster to its end and then
on to the successor. -/
theorem sectorWalk_cluster (reliable : m.Reliable) (fitting : Fitting fs)
    (onVolume : fs.OnVolume m c) (aligned : fs.myFATBPB.secPerClus ∣ fs.firstDataSector) (n : Nat)
    {k : Nat} (inside : k < fs.myFATBPB.secPerClus)
    (proper : ∀ i, 0 < i → i < fs.myFATBPB.secPerClus → fs.firstSector c + i ≠ EOC) :
    sectorWalk fs (n + (k + 1)) m (fs.firstSector c + (fs.myFATBPB.secPerClus - 1 - k)) c =
      List.range' (fs.firstSector c + (fs.myFATBPB.secPerClus - 1 - k)) (k + 1) ++
        if fs.onward m c = EOC then []
        else sectorWalk fs n m (fs.onward m c) (fs.sectorToCluster (fs.onward m c)) := by
  have last := fitting.last_lt onVolume
  induction k with
  | zero =>
    have divides : 2 ^ fs.sectorShiftValue ∣
      fs.firstSector c + (fs.myFATBPB.secPerClus - 1) + 1 := by
      rw [fitting.shift, Nat.add_assoc, Nat.sub_add_cancel (by omega), dvd_firstSector_iff]
      exact Nat.dvd_add aligned (Nat.dvd_refl _)
    have next := FATFileSystem.nextSector_boundary (m := m) (c := c)
      (show fs.firstSector c + (fs.myFATBPB.secPerClus - 1) + 1 < 2 ^ 32 by omega) divides
    rw [Nat.sub_zero, sectorWalk_succ reliable, next]
    rfl
  | succ k ih =>
    have position : fs.firstSector c + (fs.myFATBPB.secPerClus - 1 - (k + 1)) + 1 =
        fs.firstSector c + (fs.myFATBPB.secPerClus - 1 - k) := by omega
    have within : ¬2 ^ fs.sectorShiftValue ∣
        fs.firstSector c + (fs.myFATBPB.secPerClus - 1 - (k + 1)) + 1 := by
      rw [position, fitting.shift, dvd_firstSector_iff,
        ← Nat.dvd_add_iff_right aligned]
      exact Nat.not_dvd_of_pos_of_lt (by omega) (by omega)
    have next := FATFileSystem.nextSector_inside (m := m) (c := c)
      (show fs.firstSector c + (fs.myFATBPB.secPerClus - 1 - (k + 1)) + 1 < 2 ^ 32 by omega) within
    have goes := proper (fs.myFATBPB.secPerClus - 1 - k) (by omega) (by omega)
    rw [← Nat.add_assoc, sectorWalk_succ reliable, next, position, if_neg goes,
      fitting.sectorToCluster_eq onVolume (by omega), ih (by omega)]
    conv_rhs => rw [List.range'_succ, position]
    rfl

theorem onward_eq (onVolume : fs.OnVolume m c) : fs.onward m c =
    match fs.successor m.content c with
    | none => EOC
    | some d => fs.clusterToSector d := by
  rw [FATFileSystem.onward, FATFileSystem.successor, onVolume.lookup_eq]
  split
  · rfl
  · rfl

theorem Fitting.positive (fitting : Fitting fs) : 0 < fs.myFATBPB.secPerClus := by
  rw [← fitting.shift]
  exact Nat.two_pow_pos _

theorem tail_chainSectors (positive : 0 < fs.myFATBPB.secPerClus) :
    (chainSectors fs (c :: cs)).tail =
      List.range' (fs.firstSector c + 1) (fs.myFATBPB.secPerClus - 1) ++ chainSectors fs cs := by
  obtain ⟨k, total⟩ : ∃ k, fs.myFATBPB.secPerClus = k + 1 := ⟨_, (Nat.sub_add_cancel positive).symm⟩
  rw [chainSectors_cons, FATFileSystem.clusterSectors, total, List.range'_succ]
  rfl

/-- On an aligned volume a chain is walked as it is. -/
theorem sectorWalk_chain (reliable : m.Reliable) (fitting : Fitting fs)
    (aligned : fs.myFATBPB.secPerClus ∣ fs.firstDataSector) (n : Nat)
    (onVolume : ∀ d ∈ c :: cs, fs.OnVolume m d) (linked : Linked (fs.successor m.content) (c :: cs))
    (proper : ∀ s ∈ (chainSectors fs (c :: cs)).tail, s ≠ EOC) :
    sectorWalk fs (n + (chainSectors fs (c :: cs)).length) m (fs.firstSector c) c =
      chainSectors fs (c :: cs) := by
  have positive := fitting.positive
  induction cs generalizing c n with
  | nil =>
    rw [tail_chainSectors positive] at proper
    have here := sectorWalk_cluster reliable fitting (onVolume c (by simp)) aligned n
      (show fs.myFATBPB.secPerClus - 1 < fs.myFATBPB.secPerClus by omega)
      (fun i low high => proper _ (by simp [List.mem_range'_1]; omega))
    have ends : fs.onward m c = EOC := by
      rw [onward_eq (onVolume c (by simp)), linked.1]
      rfl
    rw [Nat.sub_self, Nat.add_zero, Nat.sub_add_cancel positive, if_pos ends] at here
    rw [chainSectors_cons]
    simpa [chainSectors, FATFileSystem.clusterSectors] using here
  | cons d cs ih =>
    rw [tail_chainSectors positive] at proper
    have next := onVolume d (by simp)
    have leads : fs.onward m c = fs.firstSector d := by
      rw [onward_eq (onVolume c (by simp)), linked.1]
      exact fitting.clusterToSector_eq next
    have goes : fs.firstSector d ≠ EOC :=
      proper _ (by simp [chainSectors, FATFileSystem.clusterSectors, List.mem_range'_1]; omega)
    have back : fs.sectorToCluster (fs.firstSector d) = d :=
      fitting.sectorToCluster_eq next positive
    have rest := ih n (fun e member => onVolume e (by simp [List.mem_cons.mp member]))
      linked.2 fun s member => proper s (by simp [List.mem_of_mem_tail member])
    have here := sectorWalk_cluster reliable fitting (onVolume c (by simp)) aligned
      (n + (chainSectors fs (d :: cs)).length)
      (show fs.myFATBPB.secPerClus - 1 < fs.myFATBPB.secPerClus by omega)
      (fun i low high => proper _ (by simp [List.mem_range'_1]; omega))
    rw [Nat.sub_self, Nat.add_zero, Nat.sub_add_cancel positive, leads, if_neg goes, back,
      rest] at here
    rw [chainSectors_cons, List.length_append, FATFileSystem.clusterSectors, List.length_range',
      Nat.add_comm fs.myFATBPB.secPerClus, ← Nat.add_assoc]
    exact here

theorem Supported.dvd {n : Nat} (supported : Supported n) : n ∣ 2 ^ 32 := by
  have all : ∀ k ∈ [1, 2, 4, 8, 16, 32, 64, 128], k ∣ 2 ^ 32 := by decide
  exact all n supported

/-- Every entry leads to a sector that lies in its block as the data area does. -/
theorem dvd_clusterToSector {p x : Nat} (shift : 2 ^ fs.sectorShiftValue = p) (word : p ∣ 2 ^ 32)
    (divides : p ∣ fs.clusterToSector x) : p ∣ fs.firstDataSector := by
  rw [FATFileSystem.clusterToSector, wordAdd, Nat.dvd_mod_iff word, Nat.shiftLeft_eq,
    shift] at divides
  refine (Nat.dvd_add_iff_left ?_).mpr divides
  rw [Nat.dvd_mod_iff word]
  exact Nat.dvd_mul_left _ _

/-- A walk over the sectors of a whole cluster needs an aligned data area. -/
theorem aligned_of_visited (reliable : m.Reliable) (fitting : Fitting fs)
    (supported : Supported fs.myFATBPB.secPerClus) (onVolume : fs.OnVolume m c) {n : Nat}
    {rest : List Nat}
    (visited : sectorWalk fs n m (fs.firstSector c) c = fs.clusterSectors c ++ rest) :
    fs.myFATBPB.secPerClus ∣ fs.firstDataSector := by
  have positive := fitting.positive
  have last := fitting.last_lt onVolume
  by_contra not
  -- the first sector inside the cluster with an aligned number
  have remainder : 0 < fs.firstSector c % fs.myFATBPB.secPerClus := by
    refine Nat.pos_of_ne_zero fun zero => not ?_
    rw [← Nat.add_zero fs.firstDataSector, ← dvd_firstSector_iff (c := c)]
    exact Nat.dvd_of_mod_eq_zero zero
  have less := Nat.mod_lt (fs.firstSector c) positive
  obtain ⟨i, index⟩ : ∃ i, i + 1 = fs.myFATBPB.secPerClus -
      fs.firstSector c % fs.myFATBPB.secPerClus := ⟨_, Nat.sub_add_cancel (by omega)⟩
  have divides : fs.myFATBPB.secPerClus ∣ fs.firstSector c + i + 1 := by
    refine ⟨fs.firstSector c / fs.myFATBPB.secPerClus + 1, ?_⟩
    have split := Nat.div_add_mod (fs.firstSector c) fs.myFATBPB.secPerClus
    rw [Nat.mul_succ]
    omega
  have start : fs.sectorToCluster (fs.firstSector c) = c :=
    fitting.sectorToCluster_eq onVolume positive
  have chain := isChain_sectorWalk (n := n) reliable start
  have tail : ∀ x ∈ (sectorWalk fs n m (fs.firstSector c) c).tail, x ≠ EOC :=
    ne_EOC_of_mem_tail reliable
  obtain ⟨k, total⟩ : ∃ k, fs.myFATBPB.secPerClus = i + (k + 2) :=
    ⟨fs.myFATBPB.secPerClus - i - 2, by omega⟩
  have split : fs.clusterSectors c = List.range' (fs.firstSector c) i ++
      (fs.firstSector c + i) :: (fs.firstSector c + i + 1) ::
        List.range' (fs.firstSector c + i + 2) k := by
    rw [FATFileSystem.clusterSectors, total, ← List.range'_append_1]
    rfl
  rw [visited] at chain tail
  have neighbours : fs.firstSector c + i + 1 = fs.nextSector m (fs.firstSector c + i)
      (fs.sectorToCluster (fs.firstSector c + i)) := by
    rw [split, List.append_assoc] at chain
    exact (List.isChain_cons_cons.mp chain.right_of_append).1
  have proper : fs.firstSector c + i + 1 ≠ EOC := by
    refine tail _ ?_
    rw [split]
    cases i with
    | zero => simp
    | succ i => simp [List.range'_succ]
  rw [FATFileSystem.nextSector_boundary (by omega) (by rwa [fitting.shift])] at neighbours
  rw [FATFileSystem.onward] at neighbours
  split at neighbours
  · exact proper neighbours
  · rw [neighbours] at divides
    exact not (dvd_clusterToSector fitting.shift supported.dvd divides)

theorem length_chainSectors : (chainSectors fs cs).length = cs.length * fs.myFATBPB.secPerClus := by
  induction cs with
  | nil => simp [chainSectors]
  | cons c cs ih =>
    rw [chainSectors_cons, List.length_append, ih, List.length_cons, Nat.succ_mul,
      FATFileSystem.clusterSectors, List.length_range', Nat.add_comm]

/-- With no shift one sector of each cluster is visited. -/
theorem length_sectorWalk_le (reliable : m.Reliable) (unshifted : fs.sectorShiftValue = 0)
    (word : fs.myFATBPB.totSec < 2 ^ 32) (positive : 0 < fs.myFATBPB.secPerClus) (n : Nat)
    (onVolume : ∀ d ∈ c :: cs, fs.OnVolume m d)
    (linked : Linked (fs.successor m.content) (c :: cs)) :
    (sectorWalk fs n m (fs.clusterToSector c) c).length ≤ cs.length + 1 := by
  have single (d : Nat) (known : fs.OnVolume m d) :
      fs.clusterToSector d = fs.firstDataSector + (d - 2) ∧
        fs.firstDataSector + (d - 2) + 1 < 2 ^ 32 := by
    have two := known.two
    have inside := known.inside
    have wide : d - 1 ≤ (d - 1) * fs.myFATBPB.secPerClus := Nat.le_mul_of_pos_right _ positive
    have fits : fs.firstDataSector + (d - 2) + 1 < 2 ^ 32 := by omega
    have start : fs.clusterToSector d =
        fs.firstDataSector + (d - 2) * 2 ^ fs.sectorShiftValue :=
      FATFileSystem.clusterToSector_eq two (by rw [unshifted, Nat.pow_zero, Nat.mul_one]; omega)
    rw [unshifted, Nat.pow_zero, Nat.mul_one] at start
    exact ⟨start, fits⟩
  induction cs generalizing c n with
  | nil =>
    cases n with
    | zero => simp [sectorWalk]
    | succ n =>
      obtain ⟨start, fits⟩ := single c (onVolume c (by simp))
      have next := FATFileSystem.nextSector_boundary (m := m) (c := c) fits
        (by rw [unshifted]; exact Nat.one_dvd _)
      have ends : fs.onward m c = EOC := by
        rw [onward_eq (onVolume c (by simp)), linked.1]
        rfl
      rw [start, sectorWalk_succ reliable, next, if_pos ends]
      simp
  | cons d cs ih =>
    cases n with
    | zero => simp [sectorWalk]
    | succ n =>
      obtain ⟨start, fits⟩ := single c (onVolume c (by simp))
      obtain ⟨startNext, fitsNext⟩ := single d (onVolume d (by simp))
      have next := FATFileSystem.nextSector_boundary (m := m) (c := c) fits
        (by rw [unshifted]; exact Nat.one_dvd _)
      have leads : fs.onward m c = fs.clusterToSector d := by
        rw [onward_eq (onVolume c (by simp)), linked.1]
        rfl
      have back : fs.sectorToCluster (fs.clusterToSector d) = d := by
        have known := onVolume d (by simp)
        have number := known.lt
        have small : EOC < 2 ^ 32 := by decide
        have same : fs.sectorToCluster
            (fs.firstDataSector + (d - 2) * 2 ^ fs.sectorShiftValue + 0) = d :=
          FATFileSystem.sectorToCluster_eq known.two (by omega) (Nat.two_pow_pos _)
            (by rw [unshifted, Nat.pow_zero, Nat.mul_one]; omega)
        rwa [unshifted, Nat.pow_zero, Nat.mul_one, Nat.add_zero, ← startNext] at same
      have rest := ih n (fun e member => onVolume e (by simp [List.mem_cons.mp member])) linked.2
      rw [start, sectorWalk_succ reliable, next, leads, back, List.length_cons,
        List.length_cons]
      split
      · simp
      · omega

/-- The volume with a shift value that the constructor leaves. -/
theorem clusterChain_overMemory (chain : fs.ClusterChain m cs) (memory : Nat) :
    (overMemory fs memory).ClusterChain m cs :=
  ⟨chain.nonempty, fun c member =>
    have known := chain.onVolume c member
    ⟨known.two, known.number, known.inside, known.table⟩, chain.linked⟩

theorem fitting_overMemory (supported : Supported fs.myFATBPB.secPerClus)
    (word : fs.myFATBPB.totSec < 2 ^ 32) (memory : Nat) : Fitting (overMemory fs memory) := by
  refine ⟨?_, word⟩
  simp only [Supported, List.mem_cons, List.not_mem_nil, or_false] at supported
  simp only [overMemory, BsBpb.sectorShiftValue]
  rcases supported with same | same | same | same | same | same | same | same <;>
    rw [same] <;> rfl

theorem sectorShiftValue_of_not (unsupported : ¬Supported fs.myFATBPB.secPerClus) (memory : Nat) :
    (overMemory fs memory).sectorShiftValue = memory := by
  simp only [Supported, List.mem_cons, List.not_mem_nil, or_false, not_or] at unsupported
  simp only [overMemory, BsBpb.sectorShiftValue]
  split <;> simp_all

/-- Without a case for the size of the clusters the shift may be none, and then
too few sectors are visited. -/
theorem supported_of_visited {memory : Nat} {buffer : Lib.ByteMemory.Memory}
    (reliable : m.Reliable) (constructed : FATFileSystem.Constructed memory buffer fs)
    (chain : fs.ClusterChain m (c :: cs)) (visited : ChainVisited (overMemory fs 0) m c cs) :
    Supported fs.myFATBPB.secPerClus := by
  by_contra unsupported
  have positive := constructed.secPerClus_pos
  have large : 1 < fs.myFATBPB.secPerClus := by
    refine Nat.lt_of_le_of_ne positive fun one => unsupported ?_
    rw [← one]
    decide
  have chain' := clusterChain_overMemory chain 0
  have short := length_sectorWalk_le reliable (sectorShiftValue_of_not unsupported 0)
    constructed.totSec_lt positive ((chainSectors (overMemory fs 0) (c :: cs)).length + 1)
    chain'.onVolume chain'.linked
  rw [visited, length_chainSectors, List.length_cons] at short
  have more : cs.length + 1 < (cs.length + 1) * fs.myFATBPB.secPerClus :=
    (Nat.lt_mul_iff_one_lt_right (by omega)).mpr large
  exact Nat.lt_irrefl _ (Nat.lt_of_lt_of_le more short)

/-- A chain of a mounted volume is visited sector by sector, whatever the memory
held before, exactly when the clusters have a size that is provided for, the data
area starts at a multiple of it, and no sector but the first has the number that
reports the end. The root directory of a FAT16 volume is visited exactly when
it lies as its own clusters would. -/
theorem getNextSector_visits_iff {memory : Nat} (mounted : (mount memory m).2 = some fs)
    (reliable : m.Reliable) :
    (∀ c cs, fs.ClusterChain m (c :: cs) →
      ((∀ memory, ChainVisited (overMemory fs memory) m c cs) ↔
        Supported fs.myFATBPB.secPerClus ∧ fs.myFATBPB.secPerClus ∣ fs.firstDataSector ∧
          ∀ s ∈ (chainSectors fs (c :: cs)).tail, s ≠ EOC)) ∧
    (fs.myFatType = .fat16 → (RootVisited fs m ↔ RootAligned fs m)) := by
  have constructed := FATFileSystem.constructed_of_mount mounted
  refine ⟨fun c cs chain => ?_, fun _ => rootVisited_iff reliable constructed.root_lt⟩
  constructor
  · intro visited
    have supported : Supported fs.myFATBPB.secPerClus :=
      supported_of_visited reliable constructed chain (visited 0)
    have fitting := fitting_overMemory supported constructed.totSec_lt 0
    have known := (clusterChain_overMemory chain 0).onVolume c (by simp)
    have here := visited 0
    rw [ChainVisited, fitting.clusterToSector_eq known] at here
    refine ⟨supported, ?_, ?_⟩
    · have aligned : (overMemory fs 0).myFATBPB.secPerClus ∣ (overMemory fs 0).firstDataSector :=
        aligned_of_visited reliable fitting supported known (here.trans chainSectors_cons)
      exact aligned
    · intro s member
      have later : s ∈ (chainSectors (overMemory fs 0) (c :: cs)).tail := member
      rw [← here] at later
      exact ne_EOC_of_mem_tail reliable s later
  · rintro ⟨supported, aligned, proper⟩ memory
    have fitting := fitting_overMemory supported constructed.totSec_lt memory
    have chain' := clusterChain_overMemory chain memory
    have walked := sectorWalk_chain reliable fitting aligned 1 chain'.onVolume chain'.linked proper
    rw [ChainVisited, fitting.clusterToSector_eq (chain'.onVolume c (by simp)), Nat.add_comm]
    exact walked

/-- A FAT16 volume with two sectors for each cluster and a data area that starts
at sector 19; cluster 2 is a chain of its own. -/
def oddVolume : Medium where
  content
    | 0, 0 => 0xeb
    | 0, 12 => 2
    | 0, 13 => 2
    | 0, 14 => 2
    | 0, 16 => 1
    | 0, 17 => 16
    | 0, 19 => 0x10
    | 0, 20 => 0x27
    | 0, 22 => 16
    | 2, 4 => 0xff
    | 2, 5 => 0xff
    | _, _ => 0
  sectors := 10001
  outcome _ := cOk
  requests := []

def oddFileSystem : FATFileSystem where
  myFatType := .fat16
  myFATBPB := ⟨0xeb, 512, 2, 2, 1, 16, 10000, 16, 0⟩
  myFAT32BPB := ⟨0, 0, 0⟩
  rootDirSectors := 1
  firstDataSector := 19
  dataSec := 9981
  countOfClusters := 4990
  sectorShiftValue := 1

theorem mount_oddVolume : (mount 0 oddVolume).2 = some oddFileSystem := by decide +kernel

theorem chain_oddVolume : oddFileSystem.ClusterChain oddVolume [2] :=
  ⟨by decide, fun c member => by
    obtain rfl := List.mem_singleton.mp member
    exact ⟨by decide, by decide, by decide, by decide⟩, by decide⟩

theorem getNextSector_visits_iff_oddVolume :
    (∀ c cs, oddFileSystem.ClusterChain oddVolume (c :: cs) →
      ((∀ memory, ChainVisited (overMemory oddFileSystem memory) oddVolume c cs) ↔
        Supported 2 ∧ 2 ∣ 19 ∧
          ∀ s ∈ (chainSectors oddFileSystem (c :: cs)).tail, s ≠ EOC)) ∧
    (FatType.fat16 = .fat16 → (RootVisited oddFileSystem oddVolume ↔
      RootAligned oddFileSystem oddVolume)) :=
  getNextSector_visits_iff mount_oddVolume fun _ => rfl

/-- Only the first of the two sectors of cluster 2 is visited. -/
theorem cluster_half_visited :
    ¬∀ memory m fs, (mount memory m).2 = some fs → m.Reliable →
      ∀ c cs, fs.ClusterChain m (c :: cs) → ChainVisited fs m c cs := by
  intro visited
  have both := visited 0 oddVolume oddFileSystem mount_oddVolume (fun _ => rfl) 2 [] chain_oddVolume
  have one : sectorWalk oddFileSystem 3 oddVolume 19 2 = [19] := by decide +kernel
  have two : sectorWalk oddFileSystem 3 oddVolume 19 2 = [19, 20] := both
  rw [one] at two
  cases two

end Chain

end Orcos.Guarantees.ClusterWalks
