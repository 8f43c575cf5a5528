import Orcos.Guarantees.PartitionCache

/-!
Which sectors the calls of src/source/filesystem/Partition.cc reach.

`readSectors` and `writeSectors` compare the end of the range, as a word, with
the number of sectors. They refuse every range that ends with the partition,
and a range whose end wraps around may be taken. What is read or written is the
whole block around each sector, also where the partition ends within the block.

`clearBytes` divides the wrong way round when it skips whole sectors.
-/
namespace Orcos.Guarantees.PartitionRanges
open Lib.Extents Source Source.PartitionCache Guarantees.PartitionCache

variable {π : Type} {size : Nat}

section Transfers

/-- The transfer of a block, for the partition the block is or was cached for. -/
structure Transfer (π : Type) where
  partition : π
  lba : Nat
  write : Bool

variable (partitions : π → Partition)

/-- The transfer of an entry that is to be dropped. -/
def droppedTransfers (b : CacheBlock π size) : List (Transfer π) :=
  match b.pPartition with
  | some q => if b.modified then [⟨q, wordAdd (partitions q).lbaStart b.blockStart, true⟩] else []
  | none => []

/-- The transfers of `cacheBlock`. -/
def cacheTransfers (s : PartitionCache π size) (p : π) (num : Nat) : List (Transfer π) :=
  droppedTransfers partitions (s.block (Fin.last 4)) ++
    if isError (writeBack partitions s.device (s.block (Fin.last 4))).2 then []
    else [⟨p, wordAdd (partitions p).lbaStart num, false⟩]

variable [DecidableEq π]

/-- The transfers of `accessSector`. -/
def accessTransfers (s : PartitionCache π size) (p : π) (sectorNum : Nat) : List (Transfer π) :=
  match s.find p (blockNum size sectorNum) with
  | some _ => []
  | none => cacheTransfers partitions s p (blockNum size sectorNum)

/-- The loop that `readSectors` and `writeSectors` have in common. -/
def accessLoop (p : π) : List (Operation size) → PartitionCache π size → Nat →
    PartitionCache π size × ErrorT
  | [], s, _ => (s, cOk)
  | operation :: operations, s, sector =>
    let (s, _, error) := s.accessSector partitions p sector operation
    if isError error then (s, error) else accessLoop p operations s (sector + 1)

/-- Its transfers. -/
def loopTransfers (p : π) : List (Operation size) → PartitionCache π size → Nat → List (Transfer π)
  | [], _, _ => []
  | operation :: operations, s, sector =>
    let accessed := s.accessSector partitions p sector operation
    accessTransfers partitions s p sector ++
      if isError accessed.2.2 then [] else loopTransfers p operations accessed.1 (sector + 1)

/-- The transfers of a request that reads or writes its sectors one by one. -/
def requestTransfers (s : PartitionCache π size) (p : π) (sectorStart : Nat)
    (operations : List (Operation size)) : List (Transfer π) :=
  if wordAdd sectorStart operations.length < (partitions p).sectors then
    loopTransfers partitions p operations s sectorStart
  else []

/-- The operations of `readSectors` and of `writeSectors`. -/
def reads (size numSectors : Nat) : List (Operation size) := List.replicate numSectors .read

def writes (buffer : Nat → Sector size) (numSectors : Nat) : List (Operation size) :=
  (List.range numSectors).map fun i => .write (buffer i)

theorem readLoop_eq (p : π) (n : Nat) (s : PartitionCache π size) (sector : Nat) :
    ((readLoop partitions p n s sector).1, (readLoop partitions p n s sector).2.2) =
      accessLoop partitions p (reads size n) s sector := by
  induction n generalizing s sector with
  | zero => rfl
  | succ n ih =>
    rw [readLoop, reads, List.replicate_succ, accessLoop]
    dsimp only
    split
    · rfl
    · exact ih _ _

theorem writeLoop_eq (p : π) (n : Nat) (s : PartitionCache π size) (sector : Nat)
    (buffer : Nat → Sector size) :
    writeLoop partitions p n s sector buffer =
      accessLoop partitions p (writes buffer n) s sector := by
  induction n generalizing s sector buffer with
  | zero => rfl
  | succ n ih =>
    have first : writes buffer (n + 1) =
        .write (buffer 0) :: writes (fun i => buffer (i + 1)) n := by
      simp [writes, List.range_succ_eq_map, Function.comp_def]
    rw [writeLoop, first, accessLoop]
    dsimp only
    split
    · rfl
    · exact ih _ _ _

end Transfers

section Follow

variable {partitions : π → Partition} {s s' : PartitionCache π size} {p : π}

/-- The device made these transfers and has changed in no other sector. -/
structure Follows (device device' : BlockDevice size) (transfers : List (Transfer π)) : Prop where
  count : device'.transfers = device.transfers + transfers.length
  frame : ∀ a, (∀ t ∈ transfers, t.write = true → ¬Inside t.lba (sectorsPerBlock size) a) →
    device'.content a = device.content a

theorem Follows.nothing (device : BlockDevice size) :
    Follows device device ([] : List (Transfer π)) := ⟨rfl, fun _ _ => rfl⟩

theorem Follows.append {device device' device'' : BlockDevice size}
    {first second : List (Transfer π)} (before : Follows device device' first)
    (after : Follows device' device'' second) : Follows device device'' (first ++ second) where
  count := by
    rw [after.count, before.count, List.length_append, Nat.add_assoc]
  frame a outside := by
    rw [after.frame a fun t member => outside t (by simp [member])]
    exact before.frame a fun t member => outside t (by simp [member])

variable (partitions) in
theorem writeBack_follows (device : BlockDevice size) (b : CacheBlock π size) :
    Follows device (writeBack partitions device b).1 (droppedTransfers partitions b) := by
  unfold writeBack droppedTransfers
  cases b.pPartition with
  | none => exact Follows.nothing device
  | some q =>
    dsimp only
    split
    · unfold BlockDevice.writeBlock
      dsimp only
      split
      · constructor
        · rfl
        · intro a outside
          exact overwrite_outside (outside _ (.head _) rfl)
      · constructor
        · rfl
        · intro a outside
          exact overwrite_outside (outside _ (.head _) rfl)
    · exact Follows.nothing device

theorem readBlock_follows (device : BlockDevice size) (lba length : Nat)
    (buffer : Nat → Sector size) (p : π) :
    Follows device (device.readBlock lba buffer length).1 [⟨p, lba, false⟩] := by
  unfold BlockDevice.readBlock
  dsimp only
  split
  · exact ⟨rfl, fun _ _ => rfl⟩
  · exact ⟨rfl, fun _ _ => rfl⟩

variable (partitions) in
theorem cacheBlock_follows (s : PartitionCache π size) (p : π) (num : Nat) :
    Follows s.device (s.cacheBlock partitions p num).1.device
      (cacheTransfers partitions s p num) := by
  have dropped := writeBack_follows partitions s.device (s.block 4)
  have oldest : Fin.last 4 = 4 := rfl
  unfold cacheBlock cacheTransfers
  rw [oldest]
  dsimp only
  split
  · rw [List.append_nil]
    exact dropped
  · exact dropped.append (readBlock_follows ..)

theorem serve_device (s : PartitionCache π size) (litem : Fin 5) (offset : Nat)
    (operation : Operation size) : (s.serve litem offset operation).1.device = s.device := by
  cases operation with
  | read => rfl
  | write buffer => rfl

variable [DecidableEq π]

variable (partitions) in
theorem accessSector_follows (s : PartitionCache π size) (p : π) (sector : Nat)
    (operation : Operation size) :
    Follows s.device (s.accessSector partitions p sector operation).1.device
      (accessTransfers partitions s p sector) := by
  have cached := cacheBlock_follows partitions s p (blockNum size sector)
  unfold accessSector accessTransfers
  dsimp only
  cases s.find p (blockNum size sector) with
  | some litem =>
    dsimp only
    rw [serve_device]
    exact Follows.nothing s.device
  | none =>
    dsimp only
    split
    · exact cached
    · rw [serve_device]
      exact cached

variable (partitions) in
/-- The transfers of a loop are the ones the device is asked for. -/
theorem accessLoop_follows (p : π) (operations : List (Operation size))
    (s : PartitionCache π size) (sector : Nat) :
    Follows s.device (accessLoop partitions p operations s sector).1.device
      (loopTransfers partitions p operations s sector) := by
  induction operations generalizing s sector with
  | nil => exact Follows.nothing s.device
  | cons operation operations ih =>
    have accessed := accessSector_follows partitions s p sector operation
    rw [accessLoop, loopTransfers]
    dsimp only
    split
    · rw [List.append_nil]
      exact accessed
    · exact accessed.append (ih _ _)

theorem readSectors_follows (s : PartitionCache π size) (sectorStart numSectors : Nat) :
    Follows s.device (s.readSectors partitions p sectorStart numSectors).1.device
      (requestTransfers partitions s p sectorStart (reads size numSectors)) := by
  rw [PartitionCache.readSectors, requestTransfers, reads, List.length_replicate]
  split
  · have same := congrArg Prod.fst (readLoop_eq partitions p numSectors s sectorStart)
    have followed := accessLoop_follows partitions p (reads size numSectors) s sectorStart
    rw [← same] at followed
    exact followed
  · exact Follows.nothing s.device

theorem writeSectors_follows (s : PartitionCache π size) (sectorStart numSectors : Nat)
    (buffer : Nat → Sector size) :
    Follows s.device (s.writeSectors partitions p sectorStart buffer numSectors).1.device
      (requestTransfers partitions s p sectorStart (writes buffer numSectors)) := by
  have length : (writes buffer numSectors).length = numSectors := by simp [writes]
  rw [PartitionCache.writeSectors, requestTransfers, length]
  split
  · rw [writeLoop_eq]
    exact accessLoop_follows partitions p _ s sectorStart
  · exact Follows.nothing s.device

end Follow

section Ranges

variable (partitions : π → Partition)

/-- The block at this device sector lies in the partition. -/
def Within (size : Nat) (p : π) (lba : Nat) : Prop :=
  ∀ i < sectorsPerBlock size, Inside (partitions p).lbaStart (partitions p).sectors (lba + i)

/-- The entries cache blocks of their own partitions. -/
def Kept (s : PartitionCache π size) : Prop :=
  ∀ b ∈ s.blocks, ∀ q, b.pPartition = some q →
    Within partitions size q (wordAdd (partitions q).lbaStart b.blockStart)

variable [DecidableEq π]

/-- A request is accepted exactly when its range lies inside the partition, the device makes its
transfers and no others, each block that is transferred lies in its partition, the blocks that are
fetched in the partition asked for, and no sum wraps. -/
structure Confined (size : Nat) (p : π) (sectorStart numSectors : Nat) : Prop where
  reads : ∀ s : PartitionCache π size, s.Reliable →
    ((s.readSectors partitions p sectorStart numSectors).2.2 = cOk ↔
      sectorStart + numSectors ≤ (partitions p).sectors)
  writes : ∀ s : PartitionCache π size, s.Reliable → ∀ buffer,
    ((s.writeSectors partitions p sectorStart buffer numSectors).2 = cOk ↔
      sectorStart + numSectors ≤ (partitions p).sectors)
  made : ∀ s : PartitionCache π size,
    Follows s.device (s.readSectors partitions p sectorStart numSectors).1.device
        (requestTransfers partitions s p sectorStart (PartitionRanges.reads size numSectors)) ∧
      ∀ buffer, Follows s.device
        (s.writeSectors partitions p sectorStart buffer numSectors).1.device
        (requestTransfers partitions s p sectorStart (PartitionRanges.writes buffer numSectors))
  stays : ∀ s : PartitionCache π size, Kept partitions s → ∀ operations,
    operations.length = numSectors →
    ∀ t ∈ requestTransfers partitions s p sectorStart operations,
      Within partitions size t.partition t.lba ∧ (t.write = false → t.partition = p)
  sum : wordAdd sectorStart numSectors = sectorStart + numSectors
  sums : wordAdd sectorStart numSectors < (partitions p).sectors →
    ∀ sector, sectorStart ≤ sector → sector < sectorStart + numSectors →
      wordAdd (partitions p).lbaStart (blockNum size sector) =
        (partitions p).lbaStart + blockNum size sector

/-- The range does not end with the partition, nor does its end wrap, and where
it is accepted the blocks around its sectors lie in the partition. -/
def Fits (size : Nat) (partition : Partition) (sectorStart numSectors : Nat) : Prop :=
  sectorStart + numSectors < 2 ^ 32 ∧ sectorStart + numSectors ≠ partition.sectors ∧
    (sectorStart + numSectors < partition.sectors →
      ∀ sector, sectorStart ≤ sector → sector < sectorStart + numSectors →
        partition.lbaStart + blockNum size sector < 2 ^ 32 ∧
          ∀ i < sectorsPerBlock size, blockNum size sector + i < partition.sectors)

variable {partitions} {s : PartitionCache π size} {p : π} {sectorStart numSectors : Nat}

theorem wordAdd_eq_iff {a b : Nat} : wordAdd a b = a + b ↔ a + b < 2 ^ 32 := by
  constructor
  · intro same
    rw [← same]
    exact Nat.mod_lt _ (by decide)
  · exact wordAdd_eq

section Accepted

variable (partitions p) in
theorem accessLoop_reliable (operations : List (Operation size)) (reliable : s.Reliable)
    (sector : Nat) : (accessLoop partitions p operations s sector).2 = cOk := by
  induction operations generalizing s sector with
  | nil => rfl
  | cons operation operations ih =>
    have accepted := reliable.accessSector partitions p sector operation
    rw [accessLoop]
    dsimp only
    rw [if_neg (by simp [accepted])]
    exact ih (reliable.of_others (others_accessSector partitions s p sector operation)) _

theorem readSectors_iff (reliable : s.Reliable) :
    (s.readSectors partitions p sectorStart numSectors).2.2 = cOk ↔
      wordAdd sectorStart numSectors < (partitions p).sectors := by
  rw [readSectors]
  split
  case isTrue accepted =>
    have same := congrArg Prod.snd (readLoop_eq partitions p numSectors s sectorStart)
    have fine := accessLoop_reliable partitions p (PartitionRanges.reads size numSectors) reliable
      sectorStart
    exact iff_of_true (same.trans fine) accepted
  case isFalse refused => exact iff_of_false (by decide : cError ≠ cOk) refused

theorem writeSectors_iff (reliable : s.Reliable) (buffer : Nat → Sector size) :
    (s.writeSectors partitions p sectorStart buffer numSectors).2 = cOk ↔
      wordAdd sectorStart numSectors < (partitions p).sectors := by
  rw [writeSectors]
  split
  case isTrue accepted =>
    rw [writeLoop_eq]
    exact iff_of_true (accessLoop_reliable partitions p _ reliable sectorStart) accepted
  case isFalse refused => exact iff_of_false (by decide : cError ≠ cOk) refused

end Accepted

section Entries

variable {num : Nat}

/-- The entries cache the blocks they did before, or this one. -/
def EntriesFrom (p : π) (num : Nat) (s s' : PartitionCache π size) : Prop :=
  ∀ b ∈ s'.blocks, (∃ c ∈ s.blocks, c.pPartition = b.pPartition ∧ c.blockStart = b.blockStart) ∨
    (b.pPartition = some p ∧ b.blockStart = num)

omit [DecidableEq π]

theorem EntriesFrom.refl (s : PartitionCache π size) : EntriesFrom p num s s :=
  fun b member => .inl ⟨b, member, rfl, rfl⟩

theorem EntriesFrom.trans {s' s'' : PartitionCache π size} (first : EntriesFrom p num s s')
    (second : EntriesFrom p num s' s'') : EntriesFrom p num s s'' := by
  intro b member
  cases second b member with
  | inr new => exact .inr new
  | inl old =>
    obtain ⟨c, between, owner, start⟩ := old
    rw [← owner, ← start]
    exact first c between

theorem entries_putAtHead (s : PartitionCache π size) (litem : Fin 5) :
    EntriesFrom p num s (s.putAtHead litem) :=
  fun b member => .inl ⟨b, (perm_putAtHead s litem).mem_iff.mp member, rfl, rfl⟩

theorem entries_setBlock {litem : Fin 5} {b : CacheBlock π size}
    (own : (b.pPartition = (s.block litem).pPartition ∧
      b.blockStart = (s.block litem).blockStart) ∨ (b.pPartition = some p ∧ b.blockStart = num)) :
    EntriesFrom p num s (s.setBlock litem b) := by
  intro c member
  cases List.mem_cons.mp ((perm_setBlock s litem b).mem_iff.mp member) with
  | inl here =>
    rw [here]
    apply own.imp _ id
    intro same
    exact ⟨s.block litem, (perm_block s litem).mem_iff.mpr (.head _), same.1.symm, same.2.symm⟩
  | inr rest => exact .inl ⟨c, (perm_block s litem).mem_iff.mpr (.tail _ rest), rfl, rfl⟩

theorem entries_serve (s : PartitionCache π size) (litem : Fin 5) (offset : Nat)
    (operation : Operation size) :
    EntriesFrom p num s (s.serve litem offset operation).1 := by
  cases operation with
  | read => exact entries_putAtHead s litem
  | write buffer =>
    have replaced : EntriesFrom p num s (s.setBlock litem { s.block litem with
        modified := true
        buffer := Function.update (s.block litem).buffer offset buffer }) :=
      entries_setBlock (.inl ⟨rfl, rfl⟩)
    exact replaced.trans (entries_putAtHead _ litem)

variable (partitions) in
theorem entries_cacheBlock (s : PartitionCache π size) (p : π) (num : Nat) :
    EntriesFrom p num s (s.cacheBlock partitions p num).1 := by
  unfold cacheBlock
  dsimp only
  split
  · exact EntriesFrom.refl s
  · exact entries_setBlock (s := { s with device := _ }) (.inr ⟨rfl, rfl⟩)

variable [DecidableEq π]

variable (partitions) in
theorem entries_accessSector (s : PartitionCache π size) (p : π) (sector : Nat)
    (operation : Operation size) : EntriesFrom p (blockNum size sector) s
      (s.accessSector partitions p sector operation).1 := by
  have cached := entries_cacheBlock partitions s p (blockNum size sector)
  unfold accessSector
  dsimp only
  split
  · exact entries_serve s _ _ operation
  · split
    · exact cached
    · exact cached.trans (entries_serve _ 4 _ operation)

/-- Fetching a block inside the partition keeps the entries inside theirs. -/
theorem Kept.accessSector {sector : Nat} (kept : Kept partitions s)
    (within : Within partitions size p (wordAdd (partitions p).lbaStart (blockNum size sector)))
    (operation : Operation size) :
    Kept partitions (s.accessSector partitions p sector operation).1 := by
  intro b member q owner
  cases entries_accessSector partitions s p sector operation b member with
  | inl old =>
    obtain ⟨c, before, same, start⟩ := old
    rw [← start]
    exact kept c before q (same.trans owner)
  | inr new =>
    rw [new.2]
    cases new.1.symm.trans owner
    exact within

end Entries

/-- The transfers of one access, from entries inside their partitions. -/
theorem accessTransfers_within {sector : Nat} (kept : Kept partitions s)
    (within : Within partitions size p (wordAdd (partitions p).lbaStart (blockNum size sector))) :
    ∀ t ∈ accessTransfers partitions s p sector,
      Within partitions size t.partition t.lba ∧ (t.write = false → t.partition = p) := by
  intro t member
  unfold accessTransfers at member
  split at member
  · cases member
  · cases List.mem_append.mp member with
    | inl dropped =>
      unfold droppedTransfers at dropped
      split at dropped
      case h_1 q owner =>
        split at dropped
        · cases List.mem_singleton.mp dropped
          apply And.intro _ (fun reads => Bool.noConfusion reads)
          exact kept _ ((perm_block s 4).mem_iff.mpr (.head _)) q owner
        · cases dropped
      case h_2 => cases dropped
    | inr fetched =>
      split at fetched
      · cases fetched
      · cases List.mem_singleton.mp fetched
        exact ⟨within, fun _ => rfl⟩

/-- The transfers of a loop over sectors whose blocks lie in the partition. -/
theorem loopTransfers_within (operations : List (Operation size)) {sector : Nat}
    (kept : Kept partitions s)
    (within : ∀ k, sector ≤ k → k < sector + operations.length →
      Within partitions size p (wordAdd (partitions p).lbaStart (blockNum size k))) :
    ∀ t ∈ loopTransfers partitions p operations s sector,
      Within partitions size t.partition t.lba ∧ (t.write = false → t.partition = p) := by
  induction operations generalizing s sector with
  | nil =>
    intro t member
    cases member
  | cons operation operations ih =>
    intro t member
    rw [List.length_cons] at within
    have here := within sector le_rfl (by omega)
    rw [loopTransfers] at member
    cases List.mem_append.mp member with
    | inl first => exact accessTransfers_within kept here t first
    | inr later =>
      split at later
      · cases later
      · exact ih (kept.accessSector here operation)
          (fun k low high => within k (by omega) (by omega))
          t later

variable (partitions p) in
/-- On a reliable device each block that was not cached is fetched. -/
theorem loopTransfers_fetch (operations : List (Operation size)) {sector : Nat}
    (reliable : s.Reliable) :
    ∀ k, sector ≤ k → k < sector + operations.length →
      (∃ b ∈ s.blocks, b.pPartition = some p ∧ b.blockStart = blockNum size k) ∨
        ⟨p, wordAdd (partitions p).lbaStart (blockNum size k), false⟩ ∈
          loopTransfers partitions p operations s sector := by
  induction operations generalizing s sector with
  | nil =>
    intro k low high
    simp at high
    omega
  | cons operation operations ih =>
    intro k low high
    rw [List.length_cons] at high
    have others := others_accessSector partitions s p sector operation
    have accepted := reliable.accessSector partitions p sector operation
    have here : (∃ b ∈ s.blocks, b.pPartition = some p ∧ b.blockStart = blockNum size sector) ∨
        ⟨p, wordAdd (partitions p).lbaStart (blockNum size sector), false⟩ ∈
          loopTransfers partitions p (operation :: operations) s sector := by
      rw [loopTransfers, accessTransfers]
      cases found : s.find p (blockNum size sector) with
      | some litem =>
        exact .inl ⟨s.block litem, (perm_block s litem).mem_iff.mpr (.head _), find_some found⟩
      | none =>
        have written : isError (writeBack partitions s.device (s.block 4)).2 = false := by
          unfold writeBack BlockDevice.writeBlock
          simp only [reliable _]
          split
          · split
            · rfl
            · rfl
          · rfl
        right
        simp [cacheTransfers, written]
    cases Nat.eq_or_lt_of_le low with
    | inl same =>
      rw [← same]
      exact here
    | inr behind =>
      cases ih (reliable.of_others others) k behind (by omega) with
      | inr fetched =>
        right
        rw [loopTransfers]
        simp only [accepted, Bool.false_eq_true, if_false]
        exact List.mem_append_right _ fetched
      | inl cached =>
        obtain ⟨b, member, owner, start⟩ := cached
        cases entries_accessSector partitions s p sector operation b member with
        | inl old =>
          obtain ⟨c, before, same, start'⟩ := old
          exact .inl ⟨c, before, same.trans owner, start'.trans start⟩
        | inr new =>
          rw [← start, new.2]
          exact here

theorem fits_of_confined (confined : Confined partitions size p sectorStart numSectors) :
    Fits size (partitions p) sectorStart numSectors := by
  have word := wordAdd_eq_iff.mp confined.sum
  let device : BlockDevice size := ⟨fun _ _ => 0, fun _ => none, 0⟩
  have reliable : (initial device : PartitionCache π size).Reliable := fun _ => rfl
  apply And.intro word
  constructor
  · intro last
    have accepted := (confined.reads (initial device) reliable).mpr (Nat.le_of_eq last)
    rw [readSectors_iff reliable, confined.sum, last] at accepted
    exact Nat.lt_irrefl _ accepted
  · intro inside sector low high
    rw [← confined.sum] at inside
    have sum := confined.sums inside sector low high
    apply And.intro (wordAdd_eq_iff.mp sum)
    have fetched := loopTransfers_fetch partitions p (PartitionRanges.reads size numSectors)
      reliable sector low (by simpa [PartitionRanges.reads] using high)
    cases fetched with
    | inl cached =>
      obtain ⟨b, member, owner, _⟩ := cached
      rw [List.eq_of_mem_replicate member] at owner
      cases owner
    | inr member =>
      have none : Kept partitions (initial device : PartitionCache π size) := by
        intro b member q owner
        rw [List.eq_of_mem_replicate member] at owner
        cases owner
      have request : requestTransfers partitions (initial device) p sectorStart
          (PartitionRanges.reads size numSectors) =
            loopTransfers partitions p (PartitionRanges.reads size numSectors)
              (initial device) sectorStart := by
        rw [requestTransfers, PartitionRanges.reads, List.length_replicate, if_pos inside]
      rw [← request] at member
      have within := (confined.stays (initial device) none (PartitionRanges.reads size numSectors)
        List.length_replicate _ member).1
      intro i below
      have bound := (within i below).2
      rw [sum] at bound
      dsimp only at bound
      omega

theorem confined_of_fits (fits : Fits size (partitions p) sectorStart numSectors) :
    Confined partitions size p sectorStart numSectors := by
  obtain ⟨word, notLast, blocks⟩ := fits
  have sum := wordAdd_eq_iff.mpr word
  have accepted : wordAdd sectorStart numSectors < (partitions p).sectors ↔
      sectorStart + numSectors ≤ (partitions p).sectors := by
    rw [sum]
    omega
  constructor
  case reads =>
    intro s reliable
    rw [readSectors_iff reliable, accepted]
  case writes =>
    intro s reliable buffer
    rw [writeSectors_iff reliable, accepted]
  case made =>
    exact fun s => ⟨readSectors_follows s sectorStart numSectors,
      writeSectors_follows s sectorStart numSectors⟩
  case stays =>
    intro s kept operations length t member
    unfold requestTransfers at member
    split at member
    · rename_i inside
      rw [length, sum] at inside
      apply loopTransfers_within operations kept _ t member
      intro k low high
      rw [length] at high
      obtain ⟨address, within⟩ := blocks inside k low high
      intro i below
      have bound := within i below
      rw [wordAdd_eq address]
      exact ⟨by omega, by omega⟩
    · cases member
  case sum => exact sum
  case sums =>
    intro inside sector low high
    rw [sum] at inside
    exact wordAdd_eq (blocks inside sector low high).1

/-- Reads and writes of a range do what is asked exactly when the range fits. -/
theorem confined_iff_fits (partitions : π → Partition) (size : Nat) (p : π)
    (sectorStart numSectors : Nat) :
    Confined partitions size p sectorStart numSectors ↔
      Fits size (partitions p) sectorStart numSectors :=
  ⟨fits_of_confined, confined_of_fits⟩

/-- Of a hundred sectors the last one is refused, a range with a wrapped end is
accepted, and a sector near the end is read with sectors behind the partition. -/
theorem range_misjudged : ¬Confined whole 512 () 99 1 ∧ ¬Confined whole 512 () 50 (2 ^ 32 - 10) ∧
    ¬Confined whole 512 () 97 1 := by
  apply And.intro
  · intro confined
    exact (fits_of_confined confined).2.1 rfl
  apply And.intro
  · intro confined
    exact absurd (fits_of_confined confined).1 (by decide)
  · intro confined
    have fits := fits_of_confined confined
    have inside := (fits.2.2 (by decide) 97 le_rfl (by decide)).2 15 (by decide)
    exact absurd inside (by decide)

end Ranges

section Clear

variable (size : Nat)

/-- The extents that the loop of `clearBytes` clears in the static buffer, which
has 1024 bytes. -/
def memsets : Nat → Nat → Nat → List (Nat × Nat)
  | 0, _, _ => []
  | remaining + 1, offset, length =>
    if length = 0 then []
    else
      let len := if size < wordAdd offset length then size - offset else length
      (offset, len) :: memsets remaining 0 (length - len)

/-- The same for a call. -/
def clearExtents (partition : Partition) (sectorStart offset length : Nat) : List (Nat × Nat) :=
  if 1024 < size then []
  else
    let (sector, offset) :=
      if size < offset then (wordAdd sectorStart (size / offset), offset % size)
      else (sectorStart, offset)
    if sector < partition.sectors then memsets size (partition.sectors - sector) offset length
    else []

variable (partitions : π → Partition) (p : π) (sectorStart offset length : Nat)

/-- On a reliable device the bytes asked for are cleared, as far as they are in
the partition, and no others, and nothing is cleared behind the buffer. -/
structure ClearsExactly : Prop where
  content : ∀ s : PartitionCache π size, s.Reliable →
    (s.clearBytes partitions p sectorStart offset length).1.device.content =
      clear (partitions p) sectorStart offset length s.device.content
  buffer : ∀ extent ∈ clearExtents size (partitions p) sectorStart offset length,
    extent.1 + extent.2 ≤ 1024

/-- There is nothing to clear in the partition, or the bytes start in the sector
given and end below the end of the words. -/
def Clearable (partition : Partition) : Prop :=
  length = 0 ∨
    if 1024 < size then partition.sectors * size ≤ sectorStart * size + offset
    else partition.sectors ≤ sectorStart ∨ (offset ≤ size ∧ offset + length < 2 ^ 32)

variable {size} {partitions} {p} {sectorStart} {offset} {length}

/-- Nothing is to be cleared in a partition that ends before the first byte. -/
theorem clear_nothing {partition : Partition}
    (empty : length = 0 ∨ partition.sectors * size ≤ sectorStart * size + offset)
    (content : Nat → Sector size) :
    clear partition sectorStart offset length content = content := by
  funext a i
  rw [clear, if_neg]
  intro cleared
  obtain ⟨inside, low, high⟩ := cleared
  cases empty with
  | inl none =>
    rw [none] at high
    omega
  | inr ended =>
    have row : a - partition.lbaStart + 1 ≤ partition.sectors := by
      have start := inside.1
      have stop := inside.2
      omega
    have rows := Nat.mul_le_mul_right size row
    rw [Nat.succ_mul] at rows
    have := i.isLt
    omega

/-- The loop leaves zero what is zero. -/
theorem clearLoop_zero (remaining : Nat) {lbaStart : Nat} {device : BlockDevice size}
    (reliable : ∀ k, device.outcome k = none) (sector offset length bytesCleared : Nat) {a : Nat}
    {i : Fin size} (zero : device.content a i = 0) :
    (clearLoop lbaStart remaining device sector offset length bytesCleared).1.content a i = 0 := by
  induction remaining generalizing device sector offset length bytesCleared with
  | zero => exact zero
  | succ remaining ih =>
    rw [clearLoop]
    split
    · exact zero
    · apply ih (fun k => by rw [clearStep_outcome, reliable k])
      rw [clearStep_content reliable, zero]
      exact ite_self _

/-- The first byte is cleared by the first step. -/
theorem clearLoop_first {remaining lbaStart sector : Nat} {device : BlockDevice size}
    (reliable : ∀ k, device.outcome k = none) (some : 0 < remaining) (positive : 0 < length)
    (bytesCleared : Nat) {i : Fin size} (start : i = offset) :
    (clearLoop lbaStart remaining device sector offset length bytesCleared).1.content
      (wordAdd lbaStart sector) i = 0 := by
  cases remaining with
  | zero => cases some
  | succ remaining =>
    have below := i.isLt
    rw [clearLoop, if_neg (Nat.pos_iff_ne_zero.mp positive)]
    apply clearLoop_zero _ (fun k => by rw [clearStep_outcome, reliable k])
    rw [clearStep_content reliable, if_pos]
    refine ⟨rfl, by omega, ?_⟩
    split
    · omega
    · omega

/-- In a range that does not wrap the buffer is not left. -/
theorem memsets_inside (remaining : Nat) (small : offset ≤ size) (word : offset + length < 2 ^ 32) :
    ∀ extent ∈ memsets size remaining offset length, extent.1 + extent.2 ≤ size := by
  induction remaining generalizing offset length with
  | zero =>
    intro extent member
    cases member
  | succ remaining ih =>
    intro extent member
    rw [memsets, wordAdd_eq word] at member
    split at member
    · cases member
    · cases List.mem_cons.mp member with
      | inl here =>
        rw [here]
        dsimp only
        split
        · omega
        · omega
      | inr later =>
        apply ih (Nat.zero_le _) _ extent later
        split
        · omega
        · omega

theorem clearsExactly_of_clearable (geometry : Geometry size partitions)
    (start : sectorStart < 2 ^ 32)
    (clearable : Clearable size sectorStart offset length (partitions p)) :
    ClearsExactly size partitions p sectorStart offset length := by
  cases clearable with
  | inl none =>
    have unused : ∀ remaining offset, memsets size remaining offset length = [] := by
      intro remaining offset
      cases remaining with
      | zero => rfl
      | succ remaining => rw [memsets, if_pos none]
    have unchanged : ∀ lbaStart remaining (device : BlockDevice size) sector offset bytesCleared,
        (clearLoop lbaStart remaining device sector offset length bytesCleared).1 = device := by
      intro lbaStart remaining device sector offset bytesCleared
      cases remaining with
      | zero => rfl
      | succ remaining => rw [clearLoop, if_pos none]
    constructor
    · intro s reliable
      rw [clear_nothing (.inl none)]
      simp only [clearBytes]
      split
      · rfl
      · split
        · split
          · exact congrArg BlockDevice.content (unchanged ..)
          · rfl
        · split
          · exact congrArg BlockDevice.content (unchanged ..)
          · rfl
    · intro extent member
      unfold clearExtents at member
      simp [unused] at member
  | inr clearable =>
    split at clearable
    case isTrue large =>
      constructor
      · intro s reliable
        rw [clear_nothing (.inr clearable), clearBytes, if_pos large]
      · intro extent member
        rw [clearExtents, if_pos large] at member
        cases member
    case isFalse small =>
      cases clearable with
      | inl behind =>
        have shifted : size < offset → wordAdd sectorStart (size / offset) = sectorStart := by
          intro far
          rw [Nat.div_eq_of_lt far, wordAdd_eq (by omega), Nat.add_zero]
        have ended : (partitions p).sectors * size ≤ sectorStart * size + offset := by
          have rows := Nat.mul_le_mul_right size behind
          omega
        constructor
        · intro s reliable
          rw [clear_nothing (.inr ended), clearBytes, if_neg small]
          by_cases far : size < offset
          · simp only [if_pos far, shifted far, if_neg (Nat.not_lt.mpr behind)]
          · simp only [if_neg far, if_neg (Nat.not_lt.mpr behind)]
        · intro extent member
          rw [clearExtents, if_neg small] at member
          by_cases far : size < offset
          · simp [if_pos far, shifted far, Nat.not_lt.mpr behind] at member
          · simp [if_neg far, Nat.not_lt.mpr behind] at member
      | inr fits =>
        have supported : size ≤ 1024 := Nat.le_of_not_lt small
        constructor
        · intro s reliable
          exact clearBytes_content p sectorStart geometry reliable fits.1 fits.2 supported
        · intro extent member
          rw [clearExtents, if_neg small, if_neg (Nat.not_lt.mpr fits.1)] at member
          dsimp only at member
          split at member
          · exact Nat.le_trans (memsets_inside _ fits.1 fits.2 extent member) supported
          · cases member

/-- A device that never fails, all of whose bytes are 1. -/
def allOnes (size : Nat) : BlockDevice size := ⟨fun _ _ => 1, fun _ => none, 0⟩

theorem clearable_of_clearsExactly (geometry : Geometry size partitions)
    (start : sectorStart < 2 ^ 32) (word : length < 2 ^ 32)
    (exactly : ClearsExactly size partitions p sectorStart offset length) :
    Clearable size sectorStart offset length (partitions p) := by
  have nonempty : 0 < size := by
    obtain ⟨bits, _, power⟩ := geometry.sectorSize
    rw [power]
    exact Nat.two_pow_pos bits
  have inside := geometry.inside p
  have content := exactly.content (initial (allOnes size)) fun _ => rfl
  apply or_iff_not_imp_left.mpr
  intro positive
  split
  case isTrue large =>
    apply Nat.le_of_not_lt
    intro reaches
    have row : (sectorStart * size + offset) / size < (partitions p).sectors :=
      (Nat.div_lt_iff_lt_mul nonempty).mpr reaches
    have first := congrFun (congrFun content ((partitions p).lbaStart +
      (sectorStart * size + offset) / size)) ⟨(sectorStart * size + offset) % size,
        Nat.mod_lt _ nonempty⟩
    rw [clearBytes, if_pos large, clear, if_pos] at first
    · exact absurd (show (1 : BitVec 8) = 0 from first) (by decide)
    · have split := Nat.div_add_mod' (sectorStart * size + offset) size
      rw [Cleared, Nat.add_sub_cancel_left]
      dsimp only
      rw [split]
      exact ⟨⟨Nat.le_add_right .., Nat.add_lt_add_left row _⟩, le_rfl,
        Nat.lt_add_of_pos_right (Nat.pos_of_ne_zero positive)⟩
  case isFalse small =>
    apply or_iff_not_imp_left.mpr
    intro reaches
    have below : sectorStart < (partitions p).sectors := Nat.lt_of_not_le reaches
    have notFar : ¬size < offset := by
      intro far
      have shifted : wordAdd sectorStart (size / offset) = sectorStart := by
        rw [Nat.div_eq_of_lt far, wordAdd_eq (by omega), Nat.add_zero]
      have lba : wordAdd (partitions p).lbaStart sectorStart =
          (partitions p).lbaStart + sectorStart := wordAdd_eq (by omega)
      have first := congrFun (congrFun content ((partitions p).lbaStart + sectorStart))
        ⟨offset % size, Nat.mod_lt _ nonempty⟩
      rw [clearBytes, if_neg small] at first
      simp only [if_pos far, shifted, if_pos below] at first
      have zero : (clearLoop (partitions p).lbaStart ((partitions p).sectors - sectorStart)
          (allOnes size) sectorStart (offset % size) length 0).1.content
            (wordAdd (partitions p).lbaStart sectorStart)
            ⟨offset % size, Nat.mod_lt _ nonempty⟩ = 0 :=
        clearLoop_first (fun _ => rfl) (by omega) (Nat.pos_of_ne_zero positive) 0 rfl
      rw [lba] at zero
      rw [show (initial (allOnes size) : PartitionCache π size).device = allOnes size from rfl,
        zero,
        clear, if_neg] at first
      · exact absurd (show (0 : BitVec 8) = 1 from first) (by decide)
      · intro cleared
        have low := cleared.2.1
        rw [Nat.add_sub_cancel_left] at low
        have less := Nat.mod_lt offset nonempty
        dsimp only at low
        omega
    apply And.intro (Nat.le_of_not_lt notFar)
    apply Nat.lt_of_not_le
    intro wraps
    have sum : wordAdd offset length ≤ size := by
      rw [wordAdd]
      omega
    have member :
        (offset, length) ∈ clearExtents size (partitions p) sectorStart offset length := by
      obtain ⟨remaining, more⟩ := Nat.exists_eq_add_of_lt below
      rw [clearExtents, if_neg small, if_neg notFar]
      dsimp only
      rw [if_pos below, show (partitions p).sectors - sectorStart = remaining + 1 by omega, memsets,
        if_neg positive, if_neg (Nat.not_lt.mpr sum)]
      exact .head _
    have bound := exactly.buffer _ member
    dsimp only at bound
    omega

/-- Bytes are cleared as asked exactly when there is nothing to clear, or they
start in the sector given. -/
theorem clearsExactly_iff (partitions : π → Partition) (p : π) (sectorStart offset length : Nat)
    (geometry : Geometry size partitions) (start : sectorStart < 2 ^ 32) (word : length < 2 ^ 32) :
    ClearsExactly size partitions p sectorStart offset length ↔
      Clearable size sectorStart offset length (partitions p) :=
  ⟨clearable_of_clearsExactly geometry start word, clearsExactly_of_clearable geometry start⟩

/-- A hundred bytes across a sector boundary. -/
theorem clearsExactly_iff_whole :
    ClearsExactly 512 whole () 3 500 100 ↔ Clearable 512 3 500 100 (whole ()) :=
  clearsExactly_iff whole () 3 500 100 whole_geometry (by decide) (by decide)

/-- From byte 1000 on the second sector is to be cleared, but the first one is. -/
theorem later_sector_missed : ¬ClearsExactly 512 whole () 0 1000 10 := by
  intro exactly
  cases clearable_of_clearsExactly whole_geometry (by decide) (by decide) exactly with
  | inl none => cases none
  | inr clearable => exact absurd clearable (by decide)

end Clear

end Orcos.Guarantees.PartitionRanges
