import Orcos.Source.Partition
import Mathlib.Data.List.Range

/-!
What the public calls of a partition do to a coherent cache: the loops over
several sectors, the flush, the clearing of bytes on the device and the
destructor.
-/
namespace Orcos.Source.PartitionCache
open Lib.Extents

variable {π : Type} {size : Nat} {partitions : π → Partition} {expected : Nat → Sector size}
  {s : PartitionCache π size} {p : π}

section Flush

variable [DecidableEq π]

/-- The entries that a flush of the partition writes. -/
def dirty (p : π) (b : CacheBlock π size) : Bool := b.pPartition = some p && b.modified

/-- No transfer of the flush fails. -/
def FlushSucceeds (s : PartitionCache π size) (p : π) : Prop :=
  ∀ k < s.blocks.countP (dirty p), s.device.outcome (s.device.transfers + k) = none

instance (s : PartitionCache π size) (p : π) : Decidable (s.FlushSucceeds p) :=
  inferInstanceAs (Decidable (∀ k < s.blocks.countP (dirty p),
    s.device.outcome (s.device.transfers + k) = none))

theorem flushBlocks_coherent (done blocks : List (CacheBlock π size)) (device : BlockDevice size)
    (coherent : Source.Coherent partitions expected device.content (done ++ blocks))
    (succeeds : ∀ k < blocks.countP (dirty p), device.outcome (device.transfers + k) = none) :
    Source.Coherent partitions expected (flushBlocks partitions p device blocks).1.content
      (done ++ (flushBlocks partitions p device blocks).2) := by
  induction blocks generalizing done device with
  | nil => exact coherent
  | cons b blocks ih =>
    simp only [flushBlocks]
    split
    · rename_i modified
      have counted : (b :: blocks).countP (dirty p) = blocks.countP (dirty p) + 1 :=
        List.countP_cons_of_pos (by simp [dirty, modified])
      have here : b.address partitions = some (wordAdd (partitions p).lbaStart b.blockStart) := by
        rw [CacheBlock.address, modified.1, Option.map_some]
      have now : device.outcome device.transfers = none := succeeds 0 (by omega)
      have written := (coherent.perm List.perm_middle).clean here
      simp only [BlockDevice.writeBlock, now]
      have rest := ih (done ++ [{ b with modified := false }])
        { device with
          transfers := device.transfers + 1
          content := overwrite device.content (wordAdd (partitions p).lbaStart b.blockStart)
            (sectorsPerBlock size) b.buffer }
        (by simpa using written.perm List.perm_middle.symm)
        fun k bound => by simpa [Nat.add_assoc, Nat.add_comm 1 k] using succeeds (k + 1) (by omega)
      simpa using rest
    · rename_i unmodified
      have counted : (b :: blocks).countP (dirty p) = blocks.countP (dirty p) :=
        List.countP_cons_of_neg (by simpa [dirty] using unmodified)
      have rest := ih (done ++ [b]) device (by simpa using coherent)
        fun k bound => succeeds k (by omega)
      simpa using rest

theorem mem_flushBlocks {device : BlockDevice size} {blocks : List (CacheBlock π size)}
    {b : CacheBlock π size} (member : b ∈ (flushBlocks partitions p device blocks).2) :
    ∃ c ∈ blocks, c.pPartition = b.pPartition ∧ c.blockStart = b.blockStart ∧
      (b.modified = true → c.modified = true ∧ c.pPartition ≠ some p) := by
  induction blocks generalizing device with
  | nil => cases member
  | cons c blocks ih =>
    simp only [flushBlocks] at member
    split at member
    · rcases List.mem_cons.mp member with rfl | later
      · exact ⟨c, .head _, rfl, rfl, fun flag => absurd flag Bool.false_ne_true⟩
      · obtain ⟨d, before, rest⟩ := ih later
        exact ⟨d, .tail _ before, rest⟩
    · rename_i unmodified
      rcases List.mem_cons.mp member with rfl | later
      · exact ⟨b, .head _, rfl, rfl, fun flag => ⟨flag, fun owner => unmodified ⟨owner, flag⟩⟩⟩
      · obtain ⟨d, before, rest⟩ := ih later
        exact ⟨d, .tail _ before, rest⟩

theorem flushBlocks_outcome (device : BlockDevice size) (blocks : List (CacheBlock π size)) :
    (flushBlocks partitions p device blocks).1.outcome = device.outcome := by
  induction blocks generalizing device with
  | nil => rfl
  | cons b blocks ih =>
    simp only [flushBlocks]
    split
    · rw [ih]
      simp only [BlockDevice.writeBlock]
      split
      · rfl
      · rfl
    · rw [ih]

theorem flushCache_coherent (coherent : s.Coherent partitions expected)
    (succeeds : s.FlushSucceeds p) : (s.flushCache partitions p).Coherent partitions expected :=
  flushBlocks_coherent [] s.blocks s.device coherent succeeds

/-- No modified entry of another partition caches a sector of this one. -/
def FlushSeparate (partitions : π → Partition) (s : PartitionCache π size) (p : π) : Prop :=
  ∀ b ∈ s.blocks, b.modified = true → b.pPartition ≠ some p → ∀ a, b.Covers partitions a →
    ¬Inside (partitions p).lbaStart (partitions p).sectors a

/-- After a flush the device has the expected content of the partition. -/
theorem flushCache_stored (coherent : s.Coherent partitions expected)
    (succeeds : s.FlushSucceeds p) (separate : s.FlushSeparate partitions p) {a : Nat}
    (inside : Inside (partitions p).lbaStart (partitions p).sectors a) :
    (s.flushCache partitions p).device.content a = expected a := by
  rcases (flushCache_coherent coherent succeeds).stored a with stored | ⟨b, member, flag, covers⟩
  · exact stored
  · obtain ⟨c, before, owner, start, unowned⟩ := mem_flushBlocks member
    obtain ⟨modified, other⟩ := unowned flag
    have same : c.address partitions = b.address partitions := by
      rw [CacheBlock.address, CacheBlock.address, owner, start]
    have covered : c.Covers partitions a := by
      rw [CacheBlock.Covers, same]
      exact covers
    exact absurd inside (separate c before modified other a covered)

end Flush

section Destroy

variable [DecidableEq π]

/-- No modified entry belongs to the partition. -/
def Written (s : PartitionCache π size) (p : π) : Prop :=
  ∀ b ∈ s.blocks, b.pPartition = some p → b.modified = false

theorem resetBlock_coherent {content : Nat → Sector size} (done blocks : List (CacheBlock π size))
    (coherent : Source.Coherent partitions expected content (done ++ blocks))
    (written : ∀ b ∈ blocks, b.pPartition = some p → b.modified = false) :
    Source.Coherent partitions expected content (done ++ resetBlock p blocks) := by
  induction blocks generalizing done with
  | nil => exact coherent
  | cons b blocks ih =>
    simp only [resetBlock]
    split
    · rename_i owner
      have clean := written b (.head _) owner
      have rest := (coherent.perm List.perm_middle).drop fun flag =>
        absurd (clean.symm.trans flag) Bool.false_ne_true
      refine Coherent.perm (rest.take ?_ rfl ?_ ?_) List.perm_middle.symm
      · intro q other
        cases other
      · intro c _ lba lba' here
        cases here
      · intro lba here
        cases here
    · have rest := ih (done ++ [b]) (by simpa using coherent)
        fun c member => written c (.tail _ member)
      simpa using rest

theorem destroy_coherent (coherent : s.Coherent partitions expected) (written : s.Written p)
    (mountedFileSystem : Bool) : (s.destroy p mountedFileSystem).Coherent partitions expected := by
  rw [destroy]
  split
  · exact resetBlock_coherent [] s.blocks coherent written
  · exact coherent

end Destroy

section Sectors

variable {sector : Nat}

/-- Every transfer of the device succeeds. -/
def Reliable (s : PartitionCache π size) : Prop := ∀ k, s.device.outcome k = none

theorem Reliable.of_others {s' : PartitionCache π size} (reliable : s.Reliable)
    (others : OthersFrom p s s') : s'.Reliable := fun k => by rw [others.1, reliable k]

theorem Reliable.fetchSucceeds (reliable : s.Reliable) : s.FetchSucceeds := by
  simp [FetchSucceeds, reliable _]

/-- No entry of another partition caches a sector of the blocks asked for. -/
def SeparateFrom (partitions : π → Partition) (s : PartitionCache π size) (p : π)
    (sector n : Nat) : Prop :=
  ∀ k, sector ≤ k → k < sector + n → s.Separate partitions p (blockNum size k)

theorem SeparateFrom.next {s' : PartitionCache π size} {n : Nat}
    (separate : s.SeparateFrom partitions p sector (n + 1)) (others : OthersFrom p s s') :
    s'.SeparateFrom partitions p (sector + 1) n :=
  fun k low high => (separate k (by omega) (by omega)).mono others

variable [DecidableEq π]

variable (partitions) in
theorem Reliable.accessSector (reliable : s.Reliable) (p : π) (sector : Nat)
    (operation : Operation size) :
    isError (s.accessSector partitions p sector operation).2.2 = false := by
  have written : (writeBack partitions s.device (s.block 4)).2 = cOk := by
    simp only [writeBack, BlockDevice.writeBlock, reliable _]
    split
    · split
      · rfl
      · rfl
    · rfl
  have cached : (s.cacheBlock partitions p (blockNum size sector)).2 = cOk := by
    simp only [cacheBlock, written, BlockDevice.readBlock, writeBack_outcome, reliable _]
    rfl
  simp only [PartitionCache.accessSector, cached]
  split
  · rfl
  · rfl

/-- A sector access on a reliable device succeeds. -/
theorem accessSector_reliable (geometry : Geometry size partitions) (reliable : s.Reliable)
    (coherent : s.Coherent partitions expected) (below : sector < (partitions p).sectors)
    (separate : s.Separate partitions p (blockNum size sector)) (operation : Operation size) :
    let a := (partitions p).lbaStart + sector
    let (s', read, error) := s.accessSector partitions p sector operation
    error = cOk ∧ read = operation.answer expected a ∧
      s'.Coherent partitions (operation.applied expected a) := by
  have fine := reliable.accessSector partitions p sector operation
  rcases accessSector_coherent geometry coherent below separate (fun _ => reliable.fetchSucceeds)
    operation with ⟨failed, _⟩ | accessed
  · exact absurd (fine.symm.trans failed) Bool.false_ne_true
  · exact accessed

theorem readLoop_reliable (geometry : Geometry size partitions) (n : Nat) (reliable : s.Reliable)
    (coherent : s.Coherent partitions expected) (below : sector + n ≤ (partitions p).sectors)
    (separate : s.SeparateFrom partitions p sector n) :
    let (s', read, error) := readLoop partitions p n s sector
    error = cOk ∧ read = (List.range' ((partitions p).lbaStart + sector) n).map expected ∧
      s'.Coherent partitions expected ∧ s'.Reliable := by
  induction n generalizing s sector with
  | zero => exact ⟨rfl, rfl, coherent, reliable⟩
  | succ n ih =>
    have others := others_accessSector partitions s p sector .read
    obtain ⟨_, read, accessed⟩ := accessSector_reliable geometry reliable coherent (by omega)
      (separate sector (by omega) (by omega)) .read
    obtain ⟨fine', read', kept⟩ := ih (reliable.of_others others) accessed (by omega)
      (separate.next others)
    have accepted := reliable.accessSector partitions p sector .read
    simp only [readLoop, accepted, Bool.false_eq_true, if_false]
    refine ⟨fine', ?_, kept⟩
    rw [List.range'_succ, List.map_cons]
    exact congrArg₂ (· ++ ·) read read'

theorem writeLoop_reliable (geometry : Geometry size partitions) (n : Nat) (reliable : s.Reliable)
    (coherent : s.Coherent partitions expected) (below : sector + n ≤ (partitions p).sectors)
    (separate : s.SeparateFrom partitions p sector n) (buffer : Nat → Sector size) :
    let (s', error) := writeLoop partitions p n s sector buffer
    error = cOk ∧ s'.Coherent partitions
      (overwrite expected ((partitions p).lbaStart + sector) n buffer) ∧ s'.Reliable := by
  induction n generalizing s sector buffer expected with
  | zero =>
    rw [overwrite_nothing]
    exact ⟨rfl, coherent, reliable⟩
  | succ n ih =>
    have others :=
      others_accessSector partitions s p sector (.write (buffer 0))
    obtain ⟨_, _, accessed⟩ := accessSector_reliable geometry reliable coherent (by omega)
      (separate sector (by omega) (by omega)) (.write (buffer 0))
    have rest := ih (reliable.of_others others) accessed (by omega) (separate.next others)
      fun i => buffer (i + 1)
    have accepted :=
      reliable.accessSector partitions p sector (.write (buffer 0))
    simp only [writeLoop, accepted, Bool.false_eq_true, if_false]
    rw [← overwrite_update]
    exact rest

end Sectors

section Clear

/-- The byte `i` of the device sector `a` is one of those to be cleared: they
start `offset` bytes after the start of a sector and end with the partition. -/
def Cleared (size : Nat) (partition : Partition) (sectorStart offset length a i : Nat) : Prop :=
  Inside partition.lbaStart partition.sectors a ∧
    Inside (sectorStart * size + offset) length ((a - partition.lbaStart) * size + i)

instance (partition : Partition) (sectorStart offset length a i : Nat) :
    Decidable (Cleared size partition sectorStart offset length a i) :=
  inferInstanceAs (Decidable (_ ∧ _))

/-- The content with the bytes of the partition cleared. -/
def clear (partition : Partition) (sectorStart offset length : Nat)
    (content : Nat → Sector size) : Nat → Sector size := fun a i =>
  if Cleared size partition sectorStart offset length a i then 0 else content a i

variable {lbaStart sector offset length remaining : Nat} {a : Nat} {i : Fin size}

/-- Nothing is cleared in the sectors before the first one. -/
theorem not_cleared_of_lt {partition : Partition} (before : a < partition.lbaStart + sector) :
    ¬Cleared size partition sector offset length a i := by
  rintro ⟨inside, low, _⟩
  have start := inside.1
  have rows := Nat.mul_le_mul_right size (show a - partition.lbaStart + 1 ≤ sector by omega)
  rw [Nat.succ_mul] at rows
  have := i.isLt
  omega

/-- Behind its first sector an extent looks like one that starts there. -/
theorem cleared_next {sectors : Nat} (small : offset ≤ size) (behind : a ≠ lbaStart + sector) :
    Cleared size ⟨lbaStart, sectors⟩ (sector + 1) 0
      (length - if size < offset + length then size - offset else length) a i ↔
    Cleared size ⟨lbaStart, sectors⟩ sector offset length a i := by
  by_cases before : a < lbaStart + sector
  · constructor
    · intro cleared
      exact absurd cleared (not_cleared_of_lt (by simp only; omega))
    · intro cleared
      exact absurd cleared (not_cleared_of_lt before)
  · have rows := Nat.mul_le_mul_right size (show sector + 1 ≤ a - lbaStart by omega)
    rw [Nat.succ_mul] at rows
    simp only [Cleared, Inside, Nat.succ_mul]
    split
    · omega
    · omega

theorem clearStep_outcome (device : BlockDevice size) (lba len : Nat) :
    (clearStep device lba offset len).outcome = device.outcome := by
  simp only [clearStep, BlockDevice.readBlock, BlockDevice.writeBlock]
  repeat' split
  all_goals rfl

theorem clearStep_content {device : BlockDevice size} (reliable : ∀ k, device.outcome k = none)
    (lba len a : Nat) (i : Fin size) : (clearStep device lba offset len).content a i =
      if a = lba ∧ offset ≤ i ∧ i < offset + len then 0 else device.content a i := by
  have same : Inside lba 1 a ↔ a = lba := by
    simp only [Inside]
    omega
  by_cases filled : 0 < offset ∨ len < size
  · simp only [clearStep, BlockDevice.readBlock, BlockDevice.writeBlock, reliable _, if_pos filled]
    by_cases here : a = lba
    · subst here
      rw [overwrite_inside (same.mpr rfl), clearSector, overwrite_inside ⟨Nat.le_refl 0, by decide⟩]
      simp only [true_and]
      rfl
    · rw [overwrite_outside fun inside => here (same.mp inside), if_neg fun all => here all.1]
  · simp only [clearStep, BlockDevice.writeBlock, reliable _, if_neg filled]
    by_cases here : a = lba
    · subst here
      have := i.isLt
      rw [overwrite_inside (same.mpr rfl), clearSector, if_pos (by omega), if_pos (by omega)]
    · rw [overwrite_outside fun inside => here (same.mp inside), if_neg fun all => here all.1]

theorem clearLoop_content (remaining : Nat) {device : BlockDevice size}
    (reliable : ∀ k, device.outcome k = none) (small : offset ≤ size)
    (word : offset + length < 2 ^ 32) (inside : lbaStart + sector + remaining ≤ 2 ^ 32)
    (bytesCleared : Nat) :
    (clearLoop lbaStart remaining device sector offset length bytesCleared).1.content =
      clear ⟨lbaStart, sector + remaining⟩ sector offset length device.content := by
  induction remaining generalizing device sector offset length bytesCleared with
  | zero =>
    funext a i
    rw [clear, if_neg]
    · rfl
    · intro cleared
      exact absurd cleared (not_cleared_of_lt cleared.1.2)
  | succ remaining ih =>
    rw [clearLoop]
    split
    · rename_i none
      subst none
      funext a i
      rw [clear, if_neg fun cleared => by have := cleared.2.1; have := cleared.2.2; omega]
    · have lba : wordAdd lbaStart sector = lbaStart + sector := wordAdd_eq (by omega)
      have sum : wordAdd offset length = offset + length := wordAdd_eq word
      simp only [lba, sum]
      rw [ih (fun k => by rw [clearStep_outcome, reliable k]) (Nat.zero_le _) (by split <;> omega)
        (by omega), Nat.add_right_comm]
      funext a i
      simp only [clear, clearStep_content reliable]
      by_cases here : a = lbaStart + sector
      · rw [if_neg (not_cleared_of_lt (by simp only; omega))]
        refine if_congr ?_ rfl rfl
        subst here
        have := i.isLt
        simp only [Cleared, Inside, Nat.add_sub_cancel_left, true_and]
        split
        · omega
        · omega
      · rw [if_neg fun all : a = lbaStart + sector ∧ _ => here all.1]
        exact if_congr (cleared_next small here) rfl rfl

variable (p sector) in
/-- On a reliable device `clearBytes` clears what it is to clear. -/
theorem clearBytes_content (geometry : Geometry size partitions) (reliable : s.Reliable)
    (small : offset ≤ size) (word : offset + length < 2 ^ 32) (supported : size ≤ 1024) :
    (s.clearBytes partitions p sector offset length).1.device.content =
      clear (partitions p) sector offset length s.device.content := by
  have inside := geometry.inside p
  simp only [clearBytes, Nat.not_lt.mpr supported, Nat.not_lt.mpr small, if_false]
  split
  · rename_i below
    have total : sector + ((partitions p).sectors - sector) = (partitions p).sectors := by omega
    rw [clearLoop_content _ reliable small word (by omega), total]
  · rename_i outside
    funext a i
    rw [clear, if_neg]
    intro cleared
    have := cleared.1.2
    exact absurd cleared (not_cleared_of_lt (by omega))

/-- No entry of any partition caches a sector with a byte to be cleared. -/
def ClearSeparate (partitions : π → Partition) (s : PartitionCache π size) (p : π)
    (sectorStart offset length : Nat) : Prop :=
  ∀ b ∈ s.blocks, ∀ a, b.Covers partitions a → ∀ i : Fin size,
    ¬Cleared size (partitions p) sectorStart offset length a i

theorem clearBytes_coherent (geometry : Geometry size partitions) (reliable : s.Reliable)
    (coherent : s.Coherent partitions expected) (small : offset ≤ size)
    (word : offset + length < 2 ^ 32) (supported : size ≤ 1024)
    (separate : s.ClearSeparate partitions p sector offset length) :
    (s.clearBytes partitions p sector offset length).1.Coherent partitions
      (clear (partitions p) sector offset length expected) := by
  have content := clearBytes_content p sector geometry reliable small word supported
  have blocks : (s.clearBytes partitions p sector offset length).1.blocks = s.blocks := by
    simp only [clearBytes]
    repeat' split
    all_goals rfl
  have kept : ∀ b ∈ s.blocks, ∀ a, b.Covers partitions a →
      clear (partitions p) sector offset length expected a = expected a := by
    intro b member a covers
    funext i
    rw [clear, if_neg (separate b member a covers i)]
  rw [Coherent, content, blocks]
  refine ⟨coherent.located, coherent.apart, ?_, ?_⟩
  · intro b member lba here i below
    have inside : Inside lba (sectorsPerBlock size) (lba + i) := ⟨by omega, by omega⟩
    rw [kept b member (lba + i) ⟨lba, here, inside⟩]
    exact coherent.holds b member lba here i below
  · intro a
    rcases coherent.stored a with stored | dirty
    · left
      funext i
      rw [clear, clear, stored]
    · exact .inr dirty

variable (partitions) in
theorem clearBytes_outcome (s : PartitionCache π size) (p : π) (sector offset length : Nat) :
    (s.clearBytes partitions p sector offset length).1.device.outcome = s.device.outcome := by
  have loop : ∀ lbaStart remaining (device : BlockDevice size) sector offset length bytesCleared,
      (clearLoop lbaStart remaining device sector offset length bytesCleared).1.outcome =
        device.outcome := by
    intro lbaStart remaining
    induction remaining with
    | zero =>
      intros
      rfl
    | succ remaining ih =>
      intro device sector offset length bytesCleared
      rw [clearLoop]
      split
      · rfl
      · rw [ih, clearStep_outcome]
  simp only [clearBytes]
  split
  · rfl
  · split
    · split
      · exact loop ..
      · rfl
    · split
      · exact loop ..
      · rfl

end Clear

end Orcos.Source.PartitionCache
