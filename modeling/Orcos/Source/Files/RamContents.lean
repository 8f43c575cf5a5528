import Orcos.Source.Files.RamFilesystem
import Orcos.Source.Files.RamFile

/-!
# How block chains grow

What `getNextBlock` does to a chain: it goes along and puts free blocks behind the end.
The number zero is also the mark of the end, so the chain grows as it should as long as
the block zero is not put behind another one.
-/
namespace Orcos.Source.Files
open Lib.Successors RamFilesystem

/-- The blocks were put behind the chain, and nothing else was done. -/
structure Grown (fs : RamFilesystem) (chain : List Nat) (fs' : RamFilesystem) (added : List Nat) :
    Prop where
  sized : fs'.Sized
  counted : fs'.Counted
  size : fs'.numBlocks = fs.numBlocks
  linked : Linked fs'.next (chain ++ added)
  fresh : ∀ x ∈ added, ¬fs.Used x
  used : ∀ x, fs'.Used x ↔ fs.Used x ∨ x ∈ added
  same : ∀ x, fs.Used x → x ∉ chain → fs'.next x = fs.next x

/-- Another free block than the block zero is remembered, and handed out once. -/
def spare (fs : RamFilesystem) : Nat :=
  if (fs.superBlockChain 0).nextFreeBlock = 0 ∨ (fs.superBlockChain 0).nextFreeBlock = 255 then 0
  else 1

/-- So many blocks can be passed, from one with so many behind it, without the block
zero put behind another one. -/
def Passable (fs : RamFilesystem) (ends behind : Nat) : Prop := fs.Used 0 ∨ ends ≤ behind + spare fs

variable {fs fs' fs'' : RamFilesystem} {chain front behind added added' : List Nat} {cur ends : Nat}

namespace Grown

theorem refl (sized : fs.Sized) (counted : fs.Counted) (linked : Linked fs.next chain) :
    Grown fs chain fs [] :=
  ⟨sized, counted, rfl, by rwa [List.append_nil], fun _ member => (List.not_mem_nil member).elim,
    fun x => by simp, fun _ _ _ => rfl⟩

theorem trans (first : Grown fs chain fs' added) (second : Grown fs' (chain ++ added) fs'' added') :
    Grown fs chain fs'' (added ++ added') := by
  refine ⟨second.sized, second.counted, second.size.trans first.size, ?_, fun x member => ?_,
    fun x => ?_, fun x known outside => ?_⟩
  · rw [← List.append_assoc]
    exact second.linked
  · rcases List.mem_append.mp member with early | late
    · exact first.fresh x early
    · exact fun known => second.fresh x late ((first.used x).mpr (.inl known))
  · rw [second.used, first.used, List.mem_append, or_assoc]
  · have apart : x ∉ chain ++ added := fun inside =>
      (List.mem_append.mp inside).elim outside fun new => first.fresh x new known
    exact (second.same x ((first.used x).mpr (.inl known)) apart).trans
      (first.same x known outside)

theorem used_chain (grown : Grown fs chain fs' added) (used : ∀ x ∈ chain, fs.Used x) :
    ∀ x ∈ chain ++ added, fs'.Used x := by
  intro x member
  rw [grown.used]
  exact (List.mem_append.mp member).imp_left (used x)

/-- A free block other than zero is taken and put behind the last one. -/
theorem take {block superBlock : Nat} (sized : fs.Sized) (counted : fs.Counted)
    (linked : Linked fs.next (front ++ [cur])) (used : ∀ x ∈ front ++ [cur], fs.Used x)
    (inside : block < fs.numBlocks) (free : fs.Free block) (nonzero : block ≠ 0)
    (place : superBlock = block / numBlocksPerSuperblock) :
    Grown fs (front ++ [cur]) (fs.take superBlock block cur) [block] := by
  subst place
  have fresh : ¬fs.Used block := fun known => known.2 free
  have last : fs.Used cur := used cur (by simp)
  have other : block ≠ cur := fun here => fresh (here ▸ last)
  refine ⟨sized.take, counted.take sized inside free (.inr last), rfl, ?_, ?_, fun x => ?_,
    fun x known outside => ?_⟩
  · rw [List.append_assoc]
    refine linked.replace (fun x member => ?_) ⟨?_, next_take sized inside other, trivial⟩
    · have distinct := List.nodup_append.mp linked.nodup
      exact next_take_of_ne (fun here => fresh (here ▸ used x (by simp [member])))
        (distinct.2.2 x member cur (by simp))
    · rw [next_take_prev sized last, if_neg nonzero]
      rfl
  · rintro x member
    rwa [List.mem_singleton.mp member]
  · rw [used_take sized inside free (.inr last), List.mem_singleton]
  · exact next_take_of_ne (fun here => fresh (here ▸ known)) fun here => outside (by simp [here])

/-- A free block is taken for a new chain. -/
theorem first {block superBlock : Nat} (sized : fs.Sized) (counted : fs.Counted)
    (inside : block < fs.numBlocks) (free : fs.Free block)
    (place : superBlock = block / numBlocksPerSuperblock) :
    Grown fs [] (fs.take superBlock block noBlock) [block] := by
  subst place
  have fresh : ¬fs.Used block := fun known => known.2 free
  refine ⟨sized.take, counted.take sized inside free (.inl rfl), rfl,
    ⟨next_take sized inside (ne_noBlock sized inside), trivial⟩, ?_, fun x => ?_,
    fun x known _ => ?_⟩
  · rintro x member
    rwa [List.mem_singleton.mp member]
  · rw [used_take sized inside free (.inl rfl), List.mem_singleton]
  · exact next_take_of_ne (fun here => fresh (here ▸ known)) (ne_noBlock sized known.1)

end Grown

/-- From a block with one behind it the next one is found, and nothing is done. -/
theorem getNextBlock_inner {y : Nat} {allocate : Bool} (sized : fs.Sized) (used : fs.Used cur)
    (next : fs.Used y) (leads : fs.next cur = some y) : fs.getNextBlock cur allocate = (fs, y) := by
  have known := ne_noBlock sized used.1
  have chained : fs.blockChain cur = y := by
    rw [blockChain_eq known, leads]
    rfl
  have inner : ¬((y = 0 ∨ y = noBlock) ∧ allocate) := fun last =>
    last.1.elim (ne_zero_of_next leads) (ne_noBlock sized next.1)
  rw [getNextBlock, if_pos known, chained, if_neg inner]

theorem getNextBlock_last (sized : fs.Sized) (used : fs.Used cur) (last : fs.next cur = none) :
    fs.getNextBlock cur true = fs.allocateBlock cur := by
  have known := ne_noBlock sized used.1
  have chained : fs.blockChain cur = 0 := by
    rw [blockChain_eq known, last]
    rfl
  rw [getNextBlock, if_pos known, if_pos ⟨.inl chained, rfl⟩]

/-- With another free block remembered the block zero is not handed out. -/
theorem allocateBlock_ne_zero {block prev : Nat} (counted : fs.Counted) (sized : fs.Sized)
    (inside : block < fs.numBlocks) (free : fs.Free block)
    (result : (fs.allocateBlock prev).2 = block) (other : spare fs ≠ 0) : block ≠ 0 := by
  rintro rfl
  have below : 0 < fs.superBlocks := by
    rw [sized.superBlocks]
    exact Nat.succ_pos _
  have room : 0 < (fs.superBlockChain 0).freeBlocks := by
    rw [counted.counts 0 below, freeIn, Finset.card_pos]
    exact ⟨0, Finset.mem_filter.mpr ⟨Finset.mem_range.mpr inside, Nat.zero_div _, free⟩⟩
  have search : fs.superBlockWithRoom = some 0 := by
    obtain ⟨n, more⟩ : ∃ n, fs.superBlocks = n + 1 := ⟨fs.superBlocks - 1, by omega⟩
    rw [superBlockWithRoom, more, List.range_succ_eq_map]
    exact List.find?_cons_of_pos (decide_eq_true room)
  have hint : (fs.superBlockChain 0).nextFreeBlock ≠ 0 ∧
      (fs.superBlockChain 0).nextFreeBlock ≠ 255 := by
    unfold spare at other
    split at other
    · exact absurd rfl other
    · next neither => exact not_or.mp neither
  rw [allocateBlock, search] at result
  simp only [blockOf, if_pos hint.2, Nat.zero_mul, Nat.zero_add] at result
  exact hint.1 result

theorem freeBlocks_pos {block : Nat} (sized : fs.Sized) (counted : fs.Counted)
    (inside : block < fs.numBlocks) (free : fs.Free block) : 0 < fs.freeBlocks := by
  rw [counted.total_eq sized, Finset.card_pos]
  exact ⟨block, Finset.mem_filter.mpr ⟨Finset.mem_range.mpr inside, free⟩⟩

theorem freeBlocks_take {block superBlock prev : Nat} (sized : fs.Sized) (counted : fs.Counted)
    (some_ : 0 < fs.freeBlocks) :
    (fs.take superBlock block prev).freeBlocks = fs.freeBlocks - 1 := by
  have bound := counted.total_le sized
  have words := sized.words
  unfold noBlock at words
  exact wordSub_eq some_ (by omega)

/-- What passing a block does: the file system is as before when there is no block left,
or the chain has grown by the block that comes next if it was free. -/
theorem getNextBlock_grown (sized : fs.Sized) (counted : fs.Counted)
    (linked : Linked fs.next (front ++ cur :: behind))
    (used : ∀ x ∈ front ++ cur :: behind, fs.Used x)
    (passable : Passable fs (ends + 1) behind.length) :
    (fs.getNextBlock cur true = (fs, noBlock) ∧ behind = [] ∧ fs.freeBlocks = 0) ∨
      ∃ fs' next behind', fs.getNextBlock cur true = (fs', next) ∧ next ≠ noBlock ∧
        Grown fs (front ++ cur :: behind) fs' (if fs.Free next then [next] else []) ∧
        (front ++ cur :: behind) ++ (if fs.Free next then [next] else []) =
          (front ++ [cur]) ++ next :: behind' ∧
        Passable fs' ends behind'.length ∧ (fs.Free next → behind = []) ∧
        behind.length + fs.freeBlocks = behind'.length + fs'.freeBlocks + 1 := by
  have here : fs.Used cur := used cur (by simp)
  cases behind with
  | nil =>
    have last : fs.next cur = none := linked.of_append.1
    rw [getNextBlock_last sized here last]
    rcases allocateBlock_cases sized counted cur with ⟨block, inside, free, result⟩ | ⟨full, result⟩
    · have nonzero : block ≠ 0 := by
        rcases passable with taken | short
        · rintro rfl
          exact taken.2 free
        · refine allocateBlock_ne_zero counted sized inside free (by rw [result]) ?_
          rw [List.length_nil] at short
          omega
      have grown := Grown.take sized counted linked used inside free nonzero rfl
      have some_ := freeBlocks_pos sized counted inside free
      refine .inr ⟨_, block, [], result, ne_noBlock sized inside, ?_, ?_, ?_,
        fun _ => rfl, ?_⟩
      · rw [if_pos free]
        exact grown
      · rw [if_pos free]
      · refine passable.imp (fun taken => (grown.used 0).mpr (.inl taken)) fun short => ?_
        rw [List.length_nil] at short
        have most : spare fs ≤ 1 := by
          unfold spare
          split
          · omega
          · omega
        omega
      · rw [freeBlocks_take sized counted some_]
        omega
    · have none_ : fs.freeBlocks = 0 := by
        rw [counted.total_eq sized, Finset.card_eq_zero, Finset.filter_eq_empty_iff]
        exact fun x member => full x (Finset.mem_range.mp member)
      exact .inl ⟨result, rfl, none_⟩
  | cons y behind =>
    have leads : fs.next cur = some y := linked.of_append.1
    have next : fs.Used y := used y (by simp)
    refine .inr ⟨fs, y, behind, getNextBlock_inner sized here next leads, ne_noBlock sized next.1,
      ?_, ?_, ?_, fun free => absurd free next.2, ?_⟩
    · rw [if_neg next.2]
      exact .refl sized counted linked
    · rw [if_neg next.2]
      simp
    · refine passable.imp_right fun short => ?_
      rw [List.length_cons] at short
      omega
    · rw [List.length_cons]
      omega

end Orcos.Source.Files

/-! ## What is stored in a ram file

The bytes of a chain are those of its blocks, one after the other. A write puts its bytes
at the place in the chain where the file is, and a read returns those from its place on.
-/
namespace Orcos.Source.Files
open Lib.ByteMemory Lib.Successors RamFilesystem

/-- The bytes of the blocks. -/
def RamDisk.bytes (disk : RamDisk) (blocks : List Nat) : List Byte :=
  blocks.flatMap fun block => bytesAt (disk.buffer block) 0 ramdiskBlockSize

variable {disk disk' : RamDisk} {file : RamFile} {front behind blocks added : List Nat}
  {cur off n : Nat} {bytes piece : List Byte}

section Bytes

theorem bytes_append (disk : RamDisk) (blocks blocks' : List Nat) :
    disk.bytes (blocks ++ blocks') = disk.bytes blocks ++ disk.bytes blocks' :=
  List.flatMap_append

theorem bytes_cons (disk : RamDisk) (cur : Nat) (blocks : List Nat) :
    disk.bytes (cur :: blocks) =
      bytesAt (disk.buffer cur) 0 ramdiskBlockSize ++ disk.bytes blocks := rfl

@[simp] theorem length_bytes (disk : RamDisk) (blocks : List Nat) :
    (disk.bytes blocks).length = ramdiskBlockSize * blocks.length := by
  induction blocks with
  | nil => rfl
  | cons cur blocks ih =>
    rw [bytes_cons, List.length_append, length_bytesAt, ih, List.length_cons, Nat.mul_succ,
      Nat.add_comm]

theorem bytes_congr (same : ∀ block ∈ blocks, disk'.buffer block = disk.buffer block) :
    disk'.bytes blocks = disk.bytes blocks :=
  List.flatMap_congr fun block member => by rw [same block member]

/-- The first bytes of a block and the others. -/
theorem block_split (disk : RamDisk) (cur : Nat) (inside : off ≤ ramdiskBlockSize) :
    bytesAt (disk.buffer cur) 0 ramdiskBlockSize = bytesAt (disk.buffer cur) 0 off ++
      bytesAt (disk.buffer cur) off (ramdiskBlockSize - off) := by
  conv_lhs => rw [← Nat.add_sub_cancel' inside, bytesAt_add, Nat.zero_add]

/-- What stands in front of a place in a block. -/
theorem take_bytes (inside : off ≤ ramdiskBlockSize) :
    (disk.bytes (front ++ cur :: behind)).take (ramdiskBlockSize * front.length + off) =
      disk.bytes front ++ bytesAt (disk.buffer cur) 0 off := by
  rw [bytes_append, bytes_cons, block_split disk cur inside, List.append_assoc, ← List.append_assoc]
  apply List.take_left'
  rw [List.length_append, length_bytes, length_bytesAt]

/-- What stands from a place in a block on. -/
theorem drop_bytes (inside : off ≤ ramdiskBlockSize) :
    (disk.bytes (front ++ cur :: behind)).drop (ramdiskBlockSize * front.length + off) =
      bytesAt (disk.buffer cur) off (ramdiskBlockSize - off) ++ disk.bytes behind := by
  rw [bytes_append, bytes_cons, block_split disk cur inside, List.append_assoc, ← List.append_assoc]
  apply List.drop_left'
  rw [List.length_append, length_bytes, length_bytesAt]

@[simp] theorem fs_store {place : Nat} : (disk.store cur place bytes).fs = disk.fs := rfl

@[simp] theorem buffer_store {place : Nat} :
    (disk.store cur place bytes).buffer cur = copyInto (disk.buffer cur) place bytes := by
  simp [RamDisk.store]

theorem buffer_store_of_ne {place block : Nat} (other : block ≠ cur) :
    (disk.store cur place bytes).buffer block = disk.buffer block := by
  simp [RamDisk.store, other]

theorem bytes_store_front {place : Nat} (outside : cur ∉ front) :
    (disk.store cur place piece).bytes front = disk.bytes front :=
  bytes_congr fun _ member => buffer_store_of_ne fun here => outside (here ▸ member)

/-- A piece put at a place in a block stands behind what was in front of the place. -/
theorem block_store (off : Nat) (piece : List Byte) :
    bytesAt ((disk.store cur off piece).buffer cur) 0 (off + piece.length) =
      bytesAt (disk.buffer cur) 0 off ++ piece := by
  rw [buffer_store, bytesAt_add, Nat.zero_add, bytesAt_copyInto]
  congr 1
  exact AgreeOn.bytesAt fun x _ less => copyInto_changedIn _ _ _ x (.inl (by omega))

/-- A piece that ends in the block. -/
theorem store_partial (outside : cur ∉ front) (fits : off + piece.length ≤ ramdiskBlockSize) :
    (disk.bytes (front ++ cur :: behind)).take (ramdiskBlockSize * front.length + off) ++ piece <+:
      (disk.store cur off piece).bytes (front ++ cur :: blocks) := by
  rw [take_bytes (by omega), List.append_assoc, ← block_store, ← bytes_store_front outside,
    ← take_bytes fits]
  exact List.take_prefix _ _

/-- A piece that fills the block. -/
theorem store_exact (outside : cur ∉ front) (fills : off + piece.length = ramdiskBlockSize) :
    (disk.store cur off piece).bytes (front ++ [cur]) =
      (disk.bytes (front ++ cur :: behind)).take (ramdiskBlockSize * front.length + off) ++
        piece := by
  rw [take_bytes (by omega), List.append_assoc, ← block_store, fills, bytes_append,
    bytes_store_front outside, bytes_cons]
  simp [RamDisk.bytes]

end Bytes

/-- Adding to a position moves it in its block as it moves in the file. -/
theorem wordAdd_mod (position n : Nat) :
    wordAdd position n % ramdiskBlockSize = (position + n) % ramdiskBlockSize :=
  Nat.mod_mod_of_dvd _ (by decide)

/-- The number of blocks whose end is passed from a position on. -/
def endsPassed (position length : Nat) : Nat :=
  (position % ramdiskBlockSize + length) / ramdiskBlockSize

/-- What a write from a place in a chain leaves, with the blocks put behind the chain. -/
structure Wrote (disk : RamDisk) (file : RamFile) (front behind : List Nat) (bytes : List Byte)
    (w : Written) (added : List Nat) : Prop where
  grown : Grown disk.fs (front ++ file.currentBlock :: behind) w.disk.fs added
  place : w.file.currentBlock ∈ (front ++ file.currentBlock :: behind) ++ added
  first : w.file.myBlockNumber = file.myBlockNumber
  reads : w.file.readPos = file.readPos
  size : w.file.filesize = file.filesize
  enough : endsPassed file.position bytes.length ≤ behind.length + disk.fs.freeBlocks →
    w.error = cOk
  more : w.error = cOk → added.length = endsPassed file.position bytes.length - behind.length
  position : w.error = cOk → file.position + bytes.length < 2 ^ 32 →
    w.file.position = file.position + bytes.length
  block : w.error = cOk → ∃ front' behind',
    (front ++ file.currentBlock :: behind) ++ added = front' ++ w.file.currentBlock :: behind' ∧
      front'.length = front.length + endsPassed file.position bytes.length
  stored : w.error = cOk → (disk.bytes (front ++ file.currentBlock :: behind)).take
    (ramdiskBlockSize * front.length + file.position % ramdiskBlockSize) ++ bytes <+:
      w.disk.bytes ((front ++ file.currentBlock :: behind) ++ added)

theorem passes_end (position : Nat) {length : Nat}
    (long : ¬length < ramdiskBlockSize - position % ramdiskBlockSize) :
    endsPassed position length = endsPassed
      (wordAdd position (ramdiskBlockSize - position % ramdiskBlockSize))
      (length - (ramdiskBlockSize - position % ramdiskBlockSize)) + 1 := by
  have inside := Nat.mod_lt position (by decide : 0 < ramdiskBlockSize)
  unfold endsPassed
  rw [wordAdd_mod]
  unfold ramdiskBlockSize at inside long ⊢
  omega

/-- A write of bytes that stay in the block. -/
theorem wrote_partial (sized : disk.fs.Sized) (counted : disk.fs.Counted)
    (linked : Linked disk.fs.next (front ++ file.currentBlock :: behind))
    (short : bytes.length < ramdiskBlockSize - file.position % ramdiskBlockSize)
    (allocated : List Nat) :
    Wrote disk file front behind bytes ⟨cOk,
      disk.store file.currentBlock (file.position % ramdiskBlockSize) bytes,
      { file with position := wordAdd file.position bytes.length }, allocated⟩ [] := by
  have distinct := List.nodup_append.mp linked.nodup
  have outside : file.currentBlock ∉ front := fun member =>
    distinct.2.2 _ member _ (by simp) rfl
  have none_ : endsPassed file.position bytes.length = 0 := Nat.div_eq_of_lt (by omega)
  refine ⟨.refl sized counted linked, by simp, rfl, rfl, rfl, fun _ => rfl,
    fun _ => by simp [none_], fun _ word => wordAdd_eq word,
    fun _ => ⟨front, behind, by simp, by rw [none_]; rfl⟩,
    fun _ => ?_⟩
  rw [List.append_nil]
  exact store_partial outside (by omega)

/-- A write of no bytes. -/
theorem wrote_nothing (sized : disk.fs.Sized) (counted : disk.fs.Counted)
    (linked : Linked disk.fs.next (front ++ file.currentBlock :: behind)) (allocated : List Nat) :
    Wrote disk file front behind [] ⟨cOk, disk, file, allocated⟩ [] := by
  have inside := Nat.mod_lt file.position (by decide : 0 < ramdiskBlockSize)
  have none_ : endsPassed file.position 0 = 0 := Nat.div_eq_of_lt (by simpa using inside)
  refine ⟨.refl sized counted linked, by simp, rfl, rfl, rfl, fun _ => rfl,
    fun _ => by simp [none_], fun _ _ => rfl,
    fun _ => ⟨front, behind, by simp, by rw [List.length_nil, none_]; rfl⟩, fun _ => ?_⟩
  rw [List.append_nil, List.append_nil]
  exact List.take_prefix _ _

/-- A write lets the chain grow, leaves the file at one of its blocks, and puts the bytes
where the file was. -/
theorem writeFrom_wrote (allocated : List Nat) (sized : disk.fs.Sized) (counted : disk.fs.Counted)
    (linked : Linked disk.fs.next (front ++ file.currentBlock :: behind))
    (used : ∀ x ∈ front ++ file.currentBlock :: behind, disk.fs.Used x)
    (passable : Passable disk.fs (endsPassed file.position bytes.length) behind.length) :
    ∃ added, (file.writeFrom disk allocated bytes).allocated = allocated ++ added ∧
      Wrote disk file front behind bytes (file.writeFrom disk allocated bytes) added := by
  induction length : bytes.length using Nat.strong_induction_on
    generalizing disk file front behind allocated bytes with
  | _ n ih =>
    subst length
    rw [RamFile.writeFrom]
    by_cases done : bytes = []
    · rw [if_pos done, done]
      exact ⟨[], by simp, wrote_nothing sized counted linked allocated⟩
    · rw [if_neg done]
      by_cases short : bytes.length < ramdiskBlockSize - file.position % ramdiskBlockSize
      · rw [if_pos short]
        exact ⟨[], by simp, wrote_partial sized counted linked short allocated⟩
      · rw [if_neg short]
        have some_ : bytes.length ≠ 0 := fun zero => done (List.length_eq_zero_iff.mp zero)
        have inside := Nat.mod_lt file.position (by decide : 0 < ramdiskBlockSize)
        obtain ⟨room, left⟩ : ∃ room, room = ramdiskBlockSize -
          file.position % ramdiskBlockSize := ⟨_, rfl⟩
        have count := passes_end file.position short
        rw [← left] at count short ⊢
        have rest : (bytes.drop room).length = bytes.length - room := List.length_drop
        rw [count] at passable
        rcases getNextBlock_grown sized counted linked used passable with
          ⟨result, last, full⟩ |
          ⟨fs', next, behind', result, known, grown, chain, passable', last, room'⟩
        · simp only [result, if_true]
          have failed : cDeviceMemoryExhausted ≠ cOk := by decide
          refine ⟨[], by simp, .refl sized counted linked, by simp, rfl, rfl, rfl, fun enough => ?_,
            fun fine => absurd fine failed, fun fine => absurd fine failed,
            fun fine => absurd fine failed, fun fine => absurd fine failed⟩
          rw [count, last, full] at enough
          cases enough
        · simp only [result, if_neg known]
          have later := grown.used_chain used
          have linked' := grown.linked
          rw [chain] at later linked'
          have shorter : (bytes.drop room).length < bytes.length := by omega
          obtain ⟨added, record, wrote⟩ := @ih _ shorter
            { disk.store file.currentBlock (file.position % ramdiskBlockSize) (bytes.take room) with
              fs := fs' }
            { file with position := wordAdd file.position room, currentBlock := next } _ _ _
            (if disk.fs.Free next then allocated ++ [next] else allocated)
            grown.sized grown.counted linked' later (by rw [rest]; exact passable') rfl
          have distinct := List.nodup_append.mp linked.nodup
          have outside : file.currentBlock ∉ front := fun member =>
            distinct.2.2 _ member _ (by simp) rfl
          refine ⟨(if disk.fs.Free next then [next] else []) ++ added, ?_, ?_, ?_, wrote.first,
            wrote.reads, wrote.size, fun enough => wrote.enough ?_, fun fine => ?_,
            fun fine word => ?_, fun fine => ?_, fun fine => ?_⟩
          · rw [record]
            split
            · simp
            · simp
          · have grown' := wrote.grown
            rw [← chain] at grown'
            exact grown.trans grown'
          · rw [← List.append_assoc, chain]
            exact wrote.place
          · rw [rest]
            change _ ≤ _ + fs'.freeBlocks
            change endsPassed (wordAdd file.position room) _ ≤ _
            omega
          · have more := wrote.more fine
            rw [rest] at more
            change _ = endsPassed (wordAdd file.position room) _ - _ at more
            have lengths := congrArg List.length chain
            simp only [List.length_append, List.length_cons, List.length_nil] at lengths
            rw [List.length_append, more, count]
            split at lengths
            · next free =>
              rw [if_pos free, last free]
              rw [last free] at lengths
              simp only [List.length_cons, List.length_nil] at lengths ⊢
              omega
            · next taken =>
              rw [if_neg taken]
              simp only [List.length_nil] at lengths ⊢
              omega
          · have moved : wordAdd file.position room = file.position + room :=
              wordAdd_eq (by omega)
            have final := wrote.position fine (by
              change wordAdd file.position room + _ < _
              omega)
            rw [final]
            change wordAdd file.position room + _ = _
            omega
          · obtain ⟨front', behind'', whole, length⟩ := wrote.block fine
            refine ⟨front', behind'', ?_, ?_⟩
            · rw [← List.append_assoc, chain]
              exact whole
            · rw [length, count, rest, List.length_append, List.length_singleton]
              change _ + endsPassed (wordAdd file.position room) _ = _
              omega
          · -- the piece filled the block, and the others follow it
            have full : file.position % ramdiskBlockSize + (bytes.take room).length =
                ramdiskBlockSize := by
              rw [List.length_take]
              omega
            have whole := wrote.stored fine
            have start : wordAdd file.position room % ramdiskBlockSize = 0 := by
              rw [wordAdd_mod]
              unfold ramdiskBlockSize at left inside ⊢
              omega
            have front_ : ((disk.store file.currentBlock (file.position % ramdiskBlockSize)
                (bytes.take room)).bytes (front ++ [file.currentBlock] ++ next :: behind')).take
                  (ramdiskBlockSize * (front ++ [file.currentBlock]).length) =
                (disk.bytes (front ++ file.currentBlock :: behind)).take
                  (ramdiskBlockSize * front.length + file.position % ramdiskBlockSize) ++
                    bytes.take room := by
              rw [bytes_append, List.take_left' (length_bytes _ _), store_exact outside full]
            change ((disk.store file.currentBlock (file.position % ramdiskBlockSize)
              (bytes.take room)).bytes _).take (_ + wordAdd file.position room % _) ++
                _ <+: _ at whole
            rw [start, Nat.add_zero, front_, List.append_assoc, List.take_append_drop] at whole
            rw [← List.append_assoc, chain]
            exact whole

/-- A write changes nothing in front of its place in the chain and nothing behind its last
byte. -/
theorem writeFrom_kept (allocated : List Nat) (sized : disk.fs.Sized) (counted : disk.fs.Counted)
    (linked : Linked disk.fs.next (front ++ file.currentBlock :: behind))
    (used : ∀ x ∈ front ++ file.currentBlock :: behind, disk.fs.Used x)
    (passable : Passable disk.fs (endsPassed file.position bytes.length) behind.length)
    {i block y : Nat} (member : (front ++ file.currentBlock :: behind)[i]? = some block)
    (apart : ramdiskBlockSize * i + y <
        ramdiskBlockSize * front.length + file.position % ramdiskBlockSize ∨
      ramdiskBlockSize * front.length + file.position % ramdiskBlockSize + bytes.length ≤
        ramdiskBlockSize * i + y) :
    (file.writeFrom disk allocated bytes).disk.buffer block y = disk.buffer block y := by
  induction length : bytes.length using Nat.strong_induction_on
    generalizing disk file front behind allocated bytes with
  | _ n ih =>
    subst length
    have offset := Nat.mod_lt file.position (by decide : 0 < ramdiskBlockSize)
    -- the piece that goes to the current block
    have piece (part : List Byte) (short : file.position % ramdiskBlockSize + part.length ≤
        ramdiskBlockSize) (least : part.length ≤ bytes.length) :
        (disk.store file.currentBlock (file.position % ramdiskBlockSize) part).buffer block y =
          disk.buffer block y := by
      by_cases here : block = file.currentBlock
      · obtain rfl : i = front.length := by
          have below := (List.getElem?_eq_some_iff.mp member).1
          apply (List.getElem?_inj below linked.nodup).mp
          rw [member, here]
          simp
        rw [here, buffer_store]
        exact copyInto_changedIn _ _ _ y (by omega)
      · rw [buffer_store_of_ne here]
    rw [RamFile.writeFrom]
    by_cases done : bytes = []
    · rw [if_pos done]
    · rw [if_neg done]
      by_cases short : bytes.length < ramdiskBlockSize - file.position % ramdiskBlockSize
      · rw [if_pos short]
        exact piece bytes (by omega) (Nat.le_refl _)
      · rw [if_neg short]
        obtain ⟨room, left⟩ : ∃ room, room = ramdiskBlockSize -
          file.position % ramdiskBlockSize := ⟨_, rfl⟩
        have count := passes_end file.position short
        rw [← left] at count short ⊢
        have rest : (bytes.drop room).length = bytes.length - room := List.length_drop
        have filled : (bytes.take room).length = room := by
          rw [List.length_take]
          omega
        have stored := piece (bytes.take room) (by omega) (by omega)
        rw [count] at passable
        rcases getNextBlock_grown sized counted linked used passable with
          ⟨result, _, _⟩ | ⟨fs', next, behind', result, known, grown, chain, passable', _, _⟩
        · simp only [result, if_true]
          exact stored
        · simp only [result, if_neg known]
          have later := grown.used_chain used
          have linked' := grown.linked
          have member' : ((front ++ file.currentBlock :: behind) ++
              (if disk.fs.Free next then [next] else []))[i]? = some block := by
            rw [List.getElem?_append_left (List.getElem?_eq_some_iff.mp member).1, member]
          rw [chain] at later linked' member'
          have start : wordAdd file.position room % ramdiskBlockSize = 0 := by
            rw [wordAdd_mod]
            unfold ramdiskBlockSize at left offset ⊢
            omega
          refine (@ih _ (by omega)
            { disk.store file.currentBlock (file.position % ramdiskBlockSize) (bytes.take room) with
              fs := fs' }
            { file with position := wordAdd file.position room, currentBlock := next } _ _
            (bytes.drop room) (if disk.fs.Free next then allocated ++ [next] else allocated)
            grown.sized grown.counted linked' later (by rw [rest]; exact passable') member' ?_
            rest).trans stored
          rw [rest, List.length_append, List.length_singleton]
          change _ < _ + wordAdd file.position room % _ ∨ _ + wordAdd file.position room % _ + _ ≤ _
          rw [start]
          unfold ramdiskBlockSize at *
          omega

/-- What comes behind the loop concerns the size only. -/
theorem writeBytes_eq (file : RamFile) (disk : RamDisk) (bytes : List Byte) :
    file.writeBytes disk bytes = { file.writeFrom disk [] bytes with
      file := { (file.writeFrom disk [] bytes).file with
        filesize := if (file.writeFrom disk [] bytes).error = cOk then
          max (file.writeFrom disk [] bytes).file.filesize
            (file.writeFrom disk [] bytes).file.position
        else (file.writeFrom disk [] bytes).file.filesize } } := by
  unfold RamFile.writeBytes
  by_cases fine : (file.writeFrom disk [] bytes).error = cOk
  · by_cases larger : (file.writeFrom disk [] bytes).file.filesize <
        (file.writeFrom disk [] bytes).file.position
    · simp only [if_pos (And.intro fine larger), if_pos fine, max_eq_right larger.le]
    · simp only [if_neg fun both : _ ∧ _ => larger both.2, if_pos fine,
        max_eq_left (Nat.le_of_not_lt larger)]
  · simp only [if_neg fun both : _ ∧ _ => fine both.1, if_neg fine]

/-- A read from a place in a chain leaves the file further on in it and returns the bytes
from the place on, as long as it does not pass the last block. -/
structure Read (disk : RamDisk) (file : RamFile) (front behind : List Nat) (readlength : Nat)
    (r : List Byte × RamFile) : Prop where
  block : ∃ front' behind', front ++ file.currentBlock :: behind =
    front' ++ r.2.currentBlock :: behind' ∧
      front'.length = front.length + endsPassed file.readPos readlength
  first : r.2.myBlockNumber = file.myBlockNumber
  writes : r.2.position = file.position
  size : r.2.filesize = file.filesize
  position : file.readPos + readlength < 2 ^ 32 → r.2.readPos = file.readPos + readlength
  bytes : r.1 = ((disk.bytes (front ++ file.currentBlock :: behind)).drop
    (ramdiskBlockSize * front.length + file.readPos % ramdiskBlockSize)).take readlength

theorem readFrom_read {readlength : Nat} (sized : disk.fs.Sized)
    (linked : Linked disk.fs.next (front ++ file.currentBlock :: behind))
    (used : ∀ x ∈ front ++ file.currentBlock :: behind, disk.fs.Used x)
    (within : endsPassed file.readPos readlength ≤ behind.length) :
    Read disk file front behind readlength (file.readFrom disk readlength) := by
  induction readlength using Nat.strong_induction_on generalizing file front behind with
  | _ readlength ih =>
    rw [RamFile.readFrom]
    have inside := Nat.mod_lt file.readPos (by decide : 0 < ramdiskBlockSize)
    by_cases done : readlength = 0
    · subst done
      have none_ : endsPassed file.readPos 0 = 0 := Nat.div_eq_of_lt (by simpa using inside)
      rw [if_pos rfl]
      exact ⟨⟨front, behind, rfl, by rw [none_]; rfl⟩, rfl, rfl, rfl, fun _ => rfl, by simp⟩
    · rw [if_neg done]
      by_cases short : readlength < ramdiskBlockSize - file.readPos % ramdiskBlockSize
      · rw [if_pos short]
        have none_ : endsPassed file.readPos readlength = 0 := Nat.div_eq_of_lt (by omega)
        refine ⟨⟨front, behind, rfl, by rw [none_]; rfl⟩, rfl, rfl, rfl,
          fun word => wordAdd_eq word, ?_⟩
        rw [drop_bytes (by omega), ← Nat.add_sub_cancel' short.le, bytesAt_add, List.append_assoc]
        exact (List.take_left' length_bytesAt).symm
      · rw [if_neg short]
        obtain ⟨room, left⟩ : ∃ room, room = ramdiskBlockSize -
          file.readPos % ramdiskBlockSize := ⟨_, rfl⟩
        have count := passes_end file.readPos short
        rw [← left] at count short ⊢
        cases behind with
        | nil =>
          rw [count] at within
          cases within
        | cons next behind =>
          have known : disk.fs.Used next := used next (by simp)
          have leads : disk.fs.next file.currentBlock = some next := linked.of_append.1
          have result : (disk.fs.getNextBlock file.currentBlock false).2 = next := by
            rw [getNextBlock_inner sized (used _ (by simp)) known leads]
          simp only [result, if_neg (ne_noBlock sized known.1)]
          have chain : front ++ file.currentBlock :: next :: behind =
              (front ++ [file.currentBlock]) ++ next :: behind := by simp
          rw [chain] at linked used
          have read := @ih (readlength - room) (by omega)
            { file with readPos := wordAdd file.readPos room, currentBlock := next } _ _ linked used
            (by rw [List.length_cons] at within; change endsPassed (wordAdd _ _) _ ≤ _; omega)
          refine ⟨?_, read.first, read.writes, read.size, fun word => ?_, ?_⟩
          · obtain ⟨front', behind', whole, length⟩ := read.block
            refine ⟨front', behind', chain.trans whole, ?_⟩
            rw [length, count, List.length_append, List.length_singleton]
            change _ + endsPassed (wordAdd file.readPos room) _ = _
            omega
          · have moved : wordAdd file.readPos room = file.readPos + room := wordAdd_eq (by omega)
            have final := read.position (by
              change wordAdd file.readPos room + _ < _
              omega)
            rw [final]
            change wordAdd file.readPos room + _ = _
            omega
          · have start : wordAdd file.readPos room % ramdiskBlockSize = 0 := by
              rw [wordAdd_mod]
              unfold ramdiskBlockSize at left inside ⊢
              omega
            have rest := read.bytes
            change _ = (List.drop (_ + wordAdd file.readPos room % _) _).take _ at rest
            rw [start, Nat.add_zero, bytes_append, List.drop_left' (length_bytes _ _)] at rest
            have here : (bytesAt (disk.buffer file.currentBlock) (file.readPos % ramdiskBlockSize)
                room).take readlength = bytesAt (disk.buffer file.currentBlock)
                  (file.readPos % ramdiskBlockSize) room :=
              List.take_of_length_le (by rw [length_bytesAt]; omega)
            rw [rest, drop_bytes (by omega), ← left, List.take_append, length_bytesAt, here]

end Orcos.Source.Files
