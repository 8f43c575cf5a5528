import Orcos.Source.Files.RamContents

/-!
# Files of the ram file system as arrays of bytes

Source: src/source/filesystem/ram/RamFilesystem.cc, `readBytes`, `writeBytes`,
`resetPosition`; src/source/hal/CharacterDevice.hh, `seek`.

A file is an array of bytes that grows at its end, with a cursor for reading. The
source keeps one current block for reading and writing, so the file answers as the
array does as long as each call finds the block it needs there.
-/
namespace Orcos.Guarantees.RamFiles
open Lib.Successors Source Source.Files Source.Files.RamFilesystem

inductive Call
  | writeBytes (bytes : List Byte)
  | readBytes (length : Nat)
  | seek (seekValue : Int)
  | resetPosition

/-- The bytes that are read, with the result of the call. -/
abbrev Answer := List Byte × ErrorT

/-- What a file is meant to be. -/
structure ByteFile where
  content : List Byte
  cursor : Nat

/-- A seek does not move the cursor in front of the first byte. -/
def ByteFile.perform (f : ByteFile) : Call → ByteFile × Answer
  | .writeBytes bytes => ({ f with content := f.content ++ bytes }, [], cOk)
  | .readBytes length =>
    let bytes := (f.content.drop f.cursor).take length
    ({ f with cursor := f.cursor + bytes.length }, bytes, cOk)
  | .seek seekValue => ({ f with cursor := (f.cursor + seekValue).toNat }, [], cOk)
  | .resetPosition => ({ f with cursor := 0 }, [], cOk)

/-- A file on its file system. -/
structure Device where
  disk : RamDisk
  file : RamFile

def Device.perform (d : Device) : Call → Device × Answer
  | .writeBytes bytes =>
    (⟨(d.file.writeBytes d.disk bytes).disk, (d.file.writeBytes d.disk bytes).file⟩, [],
      (d.file.writeBytes d.disk bytes).error)
  | .readBytes length =>
    (⟨d.disk, (d.file.readBytes d.disk length).2⟩, (d.file.readBytes d.disk length).1, cOk)
  | .seek seekValue => (⟨d.disk, d.file.seek seekValue⟩, [], cOk)
  | .resetPosition => (⟨d.disk, d.file.resetPosition⟩, [], cOk)

def Device.answers : Device → List Call → List Answer
  | _, [] => []
  | d, call :: calls => (d.perform call).2 :: Device.answers (d.perform call).1 calls

def ByteFile.answers : ByteFile → List Call → List Answer
  | _, [] => []
  | f, call :: calls => (f.perform call).2 :: ByteFile.answers (f.perform call).1 calls

/-- The file is at the block of the chain that holds the place. -/
def At (d : Device) (place : Nat) : Prop :=
  ∃ front behind, Linked d.disk.fs.next (front ++ d.file.currentBlock :: behind) ∧
    (front ++ d.file.currentBlock :: behind).head? = some d.file.myBlockNumber ∧
    front.length = place / ramdiskBlockSize

/-- There are enough free blocks, and the size of the file stays a word. -/
def Room (d : Device) (length : Nat) : Prop :=
  endsPassed d.file.position length ≤ d.disk.fs.freeBlocks ∧ d.file.filesize + length < 2 ^ 32

/-- A write finds the file at its end, and does not put the block zero behind another
one. A read finds the file at the block to be read. A seek does not move. -/
def Fitting (d : Device) : Call → Prop
  | .writeBytes bytes => bytes ≠ [] → d.file.position = d.file.filesize ∧ At d d.file.position ∧
      Room d bytes.length ∧ Passable d.disk.fs (endsPassed d.file.position bytes.length) 0
  | .readBytes length => d.file.readlength length ≠ 0 → At d d.file.readPos
  | .seek seekValue => seekValue = 0
  | .resetPosition => True

/-- Every call fits the state it is made in. -/
def AllFitting : Device → List Call → Prop
  | _, [] => True
  | d, call :: calls => Fitting d call ∧ AllFitting (d.perform call).1 calls

/-- The file holds the array: its chain has a block for the byte that comes next, and
begins with the content. -/
structure Holds (d : Device) (chain : List Nat) (f : ByteFile) : Prop where
  sized : d.disk.fs.Sized
  counted : d.disk.fs.Counted
  linked : Linked d.disk.fs.next chain
  used : ∀ x ∈ chain, d.disk.fs.Used x
  first : chain.head? = some d.file.myBlockNumber
  here : d.file.currentBlock ∈ chain
  length : chain.length = f.content.length / ramdiskBlockSize + 1
  stored : f.content <+: d.disk.bytes chain
  size : d.file.filesize = f.content.length
  word : f.content.length < 2 ^ 32
  cursor : d.file.readPos = f.cursor
  inside : f.cursor ≤ f.content.length
  position : d.file.position ≤ f.content.length

variable {d : Device} {f : ByteFile} {chain : List Nat} {place length : Nat} {bytes : List Byte}
  {call : Call} {calls : List Call}

/-- Where the file is in its chain. -/
theorem Holds.split (holds : Holds d chain f) (at_ : At d place) :
    ∃ front behind, chain = front ++ d.file.currentBlock :: behind ∧
      front.length = place / ramdiskBlockSize := by
  obtain ⟨front, behind, linked, first, length⟩ := at_
  refine ⟨front, behind, ?_, length⟩
  obtain ⟨rest, whole⟩ := List.head?_eq_some_iff.mp holds.first
  obtain ⟨rest', whole'⟩ := List.head?_eq_some_iff.mp first
  have linked' := holds.linked
  rw [whole] at linked' ⊢
  rw [whole'] at linked ⊢
  rw [linked'.unique linked]

/-- The content grows by what is written at its end. -/
theorem holds_wrote {front added : List Nat} {w : Written}
    (holds : Holds d (front ++ [d.file.currentBlock]) f) (ends : d.file.position = d.file.filesize)
    (length : front.length = d.file.position / ramdiskBlockSize) (room : Room d bytes.length)
    (wrote : Wrote d.disk d.file front [] bytes w added) (fine : w.error = cOk) :
    Holds ⟨w.disk, { w.file with filesize := max w.file.filesize w.file.position }⟩
      (front ++ [d.file.currentBlock] ++ added) ⟨f.content ++ bytes, f.cursor⟩ := by
  have size := holds.size
  have position := wrote.position fine (by rw [ends]; exact room.2)
  have more := wrote.more fine
  have stored := wrote.stored fine
  have start : (d.disk.bytes (front ++ [d.file.currentBlock])).take
      (ramdiskBlockSize * front.length + d.file.position % ramdiskBlockSize) = f.content := by
    rw [length, Nat.div_add_mod, ends, size]
    exact (List.prefix_iff_eq_take.mp holds.stored).symm
  rw [start] at stored
  refine ⟨wrote.grown.sized, wrote.grown.counted, wrote.grown.linked,
    wrote.grown.used_chain holds.used, ?_, wrote.place, ?_, stored, ?_, ?_, ?_, ?_, ?_⟩
  · rw [List.head?_append, holds.first]
    exact congrArg some wrote.first.symm
  · rw [List.length_append, List.length_append, more, length, ends, size]
    simp only [endsPassed, List.length_append, List.length_singleton, List.length_nil]
    unfold ramdiskBlockSize
    omega
  · change max w.file.filesize w.file.position = (f.content ++ bytes).length
    rw [wrote.size, position, ends, size, List.length_append]
    omega
  · have word := room.2
    rw [List.length_append]
    omega
  · exact wrote.reads.trans holds.cursor
  · rw [List.length_append]
    exact holds.inside.trans (Nat.le_add_right _ _)
  · change w.file.position ≤ (f.content ++ bytes).length
    rw [position, ends, size, List.length_append]

theorem holds_writeBytes (holds : Holds d chain f) (fitting : Fitting d (.writeBytes bytes)) :
    (d.perform (.writeBytes bytes)).2 = (f.perform (.writeBytes bytes)).2 ∧
      ∃ chain', Holds (d.perform (.writeBytes bytes)).1 chain'
        (f.perform (.writeBytes bytes)).1 := by
  by_cases none_ : bytes = []
  · subst none_
    have same : d.file.writeBytes d.disk [] = ⟨cOk, d.disk, d.file, []⟩ := by
      have whole : d.file.writeFrom d.disk [] [] = ⟨cOk, d.disk, d.file, []⟩ := by
        rw [RamFile.writeFrom, if_pos rfl]
      have kept : max d.file.filesize d.file.position = d.file.filesize :=
        max_eq_left (holds.position.trans_eq holds.size.symm)
      rw [writeBytes_eq, whole]
      simp only [if_true, kept]
    have content : f.content ++ [] = f.content := List.append_nil _
    refine ⟨?_, chain, ?_⟩
    · simp [Device.perform, ByteFile.perform, same]
    · simp only [Device.perform, ByteFile.perform, same, content]
      exact holds
  · obtain ⟨ends, at_, room, passable⟩ := fitting none_
    obtain ⟨front, behind, whole, length⟩ := holds.split at_
    have last : behind = [] := by
      have count := holds.length
      rw [whole, List.length_append, List.length_cons, length, ends, holds.size] at count
      exact List.length_eq_zero_iff.mp (by omega)
    subst last
    have linked := holds.linked
    have used := holds.used
    rw [whole] at linked used
    obtain ⟨added, record, wrote⟩ :=
      writeFrom_wrote [] holds.sized holds.counted linked used passable
    have enough : endsPassed d.file.position bytes.length ≤
        ([] : List Nat).length + d.disk.fs.freeBlocks := by
      rw [List.length_nil, Nat.zero_add]
      exact room.1
    have result := writeBytes_eq d.file d.disk bytes
    generalize d.file.writeFrom d.disk [] bytes = w at wrote result
    have fine := wrote.enough enough
    rw [if_pos fine] at result
    rw [whole] at holds
    have holds' := holds_wrote holds ends length room wrote fine
    simp only [Device.perform, ByteFile.perform, result]
    exact ⟨by rw [fine], _, holds'⟩

theorem readlength_eq (holds : Holds d chain f) :
    d.file.readlength length = min length (f.content.length - f.cursor) := by
  have word := holds.word
  have inside := holds.inside
  have left : wordSub d.file.filesize d.file.readPos = f.content.length - f.cursor := by
    rw [holds.size, holds.cursor, wordSub_eq inside word]
  unfold RamFile.readlength
  rw [left]
  split
  · omega
  · omega

theorem perform_readBytes {r : List Byte × RamFile} (result : d.file.readBytes d.disk length = r) :
    d.perform (.readBytes length) = (⟨d.disk, r.2⟩, r.1, cOk) := by
  subst result
  rfl

/-- What is read is the content behind the cursor. -/
theorem holds_read {front behind : List Nat} {r : List Byte × RamFile}
    (holds : Holds d (front ++ d.file.currentBlock :: behind) f)
    (place : front.length = d.file.readPos / ramdiskBlockSize)
    (read : Read d.disk d.file front behind (d.file.readlength length) r) :
    r.1 = (f.content.drop f.cursor).take length ∧
      Holds ⟨d.disk, r.2⟩ (front ++ d.file.currentBlock :: behind)
        ⟨f.content, f.cursor + d.file.readlength length⟩ := by
  have count : d.file.readlength length = min length (f.content.length - f.cursor) :=
    readlength_eq holds
  have inside := holds.inside
  have word := holds.word
  have bytes : r.1 = (f.content.drop f.cursor).take length := by
    obtain ⟨rest, stored⟩ := holds.stored
    have short : d.file.readlength length ≤ (f.content.drop f.cursor).length := by
      rw [List.length_drop, count]
      exact Nat.min_le_right _ _
    rw [read.bytes, place, Nat.div_add_mod, ← stored, holds.cursor,
      List.drop_append_of_le_length inside, List.take_append_of_le_length short, count,
      ← List.length_drop, ← List.take_eq_take_min]
  have position := read.position (by
    rw [holds.cursor, count]
    omega)
  refine ⟨bytes, holds.sized, holds.counted, holds.linked, holds.used, ?_, ?_, holds.length,
    holds.stored, read.size.trans holds.size, holds.word, ?_, ?_, ?_⟩
  · rw [holds.first]
    exact congrArg some read.first.symm
  · obtain ⟨front', behind', same, _⟩ := read.block
    rw [same]
    exact List.mem_append_right _ List.mem_cons_self
  · exact position.trans (by rw [holds.cursor])
  · change f.cursor + d.file.readlength length ≤ f.content.length
    omega
  · exact read.writes.trans_le holds.position

theorem holds_readBytes (holds : Holds d chain f) (fitting : Fitting d (.readBytes length)) :
    (d.perform (.readBytes length)).2 = (f.perform (.readBytes length)).2 ∧
      ∃ chain', Holds (d.perform (.readBytes length)).1 chain'
        (f.perform (.readBytes length)).1 := by
  have count : d.file.readlength length = min length (f.content.length - f.cursor) :=
    readlength_eq holds
  have answer : ((f.content.drop f.cursor).take length).length = d.file.readlength length := by
    rw [count, List.length_take, List.length_drop]
  by_cases none_ : d.file.readlength length = 0
  · have same : d.file.readBytes d.disk length = ([], d.file) := by
      rw [RamFile.readBytes, none_, RamFile.readFrom, if_pos rfl]
    have nothing : (f.content.drop f.cursor).take length = [] :=
      List.length_eq_zero_iff.mp (answer.trans none_)
    rw [perform_readBytes same]
    simp only [ByteFile.perform, nothing]
    exact ⟨trivial, chain, holds⟩
  · obtain ⟨front, behind, whole, place⟩ := holds.split (fitting none_)
    subst whole
    have blocks := holds.length
    rw [List.length_append, List.length_cons] at blocks
    have within : endsPassed d.file.readPos (d.file.readlength length) ≤ behind.length := by
      rw [holds.cursor] at place
      have inside := holds.inside
      unfold endsPassed
      rw [holds.cursor, count]
      unfold ramdiskBlockSize at blocks place ⊢
      omega
    have read := readFrom_read holds.sized holds.linked holds.used within
    have result : d.file.readBytes d.disk length =
        d.file.readFrom d.disk (d.file.readlength length) := by rw [RamFile.readBytes]
    generalize d.file.readFrom d.disk (d.file.readlength length) = r at read result
    obtain ⟨bytes, holds'⟩ := holds_read holds place read
    rw [perform_readBytes result]
    simp only [ByteFile.perform, bytes, answer]
    exact ⟨trivial, _, holds'⟩

/-- A fitting call answers as the array does and leaves the file with its array. -/
theorem holds_perform (holds : Holds d chain f) (fitting : Fitting d call) :
    (d.perform call).2 = (f.perform call).2 ∧
      ∃ chain', Holds (d.perform call).1 chain' (f.perform call).1 := by
  cases call with
  | writeBytes bytes => exact holds_writeBytes holds fitting
  | readBytes length => exact holds_readBytes holds fitting
  | seek seekValue =>
    have still : seekValue = 0 := fitting
    subst still
    have kept : d.file.seek 0 = d.file := by
      have word : d.file.position < 2 ^ 32 := holds.position.trans_lt holds.word
      have same : (((d.file.position : Int) + 0) % 2 ^ 32).toNat = d.file.position := by omega
      rw [RamFile.seek, same]
    have cursor : ((f.cursor : Int) + 0).toNat = f.cursor := by omega
    simp only [Device.perform, ByteFile.perform, kept, cursor]
    exact ⟨trivial, chain, holds⟩
  | resetPosition =>
    refine ⟨rfl, chain, ?_⟩
    exact { holds with
      here := List.mem_of_head? holds.first
      cursor := rfl
      inside := Nat.zero_le _
      position := Nat.zero_le _ }

theorem answers_eq (holds : Holds d chain f) (fitting : AllFitting d calls) :
    d.answers calls = f.answers calls := by
  induction calls generalizing d chain f with
  | nil => rfl
  | cons call calls ih =>
    obtain ⟨first, later⟩ := fitting
    obtain ⟨answer, chain', holds'⟩ := holds_perform holds first
    rw [Device.answers, ByteFile.answers, answer, ih holds' later]

/-- A file that was created holds no bytes. -/
theorem holds_create {disk : RamDisk} {fs : RamFilesystem} {block : Nat} (sized : disk.fs.Sized)
    (counted : disk.fs.Counted) (result : disk.fs.allocateBlock noBlock = (fs, block))
    (known : block ≠ noBlock) :
    Holds ⟨{ disk with fs := fs }, RamFile.create block⟩ [block] ⟨[], 0⟩ := by
  rcases allocateBlock_cases sized counted noBlock with ⟨b, inside, free, answer⟩ | ⟨_, answer⟩
  · rw [answer] at result
    cases result
    have grown := Grown.first sized counted inside free rfl
    exact ⟨grown.sized, grown.counted, grown.linked, grown.used_chain (by simp), rfl,
      List.mem_singleton_self _, rfl, List.nil_prefix, rfl, by decide, rfl, Nat.le_refl 0,
      Nat.le_refl 0⟩
  · rw [answer] at result
    cases result
    exact absurd rfl known

/-- A file that was created answers all calls that fit as an empty array of bytes
does. -/
theorem refines_of_fitting (disk : RamDisk) (fs : RamFilesystem) (block : Nat) (calls : List Call)
    (sized : disk.fs.Sized) (counted : disk.fs.Counted)
    (result : disk.fs.allocateBlock noBlock = (fs, block)) (known : block ≠ noBlock)
    (fitting : AllFitting ⟨{ disk with fs := fs }, RamFile.create block⟩ calls) :
    Device.answers ⟨{ disk with fs := fs }, RamFile.create block⟩ calls =
      ByteFile.answers ⟨[], 0⟩ calls :=
  answers_eq (holds_create sized counted result known) fitting

/-- A file system of a megabyte with one file. -/
def megabyte : RamDisk := ⟨RamFilesystem.construct 0 (2 ^ 20), fun _ _ => 0⟩

def oneFile : Device :=
  ⟨{ megabyte with fs := (megabyte.fs.allocateBlock noBlock).1 }, RamFile.create 0⟩

theorem oneFile_written : (oneFile.perform (.writeBytes [97])).1 =
    ⟨oneFile.disk.store 0 0 [97], ⟨0, 0, 0, 1, 1⟩⟩ := by
  rw [Device.perform, RamFile.writeBytes, RamFile.writeFrom, if_neg (List.cons_ne_nil _ _),
    if_pos (by decide)]
  rfl

/-- A byte is written at the beginning, and read. -/
theorem refines_of_fitting_written :
    oneFile.answers [.writeBytes [97], .resetPosition, .readBytes 1] =
      ByteFile.answers ⟨[], 0⟩ [.writeBytes [97], .resetPosition, .readBytes 1] := by
  refine refines_of_fitting megabyte _ 0 _ (sized_construct 0 (2 ^ 20)) counted_construct rfl
    (by decide) ⟨fun _ => ⟨rfl, ⟨[], [], ⟨rfl, trivial⟩, rfl, rfl⟩, ⟨Nat.zero_le _, by decide⟩,
      .inr (Nat.zero_le _)⟩, trivial, ?_⟩
  refine ⟨fun _ => ?_, trivial⟩
  change At ⟨(oneFile.perform (.writeBytes [97])).1.disk,
    (oneFile.perform (.writeBytes [97])).1.file.resetPosition⟩ _
  rw [oneFile_written]
  exact ⟨[], [], ⟨rfl, trivial⟩, rfl, rfl⟩

/-- The bytes that the calls write. -/
def written : List Call → Nat
  | [] => 0
  | .writeBytes bytes :: calls => bytes.length + written calls
  | _ :: calls => written calls

/-- A seek does not move the place that is read next. -/
theorem seek_without_effect : ¬∀ (disk : RamDisk) (fs : RamFilesystem) (block : Nat)
    (calls : List Call), disk.fs.Sized → disk.fs.Counted →
    disk.fs.allocateBlock noBlock = (fs, block) → block ≠ noBlock →
    written calls / ramdiskBlockSize ≤ fs.freeBlocks →
    Device.answers ⟨{ disk with fs := fs }, RamFile.create block⟩ calls =
      ByteFile.answers ⟨[], 0⟩ calls := by
  intro always
  have same := always megabyte (megabyte.fs.allocateBlock noBlock).1 0 [.writeBytes [97], .seek 1,
    .readBytes 1]
    (sized_construct 0 (2 ^ 20)) counted_construct rfl (by decide) (by decide)
  obtain ⟨w, result, size, reads⟩ : ∃ w, (RamFile.create 0).writeBytes
      { megabyte with fs := (megabyte.fs.allocateBlock noBlock).1 } [97] = w ∧
      w.file.filesize = 1 ∧ w.file.readPos = 0 := by
    refine ⟨_, rfl, ?_, ?_⟩
    · rw [writeBytes_eq, RamFile.writeFrom]
      rfl
    · rw [writeBytes_eq, RamFile.writeFrom]
      rfl
  have asked : (w.file.seek 1).readlength 1 = 1 := by
    rw [RamFile.readlength]
    simp [RamFile.seek, size, reads, wordSub]
  have read : ((w.file.seek 1).readBytes w.disk 1).1.length = 1 := by
    rw [RamFile.readBytes, asked, RamFile.readFrom]
    simp [RamFile.seek, reads, ramdiskBlockSize]
  simp only [Device.answers, Device.perform, ByteFile.answers, ByteFile.perform, result,
    List.cons.injEq, Prod.mk.injEq] at same
  have bytes := congrArg List.length same.2.2.1.1
  rw [read] at bytes
  exact absurd bytes (by decide)

end Orcos.Guarantees.RamFiles
