import Orcos.Lib.Successors
import Orcos.Source.Files.RamContents
import Orcos.Source.Files.RamFile

/-!
# The chains of the files of the ram file system

Source: src/source/filesystem/ram/RamFilesystem.cc, `allocateBlock`, `freeBlock`,
`getNextBlock`, `createFile`, `writeBytes`, `~RamFilesystemFile`.

A record is kept of the blocks that were allocated for each file. As long as a write does
not put the block zero behind another one, each file has them in its chain, and they
are free again once it is deleted. The block zero behind another one is lost.
-/
namespace Orcos.Guarantees.RamChains
open Lib.Successors Source Source.Files Source.Files.RamFilesystem

/-- A volume, with the blocks that were allocated for the files in the order of their
allocation. -/
structure Observed where
  volume : Volume
  allocated : Nat → List Nat

/-- The file that an operation is about. -/
def address : Operation → Nat
  | .createFile _ a _ | .createDirectory _ a _ | .remove _ a | .delete a | .writeBytes a _
  | .readBytes a _ | .seek a _ | .resetPosition a => a

/-- The record goes with the file. -/
def observe (o : Observed) (op : Operation) (v : Volume) (blocks : List Nat) : Observed :=
  ⟨v, Function.update o.allocated (address op) (match op with
    | .delete _ => []
    | _ => o.allocated (address op) ++ blocks)⟩

/-- A write may not come to put the block zero behind another block, and a read may not
pass the end of the chain. -/
def Careful (v : Volume) : Operation → Prop
  | .writeBytes a bytes => ∀ file behind, v.files a = some file →
      Linked v.disk.fs.next (file.currentBlock :: behind) →
      Passable v.disk.fs (endsPassed file.position bytes.length) behind.length
  | .readBytes a length => ∀ file behind, v.files a = some file →
      Linked v.disk.fs.next (file.currentBlock :: behind) →
      endsPassed file.readPos (file.readlength length) ≤ behind.length
  | _ => True

inductive Reached (initial : Volume) : Observed → Prop
  | start : Reached initial ⟨initial, fun _ => []⟩
  | step {o : Observed} {op : Operation} {v : Volume} {blocks : List Nat}
      (reached : Reached initial o) (careful : Careful o.volume op)
      (result : o.volume.perform op = some (v, blocks)) : Reached initial (observe o op v blocks)

/-- The chain of each file consists of its blocks, its deletion frees just these, and
without files as many blocks are free as at the beginning. -/
structure Exact (initial : Volume) (o : Observed) : Prop where
  chains : ∀ a file, o.volume.files a = some file →
    (o.allocated a).head? = some file.myBlockNumber ∧
      Linked o.volume.disk.fs.next (o.allocated a)
  returned : ∀ a file, o.volume.files a = some file →
    ∃ fs, o.volume.disk.fs.freeBlock o.volume.disk.fs.numBlocks file.myBlockNumber = some fs ∧
      (∀ x ∈ o.allocated a, o.volume.disk.fs.Used x) ∧
      (∀ x, fs.Used x ↔ o.volume.disk.fs.Used x ∧ x ∉ o.allocated a) ∧
      fs.freeBlocks = o.volume.disk.fs.freeBlocks + (o.allocated a).length
  initial : (∀ a, o.volume.files a = none) →
    o.volume.disk.fs.freeBlocks = initial.disk.fs.freeBlocks

/-- What holds between the steps. -/
structure Invariant (numBlocks : Nat) (fs : RamFilesystem) (files : Nat → Option RamFile)
    (allocated : Nat → List Nat) : Prop where
  sized : fs.Sized
  counted : fs.Counted
  size : fs.numBlocks = numBlocks
  strands : Strands fs.next fs.Used allocated
  absent : ∀ a, files a = none → allocated a = []
  present : ∀ a file, files a = some file →
    (allocated a).head? = some file.myBlockNumber ∧ file.currentBlock ∈ allocated a

variable {numBlocks : Nat} {fs fs' : RamFilesystem} {files : Nat → Option RamFile}
  {allocated : Nat → List Nat} {initial : Volume} {o : Observed} {op : Operation} {v : Volume}
  {blocks added : List Nat} {a : Nat} {file file' : RamFile}

namespace Invariant

theorem used (invariant : Invariant numBlocks fs files allocated) :
    ∀ x ∈ allocated a, fs.Used x :=
  fun _ member => invariant.strands.used_of_mem member

/-- The chain of a file, split where the file is. -/
theorem split (invariant : Invariant numBlocks fs files allocated) (known : files a = some file) :
    ∃ front behind, allocated a = front ++ file.currentBlock :: behind ∧
      Linked fs.next (front ++ file.currentBlock :: behind) ∧
      ∀ x ∈ front ++ file.currentBlock :: behind, fs.Used x := by
  obtain ⟨front, behind, whole⟩ := List.append_of_mem (invariant.present a file known).2
  refine ⟨front, behind, whole, ?_, ?_⟩
  · rw [← whole]
    exact invariant.strands.linked a
  · rw [← whole]
    exact invariant.used

/-- A chain grows, and its file is left at one of the blocks. -/
theorem grow (invariant : Invariant numBlocks fs files allocated)
    (grown : Grown fs (allocated a) fs' added)
    (first : (allocated a ++ added).head? = some file'.myBlockNumber)
    (place : file'.currentBlock ∈ allocated a ++ added) :
    Invariant numBlocks fs' (Function.update files a (some file'))
      (Function.update allocated a (allocated a ++ added)) := by
  refine ⟨grown.sized, grown.counted, grown.size.trans invariant.size,
    invariant.strands.grow grown.linked grown.fresh grown.used grown.same,
    fun b none_ => ?_, fun b file known => ?_⟩
  · by_cases here : b = a
    · rw [here, Function.update_self] at none_
      cases none_
    · rw [Function.update_of_ne here] at none_ ⊢
      exact invariant.absent b none_
  · by_cases here : b = a
    · subst here
      rw [Function.update_self] at known ⊢
      cases known
      exact ⟨first, place⟩
    · rw [Function.update_of_ne here] at known ⊢
      exact invariant.present b file known

/-- The file moves in its chain, which is left as it is. -/
theorem move (invariant : Invariant numBlocks fs files allocated) (known : files a = some file)
    (first : file'.myBlockNumber = file.myBlockNumber)
    (place : file'.currentBlock ∈ allocated a) :
    Invariant numBlocks fs (Function.update files a (some file'))
      (Function.update allocated a (allocated a ++ [])) := by
  have none_ := Grown.refl invariant.sized invariant.counted (invariant.strands.linked a)
  refine invariant.grow none_ ?_ ?_
  · rw [List.append_nil, first]
    exact (invariant.present a file known).1
  · rwa [List.append_nil]

/-- The blocks of a file follow its first one. -/
theorem chain (invariant : Invariant numBlocks fs files allocated) (known : files a = some file) :
    ∃ rest, allocated a = file.myBlockNumber :: rest ∧
      Linked fs.next (file.myBlockNumber :: rest) ∧
      (∀ x ∈ file.myBlockNumber :: rest, fs.Used x) ∧
      fs.freeBlock fs.numBlocks file.myBlockNumber =
        some (fs.releaseAll (file.myBlockNumber :: rest)) := by
  obtain ⟨rest, whole⟩ := List.head?_eq_some_iff.mp (invariant.present a file known).1
  have linked := invariant.strands.linked a
  have used := invariant.used (a := a)
  rw [whole] at linked used
  have short := length_le linked.nodup used
  rw [List.length_cons] at short
  exact ⟨rest, whole, linked, used, freeBlock_eq invariant.sized linked used short⟩

/-- A file is deleted. -/
theorem delete (invariant : Invariant numBlocks fs files allocated) (known : files a = some file)
    (freed : fs.freeBlock fs.numBlocks file.myBlockNumber = some fs') :
    Invariant numBlocks fs' (Function.update files a none) (Function.update allocated a []) := by
  obtain ⟨rest, whole, linked, used, result⟩ := invariant.chain known
  rw [result] at freed
  cases freed
  obtain ⟨sized, counted, size, left, same⟩ :=
    releaseAll_spec invariant.sized invariant.counted linked.nodup used
  rw [← whole] at sized counted size left same ⊢
  refine ⟨sized, counted, size.trans invariant.size, invariant.strands.drop left same,
    fun b none_ => ?_, fun b file known => ?_⟩
  · by_cases here : b = a
    · rw [here, Function.update_self]
    · rw [Function.update_of_ne here] at none_ ⊢
      exact invariant.absent b none_
  · by_cases here : b = a
    · rw [here, Function.update_self] at known
      cases known
    · rw [Function.update_of_ne here] at known ⊢
      exact invariant.present b file known

end Invariant

theorem update_nothing : Function.update allocated a (allocated a ++ []) = allocated := by
  rw [List.append_nil, Function.update_eq_self]

/-- The invariant of an observed volume. -/
def Kept (numBlocks : Nat) (o : Observed) : Prop :=
  Invariant numBlocks o.volume.disk.fs o.volume.files o.allocated

/-- Nothing is done to the files and their blocks. -/
theorem kept_same (kept : Kept numBlocks o) (fs : v.disk.fs = o.volume.disk.fs)
    (files : v.files = o.volume.files) (record : ∀ b, op ≠ .delete b) :
    Kept numBlocks (observe o op v []) := by
  have same : observe o op v [] = ⟨v, o.allocated⟩ := by
    cases op with
    | delete b => exact absurd rfl (record b)
    | _ => exact congrArg (Observed.mk v) update_nothing
  rw [same]
  unfold Kept
  rw [fs, files]
  exact kept

theorem kept_createFile {dir : Nat} {name : List Letter} (kept : Kept numBlocks o)
    (result : o.volume.createFile dir a name = some (v, blocks)) :
    Kept numBlocks (observe o (.createFile dir a name) v blocks) := by
  unfold Volume.createFile at result
  split at result
  · cases result
  · next fresh =>
    rw [not_not] at fresh
    have none_ := kept.absent a fresh
    split at result
    · cases result
      exact kept_same kept rfl rfl (by simp)
    · rcases allocateBlock_cases kept.sized kept.counted noBlock with
        ⟨block, inside, free, answer⟩ | ⟨_, answer⟩
      · simp only [answer, if_neg (ne_noBlock kept.sized inside)] at result
        cases result
        have grown := Grown.first kept.sized kept.counted inside free rfl
        have start : Grown o.volume.disk.fs (o.allocated a)
            (o.volume.disk.fs.take (block / numBlocksPerSuperblock) block noBlock) [block] :=
          none_ ▸ grown
        refine kept.grow start ?_ ?_
        · rw [none_]
          rfl
        · rw [none_]
          exact List.mem_singleton_self block
      · simp only [answer, if_true] at result
        cases result
        exact kept_same kept rfl rfl (by simp)

theorem kept_createDirectory {dir : Nat} {name : List Letter} (kept : Kept numBlocks o)
    (result : o.volume.createDirectory dir a name = some v) :
    Kept numBlocks (observe o (.createDirectory dir a name) v []) := by
  unfold Volume.createDirectory at result
  split at result
  · cases result
  · split at result
    · cases result
      exact kept_same kept rfl rfl (by simp)
    · cases result
      exact kept_same kept rfl rfl (by simp)

theorem kept_remove {dir : Nat} (kept : Kept numBlocks o) :
    Kept numBlocks (observe o (.remove dir a) (o.volume.remove dir a) []) := by
  unfold Volume.remove
  split
  · exact kept_same kept rfl rfl (by simp)
  · exact kept_same kept rfl rfl (by simp)

theorem kept_delete (kept : Kept numBlocks o) (result : o.volume.delete a = some v) :
    Kept numBlocks (observe o (.delete a) v []) := by
  unfold Volume.delete at result
  split at result
  · cases result
  · obtain ⟨file, known, result⟩ := Option.bind_eq_some_iff.mp result
    obtain ⟨fs, freed, result⟩ := Option.bind_eq_some_iff.mp result
    cases result
    exact kept.delete known freed

theorem kept_writeBytes {bytes : List Byte} (kept : Kept numBlocks o)
    (careful : Careful o.volume (.writeBytes a bytes))
    (result : o.volume.writeBytes a bytes = some (v, blocks)) :
    Kept numBlocks (observe o (.writeBytes a bytes) v blocks) := by
  unfold Volume.writeBytes at result
  obtain ⟨file, known, result⟩ := Option.bind_eq_some_iff.mp result
  cases result
  obtain ⟨front, behind, whole, linked, used⟩ := kept.split known
  have passable := careful file behind known linked.of_append
  obtain ⟨added, record, wrote⟩ := writeFrom_wrote [] kept.sized kept.counted linked used passable
  have grown := wrote.grown
  have place := wrote.place
  rw [← whole] at grown place
  rw [List.nil_append] at record
  have first := (kept.present a file known).1
  obtain ⟨rest, chain⟩ := List.head?_eq_some_iff.mp first
  have head : (o.allocated a ++ added).head? =
      some (file.writeBytes o.volume.disk bytes).file.myBlockNumber := by
    rw [writeBytes_eq, chain]
    exact congrArg some wrote.first.symm
  have here : (file.writeBytes o.volume.disk bytes).file.currentBlock ∈ o.allocated a ++ added := by
    rw [writeBytes_eq]
    exact place
  have blocks : (file.writeBytes o.volume.disk bytes).allocated = added := by
    rw [writeBytes_eq]
    exact record
  have system : (file.writeBytes o.volume.disk bytes).disk.fs =
      (file.writeFrom o.volume.disk [] bytes).disk.fs := by
    rw [writeBytes_eq]
  rw [← system] at grown
  rw [blocks]
  exact kept.grow grown head here

/-- The file is moved in its chain. -/
def Moved (chain : List Nat) (file file' : RamFile) : Prop :=
  file'.myBlockNumber = file.myBlockNumber ∧ file'.currentBlock ∈ chain

theorem kept_onFile {call : RamFile → RamFile} (kept : Kept numBlocks o)
    (result : o.volume.onFile a call = some v)
    (moved : ∀ file, o.volume.files a = some file → Moved (o.allocated a) file (call file)) :
    Kept numBlocks ⟨v, Function.update o.allocated a (o.allocated a ++ [])⟩ := by
  obtain ⟨file, known, result⟩ := Option.map_eq_some_iff.mp result
  cases result
  exact kept.move known (moved file known).1 (moved file known).2

theorem kept_readBytes {length : Nat} (kept : Kept numBlocks o)
    (careful : Careful o.volume (.readBytes a length))
    (result : o.volume.onFile a (fun file => (file.readBytes o.volume.disk length).2) = some v) :
    Kept numBlocks ⟨v, Function.update o.allocated a (o.allocated a ++ [])⟩ := by
  refine kept_onFile kept result fun file known => ?_
  obtain ⟨front, behind, whole, linked, used⟩ := kept.split known
  have within : endsPassed file.readPos (file.readlength length) ≤ behind.length :=
    careful file behind known linked.of_append
  have read : Read o.volume.disk file front behind (file.readlength length)
      (file.readBytes o.volume.disk length) := readFrom_read kept.sized linked used within
  refine ⟨read.first, ?_⟩
  obtain ⟨front', behind', place, _⟩ := read.block
  rw [whole, place]
  exact List.mem_append_right _ List.mem_cons_self

/-- A careful operation keeps the invariant. -/
theorem kept_perform (kept : Kept numBlocks o) (careful : Careful o.volume op)
    (result : o.volume.perform op = some (v, blocks)) :
    Kept numBlocks (observe o op v blocks) := by
  cases op with
  | createFile dir a name => exact kept_createFile kept result
  | createDirectory dir a name =>
    obtain ⟨v', done, same⟩ := Option.map_eq_some_iff.mp result
    cases same
    exact kept_createDirectory kept done
  | remove dir a =>
    cases result
    exact kept_remove kept
  | delete a =>
    obtain ⟨v', done, same⟩ := Option.map_eq_some_iff.mp result
    cases same
    exact kept_delete kept done
  | writeBytes a bytes => exact kept_writeBytes kept careful result
  | readBytes a length =>
    obtain ⟨v', done, same⟩ := Option.map_eq_some_iff.mp result
    cases same
    exact kept_readBytes kept careful done
  | seek a seekValue =>
    obtain ⟨v', done, same⟩ := Option.map_eq_some_iff.mp result
    cases same
    exact kept_onFile kept done fun file known => ⟨rfl, (kept.present a file known).2⟩
  | resetPosition a =>
    obtain ⟨v', done, same⟩ := Option.map_eq_some_iff.mp result
    cases same
    exact kept_onFile kept done fun file known =>
      ⟨rfl, List.mem_of_head? (kept.present a file known).1⟩

theorem kept_start (start size : Nat) (buffer : Nat → Lib.ByteMemory.Memory)
    (name : Nat → List Letter) :
    Kept (construct start size).numBlocks ⟨Volume.construct start size buffer name, fun _ => []⟩ :=
  ⟨sized_construct start size, counted_construct, rfl,
    .none fun x known => known.2 (free_construct x), fun _ _ => rfl,
    fun _ _ known => by cases known⟩

theorem kept_of_reached {start size : Nat} {buffer : Nat → Lib.ByteMemory.Memory}
    {name : Nat → List Letter} (reached : Reached (Volume.construct start size buffer name) o) :
    Kept (construct start size).numBlocks o := by
  induction reached with
  | start => exact kept_start start size buffer name
  | step _ careful result ih => exact kept_perform ih careful result

/-- The counter goes up by the blocks that are given back. -/
theorem freeBlocks_eq (sized : fs.Sized) (counted : fs.Counted) (sized' : fs'.Sized)
    (counted' : fs'.Counted) (size : fs'.numBlocks = fs.numBlocks) (distinct : blocks.Nodup)
    (used : ∀ x ∈ blocks, fs.Used x) (left : ∀ x, fs'.Used x ↔ fs.Used x ∧ x ∉ blocks) :
    fs'.freeBlocks = fs.freeBlocks + blocks.length := by
  have joined : (Finset.range fs'.numBlocks).filter (fun x => fs'.Free x) =
      (Finset.range fs.numBlocks).filter (fun x => fs.Free x) ∪ blocks.toFinset := by
    ext x
    have inside := used x
    have kept := left x
    unfold Used at inside kept
    simp only [Finset.mem_union, Finset.mem_filter, Finset.mem_range, List.mem_toFinset, size]
      at kept ⊢
    tauto
  have apart : Disjoint ((Finset.range fs.numBlocks).filter fun x => fs.Free x)
    blocks.toFinset := by
    rw [Finset.disjoint_left]
    exact fun x free member => (used x (List.mem_toFinset.mp member)).2
      (Finset.mem_filter.mp free).2
  rw [counted'.total_eq sized', joined, Finset.card_union_of_disjoint apart,
    List.toFinset_card_of_nodup distinct, ← counted.total_eq sized]

/-- In every run of careful operations each file has the blocks that were allocated for it
in its chain, its deletion gives them all back, and once there is no file left as many
blocks are free as at the beginning. -/
theorem exact_of_careful (start size : Nat) (buffer : Nat → Lib.ByteMemory.Memory)
    (name : Nat → List Letter) (o : Observed)
    (reached : Reached (Volume.construct start size buffer name) o) :
    Exact (Volume.construct start size buffer name) o := by
  have kept := kept_of_reached reached
  refine ⟨fun a file known => ⟨(kept.present a file known).1, kept.strands.linked a⟩,
    fun a file known => ?_, fun none_ => ?_⟩
  · obtain ⟨rest, whole, linked, used, freed⟩ := kept.chain known
    obtain ⟨sized, counted, same, left, _⟩ :=
      releaseAll_spec kept.sized kept.counted linked.nodup used
    rw [whole]
    exact ⟨_, freed, used, left,
      freeBlocks_eq kept.sized kept.counted sized counted same linked.nodup used left⟩
  · have unused (x : Nat) : ¬o.volume.disk.fs.Used x := fun known => by
      obtain ⟨a, member⟩ := (kept.strands.covers x).mp known
      rw [kept.absent a (none_ a)] at member
      cases member
    have all : (Finset.range o.volume.disk.fs.numBlocks).filter
        (fun x => o.volume.disk.fs.Free x) = Finset.range o.volume.disk.fs.numBlocks :=
      Finset.filter_true_of_mem fun x member => by
        by_contra taken
        exact unused x ⟨Finset.mem_range.mp member, taken⟩
    rw [kept.counted.total_eq kept.sized, all, Finset.card_range, kept.size]
    rfl

def letterA : Letter := letter 97

def letterB : Letter := letter 98

/-- A file system of a megabyte. -/
def megabyte : Volume := Volume.construct 0 (2 ^ 20) (fun _ _ => 0) fun _ => []

/-- The observed volume after operations of any kind. -/
def observeAll : Observed → List Operation → Option Observed
  | o, [] => some o
  | o, op :: ops => (o.volume.perform op).bind fun r => observeAll (observe o op r.1 r.2) ops

theorem observeAll_append (ops ops' : List Operation) : ∀ o : Observed,
    observeAll o (ops ++ ops') = (observeAll o ops).bind fun o => observeAll o ops' := by
  induction ops with
  | nil => exact fun o => rfl
  | cons op ops ih =>
    intro o
    rw [List.cons_append, observeAll, observeAll, Option.bind_assoc]
    exact congrArg _ (funext fun r => ih _)

/-- A block that is filled from its beginning on. -/
theorem allocated_full {disk : RamDisk} {bytes : List Byte} {next : Nat}
    (start : file.position = 0) (length : bytes.length = ramdiskBlockSize)
    (result : (disk.fs.getNextBlock file.currentBlock true).2 = next) (known : next ≠ noBlock)
    (free : disk.fs.Free next) : (file.writeBytes disk bytes).allocated = [next] := by
  have some_ : bytes ≠ [] := fun none_ => by
    rw [none_] at length
    cases length
  have room : ramdiskBlockSize - 0 % ramdiskBlockSize = ramdiskBlockSize := rfl
  have rest : bytes.drop ramdiskBlockSize = [] := List.drop_eq_nil_of_le length.le
  rw [writeBytes_eq, RamFile.writeFrom]
  simp only [start, room, length, if_neg some_, lt_irrefl, if_false, result, if_neg known,
    if_pos free, rest]
  rw [RamFile.writeFrom, if_pos rfl, List.nil_append]

/-- A file that is in a directory can be removed and deleted. -/
theorem removed_deleted {start size dir : Nat} {buffer : Nat → Lib.ByteMemory.Memory}
    {name : Nat → List Letter} (reached : Reached (Volume.construct start size buffer name) o)
    (exact : Exact (Volume.construct start size buffer name) o)
    (known : o.volume.files a = some file) (placed : a ∈ o.volume.content dir) :
    ∃ deleted, observeAll o [.remove dir a, .delete a] = some deleted ∧
      Reached (Volume.construct start size buffer name) deleted := by
  obtain ⟨fs, freed, _⟩ := exact.returned a file known
  have removed := reached.step (show Careful o.volume (.remove dir a) from trivial) rfl
  have scheduled : a ∈ (o.volume.remove dir a).scheduled := by
    unfold Volume.remove
    rw [if_pos placed]
    exact List.mem_append_right _ (List.mem_singleton_self a)
  have same : (o.volume.remove dir a).files = o.volume.files ∧
      (o.volume.remove dir a).disk = o.volume.disk := by
    unfold Volume.remove
    rw [if_pos placed]
    exact ⟨rfl, rfl⟩
  obtain ⟨v, deleted⟩ : ∃ v, (o.volume.remove dir a).delete a = some v := by
    unfold Volume.delete
    rw [if_neg (not_not.mpr scheduled), same.1, same.2, known]
    change ∃ v, (o.volume.disk.fs.freeBlock _ file.myBlockNumber).bind _ = some v
    rw [freed]
    exact ⟨_, rfl⟩
  have performed : (o.volume.remove dir a).perform (.delete a) = some (v, []) :=
    Option.map_eq_some_iff.mpr ⟨_, deleted, rfl⟩
  exact ⟨_, Option.bind_eq_some_iff.mpr ⟨_, rfl, Option.bind_eq_some_iff.mpr ⟨_, performed, rfl⟩⟩,
    removed.step trivial performed⟩

/-- A file is created, written over the end of its first block, removed and deleted. -/
theorem exact_of_careful_written : ∃ written deleted : Observed,
    observeAll ⟨megabyte, fun _ => []⟩ [.createFile 0 1 [letterA],
      .writeBytes 1 (List.replicate ramdiskBlockSize 0)] = some written ∧
    observeAll written [.remove 0 1, .delete 1] = some deleted ∧
    written.allocated 1 = [0, 1] ∧ Exact megabyte written ∧ Exact megabyte deleted := by
  obtain ⟨bytes, equal⟩ : ∃ bytes : List Byte, bytes = List.replicate ramdiskBlockSize 0 := ⟨_, rfl⟩
  have length : bytes.length = ramdiskBlockSize := equal ▸ List.length_replicate
  rw [← equal]
  obtain ⟨o, run, created, known, next, free, record, placed⟩ : ∃ o,
      observeAll ⟨megabyte, fun _ => []⟩ [.createFile 0 1 [letterA]] = some o ∧
      Reached megabyte o ∧ o.volume.files 1 = some (RamFile.create 0) ∧
      (o.volume.disk.fs.getNextBlock 0 true).2 = 1 ∧ o.volume.disk.fs.Free 1 ∧
      o.allocated 1 = [0] ∧ 1 ∈ o.volume.content 0 :=
    ⟨_, rfl, .step .start trivial rfl, rfl, rfl, rfl, rfl, List.mem_singleton_self 1⟩
  obtain ⟨_, _, used, _⟩ := (exact_of_careful 0 (2 ^ 20) _ _ _ created).returned 1 _ known
  -- the block zero is in use, so that it is not put behind another one
  have careful : Careful o.volume (.writeBytes 1 bytes) :=
    fun _ _ _ _ => .inl (used 0 (record ▸ List.mem_singleton_self 0))
  have blocks := allocated_full (rfl : (RamFile.create 0).position = 0) length next (by decide) free
  have wrote : o.volume.perform (.writeBytes 1 bytes) = some _ :=
    Option.bind_eq_some_iff.mpr ⟨_, known, rfl⟩
  have written := created.step careful wrote
  have exact := exact_of_careful 0 (2 ^ 20) _ _ _ written
  have file : Function.update o.volume.files 1
      (some ((RamFile.create 0).writeBytes o.volume.disk bytes).file) 1 = some _ :=
    Function.update_self ..
  obtain ⟨deleted, ran, reached⟩ := removed_deleted (a := 1) written exact file placed
  refine ⟨_, deleted, ?_, ran, ?_, exact, exact_of_careful 0 (2 ^ 20) _ _ _ reached⟩
  · exact (observeAll_append [_] [.writeBytes 1 bytes] _).trans
      (Option.bind_eq_some_iff.mpr ⟨o, run, Option.bind_eq_some_iff.mpr ⟨_, wrote, rfl⟩⟩)
  · change Function.update o.allocated 1 (o.allocated 1 ++ _) 1 = [0, 1]
    rw [Function.update_self, record, blocks]
    rfl

/-- The first block is given back and taken again, behind another one: it does not get
into the chain. -/
theorem zero_lost : ¬∀ (start size : Nat) (buffer : Nat → Lib.ByteMemory.Memory)
    (name : Nat → List Letter) (ops : List Operation) (o : Observed),
    observeAll ⟨Volume.construct start size buffer name, fun _ => []⟩ ops = some o →
      Exact (Volume.construct start size buffer name) o := by
  intro always
  obtain ⟨bytes, length⟩ : ∃ bytes : List Byte, bytes.length = ramdiskBlockSize :=
    ⟨List.replicate ramdiskBlockSize 0, List.length_replicate⟩
  obtain ⟨o, run, known, result, free, record⟩ : ∃ o, observeAll ⟨megabyte, fun _ => []⟩
      [.createFile 0 1 [letterA], .createFile 0 2 [letterB], .remove 0 1, .delete 1] = some o ∧
      o.volume.files 2 = some (RamFile.create 1) ∧
      (o.volume.disk.fs.getNextBlock 1 true).2 = 0 ∧ o.volume.disk.fs.Free 0 ∧
      o.allocated 2 = [1] := ⟨_, rfl, rfl, rfl, rfl, rfl⟩
  have written : o.volume.writeBytes 2 bytes = some _ :=
    Option.bind_eq_some_iff.mpr ⟨_, known, rfl⟩
  have blocks : ((RamFile.create 1).writeBytes o.volume.disk bytes).allocated = [0] :=
    allocated_full rfl length result (by decide) free
  have more : observeAll o [.writeBytes 2 bytes] = some _ :=
    Option.bind_eq_some_iff.mpr ⟨_, written, rfl⟩
  have all := (observeAll_append _ [.writeBytes 2 bytes] _).trans
    (Option.bind_eq_some_iff.mpr ⟨o, run, more⟩)
  have file : Function.update o.volume.files 2
      (some ((RamFile.create 1).writeBytes o.volume.disk bytes).file) 2 = some _ :=
    Function.update_self ..
  have linked := ((always 0 (2 ^ 20) _ _ _ _ all).chains 2 _ file).2
  change Linked _ (Function.update o.allocated 2 (o.allocated 2 ++ _) 2) at linked
  rw [Function.update_self, record, blocks] at linked
  exact ne_zero_of_next linked.1 rfl

end Orcos.Guarantees.RamChains
