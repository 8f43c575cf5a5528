import Orcos.Guarantees.FatFiles
import Orcos.Guarantees.RamFiles
import Orcos.Lib.Runs

/-!
# What writes leave of a file

Source: src/source/filesystem/fat/FATFile.cc, `writeBytes`, `readBytes`;
src/source/filesystem/ram/RamFilesystem.cc, `writeBytes`, `readBytes`.

Writes that find their place and the room, or that begin behind the last sector, keep the
position in the file and leave the old bytes with a part of the new ones over them. A seek of
the ram file system goes behind the end, and a write that runs out of clusters in a sector
that it fills leaves the position behind the size.
-/
namespace Orcos.Guarantees.FileWrites
open Lib.Successors Lib.ByteMemory Lib.Extents Lib.Runs Source Source.Files
  Source.Files.RamFilesystem
open Source.Fat (FATFileSystem FileState Medium)
open Guarantees.RamFiles (Call Device At)

/-- A file as it can be seen from outside: all bytes of its chain, the number of those that
count, and where it is written and read. -/
structure OpenFile where
  stored : List Byte
  size : Nat
  position : Nat
  readPos : Nat

def OpenFile.content (f : OpenFile) : List Byte := f.stored.take f.size

/-- What a call has to leave of a file. -/
structure Contract (call : Call) (answer : RamFiles.Answer) (before after : OpenFile) : Prop where
  /-- All bytes that count are there. -/
  readable : after.size ≤ after.stored.length
  inside : after.position ≤ after.size
  /-- A write that fails has put some of its bytes over the content. -/
  failed : ∀ bytes, call = .writeBytes bytes → isError answer.2 →
    ∃ k ≤ bytes.length, after.content = overlay before.content before.position (bytes.take k)
  /-- A write whose bytes are all there succeeds. -/
  success : ∀ bytes, call = .writeBytes bytes →
    (after.stored.drop before.position).take bytes.length = bytes → answer.2 = cOk
  /-- A read answers bytes of the content. -/
  written : ∀ length, call = .readBytes length →
    answer.1 <+: before.content.drop before.readPos ∧ after.content = before.content

/-! ### Files of the ram file system -/

section Ram

/-- The blocks of a file. -/
def RamChain (d : Device) (chain : List Nat) : Prop :=
  Linked d.disk.fs.next chain ∧ chain.head? = some d.file.myBlockNumber

def ramSeen (d : Device) (chain : List Nat) : OpenFile :=
  ⟨d.disk.bytes chain, d.file.filesize, d.file.position, d.file.readPos⟩

def RamContract (d : Device) (call : Call) : Prop :=
  ∃ chain chain', RamChain d chain ∧ RamChain (d.perform call).1 chain' ∧
    Contract call (d.perform call).2 (ramSeen d chain) (ramSeen (d.perform call).1 chain')

/-- A write finds the file at the block it is for, with enough blocks behind it or free, and
does not put the block zero behind another one. A read finds the file at the block to be
read. A seek stays in the file. -/
def RamFits (d : Device) : Call → Prop
  | .writeBytes bytes => bytes ≠ [] → ∃ front behind,
      RamChain d (front ++ d.file.currentBlock :: behind) ∧
      front.length = d.file.position / ramdiskBlockSize ∧
      endsPassed d.file.position bytes.length ≤ behind.length + d.disk.fs.freeBlocks ∧
      Passable d.disk.fs (endsPassed d.file.position bytes.length) behind.length ∧
      d.file.position + bytes.length < 2 ^ 32
  | .readBytes length => d.file.readlength length ≠ 0 → At d d.file.readPos
  | .seek seekValue => ((d.file.position + seekValue) % 2 ^ 32).toNat ≤ d.file.filesize
  | .resetPosition => True

variable {d : Device} {f : RamFiles.ByteFile} {chain front behind added : List Nat}
  {bytes : List Byte} {w : Written} {call : Call}

theorem RamChain.unique (first : RamChain d chain) {chain' : List Nat}
    (second : RamChain d chain') :
    chain = chain' := by
  obtain ⟨rest, rfl⟩ := List.head?_eq_some_iff.mp first.2
  obtain ⟨rest', rfl⟩ := List.head?_eq_some_iff.mp second.2
  rw [first.1.unique second.1]

theorem getElem?_bytes (disk : RamDisk) (blocks : List Nat) {i y : Nat}
    (inside : y < ramdiskBlockSize) :
    (disk.bytes blocks)[ramdiskBlockSize * i + y]? =
      blocks[i]?.map fun block => disk.buffer block y := by
  rw [RamDisk.bytes, getElem?_rows (fun _ _ => length_bytesAt) inside]
  cases blocks[i]? with
  | none => rfl
  | some block =>
    simp only [Option.bind_some, Option.map_some]
    rw [List.getElem?_eq_getElem (by rwa [length_bytesAt]), getElem_bytesAt, Nat.zero_add]

/-- What a write that succeeds stores along the chain. -/
theorem stored_wrote (place : front.length = d.file.position / ramdiskBlockSize)
    (inside : d.file.position ≤ ramdiskBlockSize * (front ++ d.file.currentBlock :: behind).length)
    (wrote : Wrote d.disk d.file front behind bytes w added) (fine : w.error = cOk)
    (kept : ∀ i block y, (front ++ d.file.currentBlock :: behind)[i]? = some block →
      d.file.position + bytes.length ≤ ramdiskBlockSize * i + y →
        w.disk.buffer block y = d.disk.buffer block y) :
    Stored (d.disk.bytes (front ++ d.file.currentBlock :: behind))
      (w.disk.bytes ((front ++ d.file.currentBlock :: behind) ++ added)) d.file.position bytes
      (ramdiskBlockSize * (front ++ d.file.currentBlock :: behind).length) := by
  have stored := wrote.stored fine
  rw [place, Nat.div_add_mod] at stored
  obtain ⟨rest, whole⟩ := stored
  have length : ((d.disk.bytes (front ++ d.file.currentBlock :: behind)).take
      d.file.position).length = d.file.position := by
    rw [List.length_take, length_bytes]
    omega
  constructor
  · intro i less
    rw [← whole, List.append_assoc, List.getElem?_append_left (by omega),
      List.getElem?_take_of_lt less]
  · intro i less
    rw [← whole, List.append_assoc, List.getElem?_append_right (by omega), length,
      Nat.add_sub_cancel_left, List.getElem?_append_left less]
  · intro i above below
    have offset := Nat.mod_lt i (by decide : 0 < ramdiskBlockSize)
    rw [← Nat.div_add_mod i ramdiskBlockSize, getElem?_bytes _ _ offset, getElem?_bytes _ _ offset]
    have member : i / ramdiskBlockSize < (front ++ d.file.currentBlock :: behind).length :=
      Nat.div_lt_of_lt_mul below
    rw [List.getElem?_append_left member, List.getElem?_eq_getElem member]
    simp only [Option.map_some]
    rw [kept _ _ _ (List.getElem?_eq_getElem member) (by rwa [Nat.div_add_mod])]

theorem chained_of_holds (holds : RamFiles.Holds d chain f) : RamChain d chain :=
  ⟨holds.linked, holds.first⟩

theorem content_ramSeen (holds : RamFiles.Holds d chain f) :
    (ramSeen d chain).content = f.content := by
  rw [OpenFile.content, ramSeen, holds.size]
  exact (List.prefix_iff_eq_take.mp holds.stored).symm

theorem length_lt_of_holds (holds : RamFiles.Holds d chain f) :
    f.content.length < ramdiskBlockSize * chain.length := by
  have inside := Nat.mod_lt f.content.length (by decide : 0 < ramdiskBlockSize)
  have split := Nat.div_add_mod f.content.length ramdiskBlockSize
  rw [holds.length, Nat.mul_succ]
  omega

/-- What a call leaves when the file holds its bytes then. -/
theorem Contract.of_holds {answer : RamFiles.Answer} {before : OpenFile}
    (holds : RamFiles.Holds d chain f)
    (fine : answer.2 = cOk)
    (written : ∀ length, call = .readBytes length →
      answer.1 <+: before.content.drop before.readPos ∧ f.content = before.content) :
    Contract call answer before (ramSeen d chain) := by
  have full := length_lt_of_holds holds
  constructor
  · rw [ramSeen, holds.size, length_bytes]
    exact Nat.le_of_lt full
  · rw [ramSeen, holds.size]
    exact holds.position
  · intro bytes _ failed
    rw [fine] at failed
    exact absurd failed (by decide)
  · exact fun _ _ _ => fine
  · intro length asked
    rw [content_ramSeen holds]
    exact written length asked

/-- A write that finds its place and the room puts its bytes over the content. -/
theorem holds_overwrite (holds : RamFiles.Holds d chain f) (some : bytes ≠ [])
    (fits : RamFits d (.writeBytes bytes)) :
    (d.perform (.writeBytes bytes)).2.2 = cOk ∧
      ∃ chain', RamFiles.Holds (d.perform (.writeBytes bytes)).1 chain'
        ⟨overlay f.content d.file.position bytes, f.cursor⟩ := by
  obtain ⟨front, behind, chained, place, enough, passable, word⟩ := fits some
  obtain rfl := (chained_of_holds holds).unique chained
  have full := length_lt_of_holds holds
  have position := holds.position
  obtain ⟨added, record, wrote⟩ :=
    writeFrom_wrote [] holds.sized holds.counted holds.linked holds.used passable
  have kept (i block y : Nat) (member : (front ++ d.file.currentBlock :: behind)[i]? = .some block)
      (after : d.file.position + bytes.length ≤ ramdiskBlockSize * i + y) :
      (d.file.writeFrom d.disk [] bytes).disk.buffer block y = d.disk.buffer block y := by
    apply writeFrom_kept [] holds.sized holds.counted holds.linked holds.used passable member
    rw [place, Nat.div_add_mod]
    exact .inr after
  have result := writeBytes_eq d.file d.disk bytes
  generalize d.file.writeFrom d.disk [] bytes = w at wrote result kept
  have fine := wrote.enough enough
  have stored := stored_wrote place (by omega) wrote fine kept
  have final := wrote.position fine word
  have more := wrote.more fine
  rw [if_pos fine] at result
  -- the content before is what counts of the bytes of the chain
  have content : (d.disk.bytes (front ++ d.file.currentBlock :: behind)).take f.content.length =
      f.content := (List.prefix_iff_eq_take.mp holds.stored).symm
  have length : (overlay f.content d.file.position bytes).length =
      max f.content.length (d.file.position + bytes.length) := length_overlay position
  have whole : (w.disk.bytes ((front ++ d.file.currentBlock :: behind) ++ added)).take
      (overlay f.content d.file.position bytes).length =
        overlay f.content d.file.position bytes := by
    have prefix_ : Stored (d.disk.bytes (front ++ d.file.currentBlock :: behind))
        (w.disk.bytes ((front ++ d.file.currentBlock :: behind) ++ added)) d.file.position bytes
        f.content.length :=
      ⟨stored.front, stored.here, fun i above below => stored.behind i above (by omega)⟩
    rw [length, prefix_.take_eq position (by rw [length_bytes]; omega), content]
  simp only [Device.perform, result]
  refine ⟨fine, (front ++ d.file.currentBlock :: behind) ++ added, wrote.grown.sized,
    wrote.grown.counted, wrote.grown.linked, wrote.grown.used_chain holds.used, ?_, wrote.place,
    ?_, ?_, ?_, ?_, wrote.reads.trans holds.cursor, ?_, ?_⟩
  · rw [List.head?_append, holds.first]
    exact congrArg Option.some wrote.first.symm
  · have count := holds.length
    rw [List.length_append] at count
    rw [List.length_append, List.length_append, more, length]
    simp only [List.length_cons] at count ⊢
    unfold endsPassed ramdiskBlockSize at *
    omega
  · rw [← whole]
    exact List.take_prefix _ _
  · change max w.file.filesize w.file.position = _
    rw [length, wrote.size, final, holds.size]
  · have small := holds.word
    change (overlay f.content d.file.position bytes).length < _
    omega
  · have inside := holds.inside
    change f.cursor ≤ (overlay f.content d.file.position bytes).length
    omega
  · change w.file.position ≤ (overlay f.content d.file.position bytes).length
    omega

/-- A call that fits meets the contract, and leaves the file with its bytes. -/
theorem ram_step (holds : RamFiles.Holds d chain f) (fits : RamFits d call) :
    RamContract d call ∧ ∃ chain' f', RamFiles.Holds (d.perform call).1 chain' f' := by
  have chained := chained_of_holds holds
  cases call with
  | writeBytes bytes =>
    by_cases none : bytes = []
    · subst none
      have fitting : RamFiles.Fitting d (.writeBytes []) := fun some => absurd rfl some
      obtain ⟨answer, chain', holds'⟩ := RamFiles.holds_perform holds fitting
      have fine : (d.perform (.writeBytes [])).2.2 = cOk := by
        rw [answer]
        rfl
      exact ⟨⟨chain, chain', chained, chained_of_holds holds',
        .of_holds holds' fine fun _ asked => by cases asked⟩, chain', _, holds'⟩
    · obtain ⟨fine, chain', holds'⟩ := holds_overwrite holds none fits
      exact ⟨⟨chain, chain', chained, chained_of_holds holds',
        .of_holds holds' fine fun _ asked => by cases asked⟩, chain', _, holds'⟩
  | readBytes length =>
    have fitting : RamFiles.Fitting d (.readBytes length) := fits
    obtain ⟨answer, chain', holds'⟩ := RamFiles.holds_perform holds fitting
    refine ⟨⟨chain, chain', chained, chained_of_holds holds', .of_holds holds' rfl ?_⟩, chain', _,
      holds'⟩
    intro length' asked
    cases asked
    rw [answer, content_ramSeen holds]
    refine ⟨?_, rfl⟩
    have cursor : (ramSeen d chain).readPos = f.cursor := holds.cursor
    rw [cursor]
    exact List.take_prefix _ _
  | seek seekValue =>
    have moved : RamFiles.Holds (d.perform (.seek seekValue)).1 chain f :=
      { holds with position := fits.trans_eq holds.size }
    exact ⟨⟨chain, chain, chained, chained_of_holds moved,
      .of_holds moved rfl fun _ asked => by cases asked⟩, chain, f, moved⟩
  | resetPosition =>
    have fitting : RamFiles.Fitting d .resetPosition := trivial
    obtain ⟨answer, chain', holds'⟩ := RamFiles.holds_perform holds fitting
    exact ⟨⟨chain, chain', chained, chained_of_holds holds',
      .of_holds holds' rfl fun _ asked => by cases asked⟩, chain', _, holds'⟩

end Ram

/-! ### Files of a FAT volume -/

section Fat

open Guarantees.FatVolumes (Supply)
open Guarantees.FatChains (Onward)
open Guarantees.FatFiles (Full Enough SeekRoom contents content)

/-- The calls on a file of a FAT volume. -/
def fatPerform (fs : FATFileSystem) (s : FileState) : Call → FileState × RamFiles.Answer
  | .writeBytes bytes => ((s.writeBytes fs bytes).1, [], (s.writeBytes fs bytes).2)
  | .readBytes length =>
    ((s.readBytes fs length).1, (s.readBytes fs length).2.bytes, (s.readBytes fs length).2.status)
  | .seek seekValue => ((s.seek fs seekValue).1, [], (s.seek fs seekValue).2)
  | .resetPosition => ((s.resetPosition fs).1, [], (s.resetPosition fs).2)

/-- The clusters of a file. -/
def FatChain (fs : FATFileSystem) (s : FileState) (clusters : List Nat) : Prop :=
  Linked (fs.successor s.medium.content) clusters ∧ clusters.head? = some s.file.clusterStart

def fatSeen (fs : FATFileSystem) (s : FileState) (clusters : List Nat) : OpenFile :=
  ⟨contents fs s clusters, s.file.filesize, s.file.position, s.file.position⟩

def FatContract (fs : FATFileSystem) (s : FileState) (call : Call) : Prop :=
  ∃ clusters clusters', FatChain fs s clusters ∧ FatChain fs (fatPerform fs s call).1 clusters' ∧
    Contract call (fatPerform fs s call).2 (fatSeen fs s clusters)
      (fatSeen fs (fatPerform fs s call).1 clusters')

/-- A write begins behind the last sector of the chain, or finds the sectors up to the one for
the byte behind it, or goes beyond a chain that is filled with the file and that no cluster is
free for. A seek finds the sectors up to its place. -/
def FatFits (fs : FATFileSystem) (s : FileState) : Call → Prop
  | .writeBytes bytes => bytes ≠ [] → ∃ clusters, FatChain fs s clusters ∧
    (s.file.position = 512 * (fs.myFATBPB.secPerClus * clusters.length) ∨
      s.file.position + bytes.length < 2 ^ 32 ∧
        (Enough fs s clusters (s.file.position + bytes.length) ∨
          Full fs s clusters ∧ s.file.filesize < s.file.position + bytes.length))
  | .readBytes _ => True
  | .seek seekValue => ∃ clusters, FatChain fs s clusters ∧ SeekRoom fs s clusters seekValue
  | .resetPosition => True

variable {fs : FATFileSystem} {s s' : FileState} {clusters clusters' : List Nat}
  {bytes : List Byte} {call : Call}

theorem chained_of_fat (holds : FatFiles.Holds fs s clusters) : FatChain fs s clusters :=
  ⟨holds.linked, holds.first⟩

theorem chain_unique (holds : FatFiles.Holds fs s clusters) (chain : FatChain fs s clusters') :
    clusters' = clusters := holds.toChained.unique chain.1 chain.2

/-- What a call leaves that keeps the file. -/
theorem Contract.of_fat {answer : RamFiles.Answer} {before : OpenFile}
    (holds : FatFiles.Holds fs s' clusters')
    (write : ∀ bytes, call = .writeBytes bytes → answer.2 = cOk ∨
      ∃ k < bytes.length, (contents fs s' clusters').length ≤ before.position + k ∧
        content fs s' clusters' = overlay before.content before.position (bytes.take k))
    (read : ∀ length, call = .readBytes length →
      answer.1 <+: before.content.drop before.readPos ∧
        content fs s' clusters' = before.content) :
    Contract call answer before (fatSeen fs s' clusters') := by
  constructor
  · rw [fatSeen, FatFiles.length_contents]
    exact holds.size
  · exact holds.position
  · intro bytes asked error
    rcases write bytes asked with fine | ⟨k, less, _, kept⟩
    · rw [fine] at error
      exact absurd error (by decide)
    · exact ⟨k, Nat.le_of_lt less, kept⟩
  · intro bytes asked all
    rcases write bytes asked with fine | ⟨k, less, ended, _⟩
    · exact fine
    · have length := congrArg List.length all
      rw [List.length_take, List.length_drop] at length
      change min _ ((contents fs s' clusters').length - _) = _ at length
      omega
  · exact read

/-- A write that fits meets the contract. -/
theorem fat_write (holds : FatFiles.Holds fs s clusters) (fits : FatFits fs s (.writeBytes bytes)) :
    ∃ clusters', FatFiles.Holds fs (s.writeBytes fs bytes).1 clusters' ∧
      Contract (.writeBytes bytes) ([], (s.writeBytes fs bytes).2) (fatSeen fs s clusters)
        (fatSeen fs (s.writeBytes fs bytes).1 clusters') := by
  have size := holds.size
  have position := holds.position
  have nothing : Supply fs s.medium (fs.searchStart s.medium) 0 := trivial
  have reads {answer : RamFiles.Answer} {content' : List Byte} : ∀ length,
      Call.writeBytes bytes = .readBytes length →
        answer.1 <+: (fatSeen fs s clusters).content.drop (fatSeen fs s clusters).readPos ∧
          content' = (fatSeen fs s clusters).content := fun _ asked => by cases asked
  by_cases none : bytes = []
  · subst none
    rw [holds.writeBytes_nil]
    exact ⟨clusters, holds, .of_fat holds (fun _ _ => .inl rfl) reads⟩
  obtain ⟨clusters₁, chain, cases_⟩ := fits none
  obtain rfl := chain_unique holds chain
  by_cases ended : s.file.position = 512 * (fs.myFATBPB.secPerClus * clusters₁.length)
  · obtain ⟨s', result, holds', file, same⟩ := holds.writeBytes_end none ended
    rw [result]
    refine ⟨clusters₁, holds', .of_fat holds' ?_ reads⟩
    intro bytes' asked
    cases asked
    refine .inr ⟨0, List.length_pos_iff.mpr none, ?_, ?_⟩
    · rw [FatFiles.length_contents]
      exact Nat.le_of_eq ended.symm
    · rw [List.take_zero, overlay_nil, FatFiles.content_same same (by rw [Onward, file])]
      rfl
  · obtain ⟨word, cases_⟩ := cases_.resolve_left ended
    have inside : s.file.position < 512 * (fs.myFATBPB.secPerClus * clusters₁.length) := by omega
    rcases cases_ with ⟨n, supply, enough⟩ | ⟨full, beyond⟩
    · obtain ⟨s', added, result, holds', _⟩ :=
        holds.writeBytes_enough (fun _ => inside) word supply enough
      rw [result]
      exact ⟨_, holds', .of_fat holds' (fun _ _ => .inl rfl) reads⟩
    · obtain ⟨s', result, holds', position', filesize, kept⟩ :=
        holds.writeBytes_dry inside full.whole (Nat.le_of_lt beyond) word full.dry
      rw [result]
      refine ⟨clusters₁, holds', .of_fat holds' ?_ reads⟩
      intro bytes' asked
      cases asked
      refine .inr ⟨s.file.filesize - s.file.position, by omega, ?_, kept⟩
      rw [FatFiles.length_contents, ← full.whole]
      change s.file.filesize ≤ s.file.position + _
      omega

/-- A call that fits meets the contract, and leaves a file of the volume. -/
theorem fat_step (holds : FatFiles.Holds fs s clusters) (fits : FatFits fs s call) :
    FatContract fs s call ∧ ∃ clusters', FatFiles.Holds fs (fatPerform fs s call).1 clusters' := by
  cases call with
  | writeBytes bytes =>
    obtain ⟨clusters', holds', contract⟩ := fat_write holds fits
    exact ⟨⟨clusters, clusters', chained_of_fat holds, chained_of_fat holds', contract⟩, clusters',
      holds'⟩
  | readBytes length =>
    obtain ⟨s', status, bytes, length', result, holds', same, onward, answered⟩ :=
      holds.readBytes length
    have kept : content fs s' clusters = content fs s clusters := FatFiles.content_same same onward
    rw [FatContract, fatPerform, result]
    refine ⟨⟨clusters, clusters, chained_of_fat holds, chained_of_fat holds', .of_fat holds' ?_ ?_⟩,
      clusters, holds'⟩
    · intro _ asked
      cases asked
    · exact fun _ _ => ⟨answered, kept⟩
  | seek seekValue =>
    obtain ⟨clusters₁, chain, room⟩ := fits
    obtain rfl := chain_unique holds chain
    obtain ⟨clusters', holds'⟩ := holds.seek room
    refine ⟨⟨clusters₁, clusters', chain, chained_of_fat holds', .of_fat holds' ?_ ?_⟩, clusters',
      holds'⟩
    · intro _ asked
      cases asked
    · intro _ asked
      cases asked
  | resetPosition =>
    have holds' := holds.rewound
    refine ⟨⟨clusters, clusters, chained_of_fat holds, chained_of_fat holds', .of_fat holds' ?_ ?_⟩,
      clusters, holds'⟩
    · intro _ asked
      cases asked
    · intro _ asked
      cases asked

end Fat

/-! ### Runs -/

/-- Every call of a run of fitting calls meets the contract, for a file of the ram file system
and for a file of a FAT volume. -/
theorem contract_of_fitting (fs : FATFileSystem) (calls : List Call) :
    (∀ d chain f, RamFiles.Holds d chain f →
      Admissible (fun d call => (Device.perform d call).1) RamFits d calls →
      ∀ front call back, calls = front ++ call :: back →
        RamContract (exec (fun d call => (Device.perform d call).1) d front) call) ∧
    ∀ s clusters, FatFiles.Holds fs s clusters →
      Admissible (fun s call => (fatPerform fs s call).1) (FatFits fs) s calls →
      ∀ front call back, calls = front ++ call :: back →
        FatContract fs (exec (fun s call => (fatPerform fs s call).1) s front) call := by
  constructor
  · intro d chain f holds admissible
    refine steps_of_invariant (fun d => ∃ chain f, RamFiles.Holds d chain f) ?_ calls d
      ⟨chain, f, holds⟩ admissible
    intro d call
    rintro ⟨chain, f, holds⟩ fits
    exact ram_step holds fits
  · intro s clusters holds admissible
    refine steps_of_invariant (fun s => ∃ clusters, FatFiles.Holds fs s clusters) ?_ calls s
      ⟨clusters, holds⟩ admissible
    intro s call
    rintro ⟨clusters, holds⟩ fits
    exact fat_step holds fits

/-- A FAT16 volume of 9958 clusters of one sector. -/
def smallFileSystem : FATFileSystem where
  myFatType := .fat16
  myFATBPB := ⟨0xeb, 512, 1, 1, 1, 16, 10000, 40, 0⟩
  myFAT32BPB := ⟨0, 0, 0⟩
  rootDirSectors := 1
  firstDataSector := 42
  dataSec := 9958
  countOfClusters := 9958
  sectorShiftValue := 0

/-- Only cluster 2 is in use. -/
def smallVolume : Medium where
  content
    | 1, 4 => 0xff
    | 1, 5 => 0xff
    | _, _ => 0
  sectors := 10001
  outcome _ := cOk
  requests := []

/-- Its file of five bytes. -/
def smallFile : FileState where
  medium := smallVolume
  buffer _ := 0
  file := ⟨[], 5, 0, 0, 2, 42, 2, 41, 0, none⟩

theorem usable_small : FatVolumes.Usable smallFileSystem smallVolume where
  partition := .inl ⟨rfl, by decide, by decide, by decide, by decide⟩
  reliable _ := rfl
  shift := rfl
  aligned := by decide
  table := by decide
  sectors := by decide
  ends := by decide

theorem holds_small : FatFiles.Holds smallFileSystem smallFile [2] where
  usable := usable_small
  linked := by decide
  inVolume c member := by
    obtain rfl := List.mem_singleton.mp member
    exact ⟨by decide, by decide⟩
  first := rfl
  listed := by decide
  behind := by decide
  apart c inVolume taken := by
    -- the entry lies in front of the data area
    intro inside
    have low := (List.mem_range'_1.mp inside).1
    rw [FATFileSystem.firstSector] at low
    exact absurd (Nat.le_trans (Nat.le_add_right _ _) low) (by decide)
  sector := by decide
  cluster c member := by
    have here : [2][0]? = some c := member
    exact Option.some.inj here
  size := by decide
  word := by decide
  position := by decide

/-- The second write of a byte goes behind the first one. -/
theorem oneFile_written_twice :
    exec (fun d call => (Device.perform d call).1) RamFiles.oneFile
        [.writeBytes [97], .writeBytes [98]] =
      ⟨(RamFiles.oneFile.disk.store 0 0 [97]).store 0 1 [98], ⟨0, 0, 0, 2, 2⟩⟩ := by
  rw [exec, RamFiles.oneFile_written, exec, exec, Device.perform, RamFile.writeBytes,
    RamFile.writeFrom, if_neg (List.cons_ne_nil _ _), if_pos (by decide)]
  rfl

theorem smallFile_written :
    ∃ s, (fatPerform smallFileSystem smallFile (.writeBytes [1, 2, 3])).1 = s ∧
    FatFiles.Holds smallFileSystem s [2] ∧ s.file.position = 3 := by
  obtain ⟨s, added, result, holds, position, _, few, _⟩ :=
    holds_small.writeBytes_enough (fun (_ : ([1, 2, 3] : List Byte) ≠ []) => by decide) (by decide)
      (n := 0) trivial (by decide)
  obtain rfl := List.length_eq_zero_iff.mp (Nat.le_zero.mp few)
  exact ⟨s, congrArg Prod.fst result, holds, position⟩

/-- Two bytes are written to a file of the ram file system one after the other, and both are
read. Three bytes are written to the file of the volume, and three more behind them. -/
theorem contract_of_fitting_written :
    RamContract (exec (fun d call => (Device.perform d call).1) RamFiles.oneFile
        [.writeBytes [97], .writeBytes [98]]) (.readBytes 2) ∧
      FatContract smallFileSystem
        (exec (fun s call => (fatPerform smallFileSystem s call).1) smallFile
          [.writeBytes [1, 2, 3]])
        (.writeBytes [4, 5, 6]) := by
  constructor
  · refine (contract_of_fitting smallFileSystem
      [.writeBytes [97], .writeBytes [98], .readBytes 2]).1 RamFiles.oneFile [0] ⟨[], 0⟩
      (RamFiles.holds_create (sized_construct 0 (2 ^ 20)) counted_construct rfl (by decide))
      ⟨fun _ => ⟨[], [], ⟨⟨rfl, trivial⟩, rfl⟩, rfl, Nat.zero_le _, .inr (Nat.zero_le _),
        by decide⟩,
        ?_, ?_, trivial⟩ _ _ [] rfl
    · beta_reduce
      rw [RamFiles.oneFile_written]
      exact fun _ => ⟨[], [], ⟨⟨rfl, trivial⟩, rfl⟩, rfl, Nat.zero_le _, .inr (Nat.zero_le _),
        by decide⟩
    · change RamFits (exec (fun d call => (Device.perform d call).1) RamFiles.oneFile
        [.writeBytes [97], .writeBytes [98]]) (.readBytes 2)
      rw [oneFile_written_twice]
      exact fun _ => ⟨[], [], ⟨rfl, trivial⟩, rfl, rfl⟩
  · refine (contract_of_fitting smallFileSystem [.writeBytes [1, 2, 3], .writeBytes [4, 5, 6]]).2
      smallFile [2] holds_small
      ⟨fun _ => ⟨[2], ⟨by decide, rfl⟩, .inr ⟨by decide, .inl ⟨0, trivial, by decide⟩⟩⟩,
        ?_, trivial⟩
      _ _ [] rfl
    obtain ⟨s, written, holds, position⟩ := smallFile_written
    beta_reduce
    rw [written]
    refine fun _ => ⟨[2], chained_of_fat holds, .inr ⟨?_, .inl ⟨0, trivial, ?_⟩⟩⟩
    · rw [position]
      decide
    · rw [position]
      decide

/-- A seek goes behind the end of the one file, and a write to the other fills its last sector
where no cluster is free. -/
theorem position_behind_size :
    (¬∀ d chain f call, RamFiles.Holds d chain f → RamContract d call) ∧
      ¬∀ fs s clusters call, FatFiles.Holds fs s clusters → FatContract fs s call := by
  constructor
  · intro all
    obtain ⟨_, _, _, _, contract⟩ := all RamFiles.oneFile [0] ⟨[], 0⟩ (.seek 100)
      (RamFiles.holds_create (sized_construct 0 (2 ^ 20)) counted_construct rfl (by decide))
    have inside : 100 ≤ 0 := contract.inside
    exact absurd inside (by decide)
  · intro all
    obtain ⟨clusters, clusters', _, _, contract⟩ :=
      all smallFileSystem smallFile [2] (.writeBytes (FileState.zeros 512)) holds_small
    obtain ⟨s', result, _, onward, position, _⟩ :=
      FatFiles.writeLoop_dry (FileState.zeros 512) smallFile false holds_small.toAt (by decide)
        (by rw [FileState.length_zeros]; decide) (by rw [FileState.length_zeros]; decide)
        (by decide) (fun none => by cases none) (.inl rfl)
    have stopped : smallFile.writeBytes smallFileSystem (FileState.zeros 512) =
        (s', cDeviceMemoryExhausted) := by
      rw [FileState.writeBytes, result]
    have inside := contract.inside
    rw [fatPerform, stopped] at inside
    have filesize : s'.file.filesize = 5 := onward.filesize
    have place : s'.file.position = 512 := position
    change s'.file.position ≤ s'.file.filesize at inside
    omega

end Orcos.Guarantees.FileWrites
