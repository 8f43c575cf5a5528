import Orcos.Source.Fat.FATAccess

/-!
# The FAT buffers in the mutex

Source: src/source/filesystem/fat/FATDirectory.cc, `populateDirectory`, `allocateEntry`,
`removeFileEntries`; src/source/filesystem/fat/FATFile.cc, `readBytes`, `writeBytes`, `seek`.

Files keep to the mutex, also where `seek` lets `writeBytes` release it. The entries of a
directory are read without it, and a name that is too long is refused with it.
-/
namespace Orcos.Guarantees.BufferAccess
open Lib.ByteMemory Lib.Loop Lib.Guarding Lib.Runs Source Source.Fat Source.Fat.FATAccess

/-- The call accesses the buffers in the mutex only, and gives it back: it does not read in a
directory, and refuses no name for its length. -/
def Exclusive : Call → Prop
  | .populateDirectory _ _ _ _ => False
  | .allocateEntry _ _ _ name _ _ s =>
    s.dir.populated = true ∧ (name.length ≤ 255 ∨ (s.dir.find name).isSome = true)
  | .removeFileEntries _ _ _ _ _ | .readBytes _ _ _ | .writeBytes _ _ _ | .seek _ _ _ _ => True

section Files

variable {α β : Type} {fs : FATFileSystem} {file : FATFile} {held : Bool}
  {post : β → Bool → Prop}

theorem guarded_onFile {f : FileState → FileState × α} {g : FATFile × α → Prog Sectors β}
    (rest : ∀ file a, Guarded (g (file, a)) post true) :
    Guarded (onFile file f >>= g) post true := guarded_act fun r => rest r.1 r.2

theorem guarded_readLoop (fs : FATFileSystem) (length : Nat) (file : FATFile) (readlength : Nat)
    (bytes : List Byte) : Guarded (readLoop fs length file readlength bytes) Released true := by
  induction readlength using Nat.strongRecOn generalizing file bytes with
  | _ readlength ih =>
    rw [readLoop]
    split
    · next more =>
      have less : readlength - sectorLen file.sectorPos readlength < readlength :=
        Nat.sub_lt more (sectorLen_pos (FATFile.sectorPos_lt _) more)
      apply guarded_onFile
      intro file read
      dsimp only
      cases read with
      | error error => exact guarded_unlock rfl
      | ok read =>
        dsimp only
        split
        · exact ih _ less _ _
        · apply guarded_onFile
          intro file more
          dsimp only
          split
          · exact ih _ less _ _
          · exact guarded_unlock rfl
    · exact guarded_unlock rfl

theorem guarded_readBytes (fs : FATFileSystem) (file : FATFile) (length : Nat) :
    Guarded (FATAccess.readBytes fs file length) Released false := by
  unfold FATAccess.readBytes
  dsimp only
  generalize (if wordSub file.filesize file.position < length then
    wordSub file.filesize file.position else length) = readlength
  split
  · exact rfl
  · apply guarded_lock
    exact guarded_readLoop fs length file readlength []

theorem guarded_updateSize (file : FATFile) :
    Guarded (FATAccess.updateSize file) Released true := by
  unfold FATAccess.updateSize
  split
  · apply guarded_onFile
    intro file error
    exact guarded_unlock rfl
  · exact guarded_unlock rfl

theorem guarded_writeLoop (fs : FATFileSystem) (file : FATFile) (bytes : List Byte)
    (newSector : Bool) : Guarded (FATAccess.writeLoop fs file bytes newSector) Released true := by
  induction len : bytes.length using Nat.strongRecOn generalizing file bytes newSector with
  | _ n ih =>
    rw [FATAccess.writeLoop]
    split
    · next more =>
      have less : (bytes.drop (sectorLen file.sectorPos bytes.length)).length < n := by
        rw [List.length_drop, ← len]
        exact Nat.sub_lt more (sectorLen_pos (FATFile.sectorPos_lt _) more)
      apply guarded_onFile
      intro file error
      dsimp only
      split
      · exact guarded_unlock rfl
      · split
        · exact ih _ less _ _ _ rfl
        · apply guarded_onFile
          intro file more
          dsimp only
          split
          · exact ih _ less _ _ _ rfl
          · exact guarded_unlock rfl
    · exact guarded_updateSize file

/-- `writeBytes` releases the mutex, also when the caller has it. -/
theorem guarded_writeBytes (fs : FATFileSystem) (file : FATFile) (bytes : List Byte) (held : Bool) :
    Guarded (FATAccess.writeBytes fs file bytes) Released held :=
  guarded_lock (guarded_writeLoop fs file bytes false)

theorem guarded_seekLoop (fs : FATFileSystem) (file : FATFile) (seekValue : Int) :
    Guarded (FATAccess.seekLoop fs file seekValue) Released true := by
  induction len : seekValue.toNat using Nat.strongRecOn generalizing file seekValue with
  | _ n ih =>
    rw [FATAccess.seekLoop]
    split
    · next more =>
      have less : (seekValue - sectorLen file.sectorPos seekValue.toNat).toNat < n := by
        rw [← len]
        exact toNat_sub_lt more (sectorLen_pos (FATFile.sectorPos_lt _) (by omega))
      dsimp only
      split
      · exact ih _ less _ _ rfl
      · apply guarded_onFile
        intro file more
        dsimp only
        split
        · exact ih _ less _ _ rfl
        · exact guarded_unlock rfl
    · exact guarded_unlock rfl

/-- Behind the first block of zeros the mutex is free. -/
theorem guarded_fillLoop (fs : FATFileSystem) (file : FATFile) {n : Nat} {held : Bool}
    (free : held = false ∨ 0 < n) : Guarded (FATAccess.fillLoop fs file n) Released held := by
  induction n using Nat.strongRecOn generalizing file held with
  | _ n ih =>
    rw [FATAccess.fillLoop]
    split
    · next more =>
      split
      · apply (guarded_writeBytes fs file _ held).bind
        intro r held released
        exact ih _ (by omega) _ (.inl released)
      · apply (guarded_writeBytes fs file _ held).bind
        intro r held released
        exact released
    · next none_ => exact free.resolve_right none_

theorem newPosition_lt (file : FATFile) (seekValue : Int) :
    file.newPosition seekValue < 2 ^ 32 := by
  unfold FATFile.newPosition
  dsimp only
  split
  · decide
  · split
    · decide
    · exact BitVec.isLt _

/-- A seek by 0 leaves all as it is, and every other one releases the mutex. -/
theorem guarded_seek (fs : FATFileSystem) (rounds : Nat) (file : FATFile) (seekValue : Int)
    (held : Bool) : Guarded (FATAccess.seek fs rounds file seekValue) (fun r held' =>
      held' = false ∨ seekValue = 0 ∧ r.1 = file ∧ held' = held) held := by
  induction rounds generalizing file seekValue held with
  | zero => trivial
  | succ rounds ih =>
    rw [FATAccess.seek]
    split
    · next stays => exact .inr ⟨stays, rfl, rfl⟩
    · have loop (start : FATFile) (value : Int) : Guarded (FATAccess.seekLoop fs start value)
          (fun r held' => held' = false ∨ seekValue = 0 ∧ r.1 = file ∧ held' = held) true :=
        (guarded_seekLoop fs start value).mono fun r held released => .inl released
      apply guarded_lock
      dsimp only
      split
      · exact loop _ _
      · split
        · next behind =>
          apply (ih file (int4 (wordSub file.filesize file.position)) true).bind
          rintro ⟨file', error⟩ held' ends
          have free : held' = false ∨ 0 < wordSub (file.newPosition seekValue) file'.filesize := by
            rcases ends with released | ⟨-, rfl, -⟩
            · exact .inl released
            · have word := newPosition_lt file' seekValue
              rw [wordSub_eq (Nat.le_of_lt behind) word]
              exact .inr (Nat.sub_pos_of_lt behind)
          apply (guarded_fillLoop fs file' free).bind
          intro file held released
          exact .inl released
        · exact loop _ _

end Files

section Directories

variable {α β : Type} {fs : FATFileSystem} {s : DirState} {post : β → Bool → Prop}

theorem guarded_onDirectory {f : DirState → DirState × α} {g : DirState × α → Prog Sectors β}
    (rest : ∀ s a, Guarded (g (s, a)) post true) :
    Guarded (onDirectory s f >>= g) post true := guarded_act fun r => rest r.1 r.2

/-- The mutex is kept. -/
def Inside (_ : α) (held : Bool) : Prop := held = true

theorem guarded_searchLoop (fs : FATFileSystem) (name : List Byte) (rounds : Nat)
    (search : FreeSearch) : Guarded (searchLoop fs name rounds search) Inside true := by
  induction rounds generalizing search with
  | zero => trivial
  | succ rounds ih =>
    rw [searchLoop]
    apply guarded_onDirectory
    intro s round
    cases round with
    | again search => exact ih search
    | done search => exact rfl

theorem guarded_writeLongEntries (fs : FATFileSystem) (entries : List DirEntry) (s : DirState)
    (entry : Option Nat) : Guarded (FATAccess.writeLongEntries fs entries s entry) Inside true := by
  induction entries generalizing s entry with
  | nil => exact rfl
  | cons e es ih =>
    cases entry with
    | none => trivial
    | some number =>
      rw [FATAccess.writeLongEntries]
      apply guarded_onDirectory
      intro s entry
      exact ih s entry

theorem guarded_finishEntry (fs : FATFileSystem) (append : Bool) (a : Allocation) (s : DirState) :
    Guarded (FATAccess.finishEntry fs append a s) Released true := by
  unfold FATAccess.finishEntry
  split
  · apply guarded_onDirectory
    intro s entry
    cases entry with
    | none => exact guarded_unlock rfl
    | some number =>
      apply guarded_onDirectory
      intro s _
      exact guarded_unlock rfl
  · apply guarded_onDirectory
    intro s _
    exact guarded_unlock rfl

theorem guarded_enterEntries (fs : FATFileSystem) (name : List Byte) (attr fileCluster : Nat)
    (append : Bool) (s : DirState) (entry : Option Nat) :
    Guarded (FATAccess.enterEntries fs name attr fileCluster append s entry) Released true := by
  unfold FATAccess.enterEntries
  apply (guarded_writeLongEntries fs _ s entry).bind
  rintro ⟨s, entry⟩ held inside
  cases inside
  cases entry with
  | none => exact guarded_unlock rfl
  | some number =>
    apply guarded_onDirectory
    intro s _
    exact guarded_finishEntry fs append _ s

theorem guarded_placeEntry (fs : FATFileSystem) (name : List Byte) (attr cluster : Nat)
    (search : FreeSearch) :
    Guarded (FATAccess.placeEntry fs name attr cluster search) Released true := by
  unfold FATAccess.placeEntry
  apply guarded_onDirectory
  intro s entry
  dsimp only
  split
  · apply guarded_onDirectory
    intro s fileCluster
    dsimp only
    split
    · exact guarded_unlock rfl
    · exact guarded_enterEntries fs name attr fileCluster _ s entry
  · exact guarded_enterEntries fs name attr cluster _ s entry

theorem guarded_insertEntry (fs : FATFileSystem) {name : List Byte} (short : name.length ≤ 255)
    (rounds attr cluster : Nat) (s : DirState) :
    Guarded (FATAccess.insertEntry fs name rounds attr cluster s) Released false := by
  unfold FATAccess.insertEntry
  apply guarded_lock
  rw [if_neg (Nat.not_lt.mpr short)]
  apply guarded_onDirectory
  intro s entry
  cases entry with
  | none => exact guarded_unlock rfl
  | some number =>
    apply (guarded_searchLoop fs name rounds _).bind
    intro search held inside
    cases inside
    exact guarded_placeEntry fs name attr cluster search

theorem allocateEntry_populated {fresh : Memory} {name : List Byte} {rounds attr cluster : Nat}
    (populated : s.dir.populated = true) :
    FATAccess.allocateEntry fs fresh name rounds attr cluster s =
      if (s.dir.find name).isSome then pure (s, none)
      else FATAccess.insertEntry fs name rounds attr cluster s := by
  rw [FATAccess.allocateEntry, populate, if_pos populated]
  rfl

theorem guarded_allocateEntry (fs : FATFileSystem) (fresh : Memory) {name : List Byte}
    {s : DirState} (populated : s.dir.populated = true)
    (short : name.length ≤ 255 ∨ (s.dir.find name).isSome = true) (rounds attr cluster : Nat) :
    Guarded (FATAccess.allocateEntry fs fresh name rounds attr cluster s) Released false := by
  rw [allocateEntry_populated populated]
  split
  · exact rfl
  · next unknown => exact guarded_insertEntry fs (short.resolve_right unknown) rounds attr cluster s

theorem guarded_removeShort (fs : FATFileSystem) (file : FATFile) (rounds : Nat)
    (freeClusterChain : Bool) (s : DirState) :
    Guarded (FATAccess.removeShort fs file rounds freeClusterChain s) Released true := by
  unfold FATAccess.removeShort
  apply guarded_onDirectory
  intro s entry
  cases entry with
  | none => exact guarded_unlock rfl
  | some number =>
    apply guarded_onDirectory
    intro s _
    dsimp only
    split
    · apply guarded_onDirectory
      intro s freed
      dsimp only
      split
      · exact guarded_unlock rfl
      · trivial
    · exact guarded_unlock rfl

theorem guarded_removeLong (fs : FATFileSystem) (file : FATFile) (freeClusterChain : Bool)
    (rounds : Nat) (s : DirState) (entry : Option Nat) :
    Guarded (FATAccess.removeLong fs file freeClusterChain rounds s entry) Released true := by
  induction rounds generalizing s entry with
  | zero => trivial
  | succ rounds ih =>
    cases entry with
    | none => exact guarded_unlock rfl
    | some number =>
      rw [FATAccess.removeLong]
      apply guarded_onDirectory
      intro s entry
      dsimp only
      split
      · exact guarded_removeShort fs file rounds freeClusterChain s
      · exact ih s entry

theorem guarded_removeFileEntries (fs : FATFileSystem) (file : FATFile) (rounds : Nat)
    (freeClusterChain : Bool) (s : DirState) :
    Guarded (FATAccess.removeFileEntries fs file rounds freeClusterChain s) Released false := by
  unfold FATAccess.removeFileEntries
  apply guarded_lock
  split
  · exact guarded_removeShort fs file rounds freeClusterChain s
  · apply guarded_onDirectory
    intro s entry
    exact guarded_removeLong fs file freeClusterChain rounds s entry

end Directories

section Calls

theorem guarded_program {call : Call} (exclusive : Exclusive call) :
    Guarded call.program Released false := by
  have answered {α : Type} {p : Prog Sectors α} (guarded : Guarded p Released false) :
      Guarded (p >>= fun _ => pure ()) Released false :=
    guarded.bind fun _ held released => released
  cases call with
  | populateDirectory fs fresh rounds d => exact exclusive.elim
  | allocateEntry fs fresh rounds name attr cluster s =>
    exact answered (guarded_allocateEntry fs fresh exclusive.1 exclusive.2 rounds attr cluster)
  | removeFileEntries fs rounds file freeClusterChain s =>
    exact answered (guarded_removeFileEntries fs file rounds freeClusterChain s)
  | readBytes fs file length => exact answered (guarded_readBytes fs file length)
  | writeBytes fs file bytes => exact answered (guarded_writeBytes fs file bytes false)
  | seek fs rounds file seekValue =>
    apply answered
    apply (guarded_seek fs rounds file seekValue false).mono
    rintro r held (released | ⟨-, -, same⟩)
    · exact released
    · exact same

variable {τ : Type} [DecidableEq τ] {calls : Call → Prop} {call : Call}

/-- A call that comes to an access first does so without the mutex. -/
theorem access_breaks {f : Sectors → Sectors} {next : Sectors → Prog Sectors Unit}
    (program : call.program = .access f next) (t : τ) (sectors : Sectors) :
    ¬(exec (Machine.step Call.program) (.start sectors) [.begin t call]).Kept := by
  intro kept
  have state : exec (Machine.step Call.program) (.start sectors) [.begin t call] =
      ⟨sectors, none, Function.update (fun _ => .ret ()) t call.program⟩ := rfl
  rw [state] at kept
  have comes : Function.update (fun _ : τ => Prog.ret ()) t call.program t =
    Prog.access f next := by
    rw [Function.update_self, program]
  have holder := kept.accesses t f next comes
  cases holder

/-- A call that ends behind the acquisition still has the mutex. -/
theorem refusal_breaks (program : call.program = .acquire (.ret ())) (t : τ) (sectors : Sectors) :
    ¬(exec (Machine.step Call.program) (.start sectors) [.begin t call, .run t]).Kept := by
  intro kept
  have state : exec (Machine.step Call.program) (.start sectors) [.begin t call, .run t] =
      Machine.run ⟨sectors, none, Function.update (fun _ => .ret ()) t call.program⟩ t := rfl
  rw [state, program] at kept
  simp only [Machine.run, Function.update_self] at kept
  exact kept.released t (Function.update_self _ _ _) rfl

/-- The calls that are not exclusive come to an access, or to their end with the mutex. -/
theorem program_of_not_exclusive (not_ : ¬Exclusive call) :
    (∃ f next, call.program = .access f next) ∨ call.program = .acquire (.ret ()) := by
  cases call with
  | populateDirectory fs fresh rounds d => exact .inl ⟨_, _, rfl⟩
  | allocateEntry fs fresh rounds name attr cluster s =>
    by_cases populated : s.dir.populated = true
    · right
      have long : ¬name.length ≤ 255 := fun short => not_ ⟨populated, .inl short⟩
      have unknown : ¬(s.dir.find name).isSome = true := fun known =>
        not_ ⟨populated, .inr known⟩
      rw [Call.program, allocateEntry_populated populated, if_neg unknown, FATAccess.insertEntry,
        if_pos (Nat.lt_of_not_le long)]
      rfl
    · left
      rw [Call.program, FATAccess.allocateEntry, populate, if_neg populated]
      exact ⟨_, _, rfl⟩
  | removeFileEntries fs rounds file freeClusterChain s => exact absurd trivial not_
  | readBytes fs file length => exact absurd trivial not_
  | writeBytes fs file bytes => exact absurd trivial not_
  | seek fs rounds file seekValue => exact absurd trivial not_

/-- An empty medium. -/
def blankSectors : Sectors := ⟨⟨fun _ _ => 0, 0, fun _ => cOk, []⟩, fun _ => 0, fun _ => 0⟩

/-- Threads that make such calls keep to the mutex in every run, exactly when each of the calls
is exclusive. -/
theorem buffers_guarded_iff [Inhabited τ] (calls : Call → Prop) :
    (∀ (sectors : Sectors) (ops : List (Op τ Call)), (∀ op ∈ ops, op.From calls) →
      (exec (Machine.step Call.program) (.start sectors) ops).Kept) ↔
    ∀ call, calls call → Exclusive call := by
  constructor
  · intro kept call member
    by_contra not_
    rcases program_of_not_exclusive not_ with ⟨f, next, program⟩ | program
    · apply access_breaks program (default : τ) blankSectors
      apply kept
      simp [Op.From, member]
    · apply refusal_breaks program (default : τ) blankSectors
      apply kept
      simp [Op.From, member]
  · intro exclusive sectors ops from_
    apply Machine.kept_of_guarded
    intro op member
    have own := from_ op member
    cases op with
    | begin t call => exact guarded_program (exclusive call own)
    | run t => trivial

/-- A FAT32 volume. -/
def fileSystem : FATFileSystem where
  myFatType := .fat32
  myFATBPB := ⟨0xeb, 512, 1, 32, 1, 0, 0, 0, 66080⟩
  myFAT32BPB := ⟨512, 2, 1⟩
  rootDirSectors := 0
  firstDataSector := 544
  dataSec := 65536
  countOfClusters := 65536
  sectorShiftValue := 0

/-- The root directory, with no entries. -/
def emptyRoot (populated : Bool) : FATDirectory := ⟨2, 544, 0, 544, populated, []⟩

/-- The call that makes an entry for a name of 256 letters in a directory that is known. -/
def longNameEntry : Call :=
  .allocateEntry fileSystem (fun _ => 0) 1 (List.replicate 256 (BitVec.ofNat 8 0x61)) ATTR_ARCHIVE 0
    ⟨blankSectors.medium, blankSectors.directoryBuffer, 0, 2, 544, emptyRoot true⟩

/-- The entries of a directory are read without the mutex, and the refusal of a long name keeps
it. -/
theorem directory_calls_break :
    ¬(exec (Machine.step Call.program) (.start blankSectors) [.begin true
      (.populateDirectory fileSystem (fun _ => 0) 1 (emptyRoot false))]).Kept ∧
    ¬(exec (Machine.step Call.program) (.start blankSectors) [.begin true longNameEntry,
      .run true]).Kept := by
  have refused : longNameEntry.program = .acquire (.ret ()) := by
    have long : 255 < (List.replicate 256 (BitVec.ofNat 8 0x61)).length := by
      rw [List.length_replicate]
      decide
    rw [longNameEntry, Call.program, allocateEntry_populated rfl, FATAccess.insertEntry,
      if_pos long]
    rfl
  exact ⟨access_breaks rfl true blankSectors, refusal_breaks refused true blankSectors⟩

end Calls

end Orcos.Guarantees.BufferAccess
