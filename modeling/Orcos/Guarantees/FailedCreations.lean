import Orcos.Source.Files.NameCalls

/-!
# Creations that fail

Source: src/source/syscalls/sc_io.cc, `sc_fcreate`, `sc_mkfifo`;
src/source/filesystem/Resource.cc, `acquire`, `~Resource`;
src/source/filesystem/Directory.cc, `add`.

Both calls enter the new resource into a directory before they acquire it, and neither
takes it out again: when the table of the task is full, `sc_fcreate` leaves the entry, and
`sc_mkfifo` leaves it and deletes the device.
-/
namespace Orcos.Guarantees.FailedCreations
open Source Source.Files Source.Tasks Lib.WordBits

/-- The two calls, by any task. -/
inductive Creation (τ : Type)
  | fcreate (caller : Caller τ) (filepath : List Letter) (flags : BitVec 32) (made : Bool)
  | mkfifo (caller : Caller τ) (filepath : List Letter) (bufferSize : Nat) (allocated : Bool)

variable {τ : Type}

def Creation.caller : Creation τ → Caller τ
  | .fcreate caller _ _ _ => caller
  | .mkfifo caller _ _ _ => caller

def perform (fs : FileSystem) (address : Nat) : Creation τ → CallResult τ
  | .fcreate caller filepath flags made => fs.scFcreate caller filepath flags address made
  | .mkfifo caller filepath bufferSize allocated =>
    fs.scMkfifo caller filepath bufferSize address allocated

/-- What `new` gives is in no directory and has no entries. -/
structure New (fs : FileSystem) (address : Nat) : Prop where
  unlisted : ∀ dir, address ∉ fs.content dir
  empty : fs.content address = []

/-- No directory entry refers to a resource that has been deleted. -/
def Listed (fs : FileSystem) : Prop := ∀ dir, ∀ res ∈ fs.content dir, fs.live res = true

/-- The entries are those of before, and none is left to a deleted resource. -/
structure Undone (fs fs' : FileSystem) : Prop where
  entries : fs'.content = fs.content
  listed : Listed fs → Listed fs'

/-- A call that returns an error has changed nothing. -/
def Atomic (fs : FileSystem) (address : Nat) (call : Creation τ) : Prop :=
  isError (perform fs address call).error = true → Undone fs (perform fs address call).fileSystem

/-- Which kind of resource a directory makes for `sc_fcreate`. -/
def takes (fs : FileSystem) (dir : Nat) (filename : List Letter) (flags : BitVec 32)
    (made : Bool) : Bool :=
  if flags &&& cTYPE_DIR ≠ 0 then fs.takesDirectory dir filename made
  else fs.takesFile dir filename made

/-- The checks pass and the directory makes the resource, which is then entered. -/
def Enters (fs : FileSystem) : Creation τ → Prop
  | .fcreate caller filepath flags made =>
    ∃ parentDir, fs.getParentDirectory caller.workingDirectory filepath = some parentDir ∧
      fs.get parentDir (basename filepath) (basename filepath).length = none ∧
      0 < (basename filepath).length ∧ (basename filepath).length ≤ 255 ∧
      takes fs (fs.top parentDir) (basename filepath) flags made = true
  | .mkfifo caller filepath bufferSize allocated =>
    allocated = true ∧
      ∃ parentDir, fs.mkfifoParent caller.workingDirectory filepath bufferSize = .ok parentDir

variable {fs : FileSystem} {dir address : Nat} {name : List Letter} {type : BitVec 32}
  {kind : Kind}

theorem Undone.refl (fs : FileSystem) : Undone fs fs := ⟨rfl, id⟩

/-- A resource that no directory lists may be made and deleted. -/
theorem Undone.discarded (new : New fs address) :
    Undone fs ((fs.construct address name type kind).delete address) := by
  have entries : ((fs.construct address name type kind).delete address).content = fs.content := by
    unfold FileSystem.construct FileSystem.delete
    rw [← new.empty]
    exact Function.update_eq_self address fs.content
  refine ⟨entries, fun listed dir res member => ?_⟩
  rw [entries] at member
  have other : res ≠ address := fun same => new.unlisted dir (same ▸ member)
  unfold FileSystem.construct FileSystem.delete
  simp only [Function.update_of_ne other]
  exact listed dir res member

/-- The new entry is one more. -/
theorem entered_content (new : New fs address) :
    (fs.create dir address name type kind).1.content ≠ fs.content := by
  intro same
  have listed : address ∈ (fs.create dir address name type kind).1.content dir := by
    unfold FileSystem.create FileSystem.addEntry
    simp
  rw [same] at listed
  exact new.unlisted dir listed

/-- What `sc_fcreate` does behind its checks. -/
theorem fcreate_cases (caller : Caller τ) (filepath : List Letter) (flags : BitVec 32)
    (made : Bool) :
    (¬Enters fs (.fcreate caller filepath flags made) ∧
      (fs.scFcreate caller filepath flags address made).fileSystem = fs) ∨
    Enters fs (.fcreate caller filepath flags made) ∧
      (fs.scFcreate caller filepath flags address made).error =
        (caller.task.addResource address).2 ∧
      ∃ dir type kind, (fs.scFcreate caller filepath flags address made).fileSystem =
        (fs.create dir address (basename filepath) type kind).1 := by
  unfold FileSystem.scFcreate Enters
  dsimp only
  cases place : fs.getParentDirectory caller.workingDirectory filepath with
  | none =>
    refine .inl ⟨?_, rfl⟩
    rintro ⟨parentDir, found, _⟩
    cases found
  | some parentDir =>
    simp only [Option.some.injEq, exists_eq_left']
    split
    · next taken => exact .inl ⟨fun enters => taken enters.1, rfl⟩
    · next free =>
      split
      · exact .inl ⟨fun enters => by omega, rfl⟩
      · next bounds =>
        unfold takes FileSystem.createDirectory FileSystem.createFile
        by_cases directory : flags &&& cTYPE_DIR ≠ 0
        · simp only [if_pos directory]
          cases takes_ : fs.takesDirectory (fs.top parentDir) (basename filepath) made with
          | false => exact .inl ⟨fun enters => Bool.false_ne_true enters.2.2.2, rfl⟩
          | true =>
            exact .inr ⟨⟨not_not.mp free, by omega, by omega, rfl⟩, rfl, _, _, _, rfl⟩
        · simp only [if_neg directory]
          cases takes_ : fs.takesFile (fs.top parentDir) (basename filepath) made with
          | false => exact .inl ⟨fun enters => Bool.false_ne_true enters.2.2.2, rfl⟩
          | true =>
            exact .inr ⟨⟨not_not.mp free, by omega, by omega, rfl⟩, rfl, _, _, _, rfl⟩

/-- What `sc_mkfifo` does behind its checks. -/
theorem mkfifo_cases (new : New fs address) (caller : Caller τ) (filepath : List Letter)
    (bufferSize : Nat) (allocated : Bool) :
    (¬Enters fs (.mkfifo caller filepath bufferSize allocated) ∧
      Undone fs (fs.scMkfifo caller filepath bufferSize address allocated).fileSystem) ∨
    Enters fs (.mkfifo caller filepath bufferSize allocated) ∧
      (fs.scMkfifo caller filepath bufferSize address allocated).error =
        (caller.task.addResource address).2 ∧
      ∃ dir type kind,
        (fs.scMkfifo caller filepath bufferSize address allocated).fileSystem.content =
          (fs.create dir address (basename filepath) type kind).1.content := by
  unfold FileSystem.scMkfifo Enters
  dsimp only
  cases place : fs.mkfifoParent caller.workingDirectory filepath bufferSize with
  | error e =>
    refine .inl ⟨?_, .refl fs⟩
    rintro ⟨_, parentDir, accepted⟩
    cases accepted
  | ok parentDir =>
    cases allocated with
    | false => exact .inl ⟨fun enters => Bool.false_ne_true enters.1, .discarded new⟩
    | true =>
      refine .inr ⟨⟨rfl, parentDir, rfl⟩, ?_⟩
      simp only [Bool.true_eq_false, if_false]
      split
      · exact ⟨rfl, fs.top parentDir, cFifo ||| cStreamDevice, .plain, rfl⟩
      · exact ⟨rfl, fs.top parentDir, cFifo ||| cStreamDevice, .plain, rfl⟩

/-- A call is undone when it fails, unless it enters the resource and the table of the task
is full. -/
theorem atomic_iff (new : New fs address) (call : Creation τ) :
    Atomic fs address call ↔
      (Enters fs call → firstSet call.caller.task.freeResourceIds.map ≠ none) := by
  have outcome : (¬Enters fs call ∧ Undone fs (perform fs address call).fileSystem) ∨
      Enters fs call ∧
        (perform fs address call).error = (call.caller.task.addResource address).2 ∧
        (perform fs address call).fileSystem.content ≠ fs.content := by
    cases call with
    | fcreate caller filepath flags made =>
      obtain ⟨refused, same⟩ | ⟨enters, error, dir, type, kind, entered⟩ :=
        fcreate_cases caller filepath flags made
      · refine .inl ⟨refused, ?_⟩
        rw [perform, same]
        exact .refl fs
      · refine .inr ⟨enters, error, ?_⟩
        rw [perform, entered]
        exact entered_content new
    | mkfifo caller filepath bufferSize allocated =>
      obtain ⟨refused, undone⟩ | ⟨enters, error, dir, type, kind, entered⟩ :=
        mkfifo_cases new caller filepath bufferSize allocated
      · exact .inl ⟨refused, undone⟩
      · refine .inr ⟨enters, error, ?_⟩
        rw [perform, entered]
        exact entered_content new
  obtain ⟨refused, undone⟩ | ⟨enters, error, entered⟩ := outcome
  · exact iff_of_true (fun _ => undone) fun enters => absurd enters refused
  · rw [Atomic, error, Task.isError_addResource_iff]
    constructor
    · exact fun atomic _ full => entered (atomic full).entries
    · exact fun room full => absurd full (room enters)

/-- Only a root, a plain directory. -/
def rootOnly : FileSystem where
  name _ := []
  type _ := cDirectory
  kind _ := .plain
  content _ := []
  numEntries _ := 0
  live r := r = 0
  root := 0

def pathX : List Letter := [slash, letter 120]

/-- A task that works in the root, with the numbers that are free in its table. -/
def taskWith (free : List (BitVec 32)) : Caller Unit :=
  ⟨⟨fun _ => none, 0, ⟨maxTaskResources, free⟩, [()]⟩, some 0⟩

theorem rootOnly_new : New rootOnly 1 := ⟨fun _ => List.not_mem_nil, rfl⟩

theorem atomic_iff_rootOnly :
    Atomic rootOnly 1 (.mkfifo (taskWith [1, 0]) pathX 16 true) ↔
      (Enters rootOnly (.mkfifo (taskWith [1, 0]) pathX 16 true) →
        firstSet (taskWith [1, 0]).task.freeResourceIds.map ≠ none) :=
  atomic_iff rootOnly_new _

/-- With a full table a new directory stays in the root, and a device that is deleted. -/
theorem failed_creations_left :
    New rootOnly 1 ∧ Listed rootOnly ∧
    ¬Atomic rootOnly 1 (.fcreate (taskWith [0, 0]) pathX cTYPE_DIR true) ∧
    (isError (perform rootOnly 1 (.mkfifo (taskWith [0, 0]) pathX 16 true)).error = true ∧
      ¬Listed (perform rootOnly 1 (.mkfifo (taskWith [0, 0]) pathX 16 true)).fileSystem) := by
  refine ⟨rootOnly_new, fun _ _ member => absurd member List.not_mem_nil, fun atomic => ?_,
    by decide +kernel, fun listed => ?_⟩
  · have same := congrFun (atomic (by decide +kernel)).entries 0
    revert same
    decide +kernel
  · have live := listed 0 1 (by decide +kernel)
    revert live
    decide +kernel

end Orcos.Guarantees.FailedCreations
