import Mathlib.Data.List.Nodup
import Orcos.Lib.Runs
import Orcos.Source.Files.NameCalls

/-!
# Names in a directory

Source: src/source/syscalls/sc_io.cc, `sc_fcreate`, `sc_mkfifo`, `sc_rename`,
`sc_fremove`; src/source/filesystem/Directory.cc, `add`, `remove`, `rename`.

`sc_mkfifo` looks for the name from the root and adds to a directory found from the working
directory, and leaves a device in it that it deletes. `sc_rename` does not look for the
name at all.
-/
namespace Orcos.Guarantees.UniqueNames
open Source Source.Files Source.Tasks Lib.Runs Lib.WordBits

/-- No directory has two entries with the same name. -/
def Unique (fs : FileSystem) : Prop := ∀ dir, ((fs.content dir).map fs.name).Nodup

/-- What a directory lists is found in it by its name. -/
def Reachable (fs : FileSystem) : Prop :=
  ∀ dir res, res ∈ fs.content dir → fs.entries dir = fs.content dir →
    (fs.name res).length ≤ 255 → fs.get dir (fs.name res) (fs.name res).length = some res

/-- Names are unique, and only resources are listed that are there. -/
structure Tidy (fs : FileSystem) : Prop where
  unique : Unique fs
  listed : ∀ dir, ∀ res ∈ fs.content dir, fs.live res = true

/-- The calls, by any tasks. -/
inductive NameCall (τ : Type)
  | fcreate (caller : Caller τ) (filepath : List Letter) (flags : BitVec 32) (address : Nat)
    (made : Bool)
  | mkfifo (caller : Caller τ) (filepath : List Letter) (bufferSize address : Nat)
    (allocated : Bool)
  | rename (caller : Caller τ) (fd : Nat) (filenewname : List Letter) (written : Bool)
  | fremove (caller : Caller τ) (filepath : List Letter)

variable {τ : Type}

def perform (fs : FileSystem) : NameCall τ → FileSystem
  | .fcreate caller filepath flags address made =>
    (fs.scFcreate caller filepath flags address made).fileSystem
  | .mkfifo caller filepath bufferSize address allocated =>
    (fs.scMkfifo caller filepath bufferSize address allocated).fileSystem
  | .rename caller fd filenewname written =>
    (fs.scRename caller fd filenewname written).fileSystem
  | .fremove caller filepath => (fs.scFremove caller filepath).fileSystem

/-- `new` gives memory without a resource. -/
def Given (fs : FileSystem) : NameCall τ → Prop
  | .fcreate _ _ _ address _ => fs.live address = false
  | .mkfifo _ _ _ address _ => fs.live address = false
  | _ => True

/-- A fat file system refuses the new name of a file. -/
def Refuses (fs : FileSystem) (res : Nat) (newName : List Letter) (written : Bool) : Prop :=
  ∃ parent, fs.kind res = .fatFile parent ∧
    (fs.get parent newName newName.length ≠ none ∨ written = false)

/-- A device is added where no entry has its name, by a task with a free descriptor; and a
resource gets a name that no other entry beside it has, or is refused it. -/
def Distinct (fs : FileSystem) : NameCall τ → Prop
  | .mkfifo caller filepath bufferSize _ allocated =>
    ∀ parentDir, fs.mkfifoParent caller.workingDirectory filepath bufferSize = .ok parentDir →
      allocated = true →
        (∀ res ∈ fs.content (fs.top parentDir), fs.name res ≠ basename filepath) ∧
          firstSet caller.task.freeResourceIds.map ≠ none
  | .rename caller fd filenewname written =>
    ∀ res, fs.renamed caller fd filenewname = .ok res →
      Refuses fs res filenewname written ∨
        ∀ dir, res ∈ fs.content dir → ∀ other ∈ fs.content dir, other ≠ res →
          fs.name other ≠ filenewname
  | _ => True

variable {fs : FileSystem} {dir res address : Nat} {name : List Letter} {type : BitVec 32}
  {kind : Kind}

theorem Tidy.unlisted (tidy : Tidy fs) (new : fs.live address = false) (dir : Nat) :
    address ∉ fs.content dir := by
  intro listed
  have live := tidy.listed dir address listed
  rw [new] at live
  cases live

/-- What an unlisted resource is called does not matter. -/
theorem map_name_of_unlisted {entries : List Nat} (unlisted : address ∉ entries) :
    entries.map (Function.update fs.name address name) = entries.map fs.name := by
  apply List.map_congr_left
  intro res member
  have other : res ≠ address := fun same => unlisted (same ▸ member)
  exact Function.update_of_ne other _ _

theorem Tidy.construct (tidy : Tidy fs) (new : fs.live address = false) :
    Tidy (fs.construct address name type kind) := by
  unfold FileSystem.construct
  constructor
  · intro dir
    by_cases here : dir = address
    · subst here
      simp only [Function.update_self, List.map_nil, List.nodup_nil]
    · simp only [Function.update_of_ne here]
      rw [map_name_of_unlisted (tidy.unlisted new dir)]
      exact tidy.unique dir
  · intro dir res member
    by_cases here : dir = address
    · subst here
      simp only [Function.update_self, List.not_mem_nil] at member
    · simp only [Function.update_of_ne here] at member
      have other : res ≠ address := fun same => tidy.unlisted new dir (same ▸ member)
      simp only [Function.update_of_ne other]
      exact tidy.listed dir res member

/-- A resource with a new name is entered. -/
theorem Tidy.addEntry (tidy : Tidy fs) (live : fs.live res = true)
    (absent : ∀ other ∈ fs.content dir, fs.name other ≠ fs.name res) :
    Tidy (fs.addEntry dir res) := by
  unfold FileSystem.addEntry
  constructor
  · intro d
    by_cases here : d = dir
    · subst here
      simp only [Function.update_self, List.map_append, List.map_singleton]
      apply List.nodup_append.mpr
      refine ⟨tidy.unique d, List.nodup_singleton _, fun n old n' new same => ?_⟩
      obtain ⟨other, member, rfl⟩ := List.mem_map.mp old
      exact absent other member (same.trans (List.mem_singleton.mp new))
    · simp only [Function.update_of_ne here]
      exact tidy.unique d
  · intro d other member
    by_cases here : d = dir
    · subst here
      simp only [Function.update_self] at member
      rcases List.mem_append.mp member with old | new
      · exact tidy.listed d other old
      · rw [List.mem_singleton.mp new]
        exact live
    · simp only [Function.update_of_ne here] at member
      exact tidy.listed d other member

/-- A new resource is entered where no entry has its name. -/
theorem Tidy.enter (tidy : Tidy fs) (new : fs.live address = false)
    (absent : ∀ other ∈ fs.content dir, fs.name other ≠ name) :
    Tidy ((fs.construct address name type kind).addEntry dir address) := by
  apply (tidy.construct new).addEntry
  · exact Function.update_self address true fs.live
  · intro other member
    have called : (fs.construct address name type kind).name address = name := by
      unfold FileSystem.construct
      exact Function.update_self address name fs.name
    rw [called]
    unfold FileSystem.construct at member ⊢
    by_cases here : dir = address
    · subst here
      simp only [Function.update_self, List.not_mem_nil] at member
    · simp only [Function.update_of_ne here] at member
      have apart : other ≠ address := fun same => tidy.unlisted new dir (same ▸ member)
      simp only [Function.update_of_ne apart]
      exact absent other member

/-- Entries are taken away. -/
theorem Tidy.removeEntry (tidy : Tidy fs) : Tidy (fs.removeEntry dir res).1 := by
  unfold FileSystem.removeEntry
  split
  · exact tidy
  · split
    · have fewer : ∀ d, (Function.update fs.content dir ((fs.content dir).erase res) d).Sublist
          (fs.content d) := by
        intro d
        by_cases here : d = dir
        · subst here
          rw [Function.update_self]
          exact List.erase_sublist
        · rw [Function.update_of_ne here]
      constructor
      · exact fun d => (tidy.unique d).sublist ((fewer d).map fs.name)
      · exact fun d other member => tidy.listed d other ((fewer d).subset member)
    · exact tidy

theorem Tidy.remove (tidy : Tidy fs) : Tidy (fs.remove dir res).1 := by
  unfold FileSystem.remove
  split
  · exact tidy
  · split
    · split
      · exact tidy
      · exact tidy.removeEntry
    · exact tidy.removeEntry

/-- The deletion of a resource that no directory lists. -/
theorem Tidy.delete (tidy : Tidy fs) (unlisted : ∀ dir, address ∉ fs.content dir) :
    Tidy (fs.delete address) := by
  unfold FileSystem.delete
  constructor
  · intro dir
    change ((fs.content dir).map (Function.update fs.name address removedName)).Nodup
    rw [map_name_of_unlisted (unlisted dir)]
    exact tidy.unique dir
  · intro dir res member
    have other : res ≠ address := fun same => unlisted dir (same ▸ member)
    simp only [Function.update_of_ne other]
    exact tidy.listed dir res member

/-- A new name keeps the names of a list apart when no other entry has it. -/
theorem nodup_update {entries : List Nat} (nodup : (entries.map fs.name).Nodup)
    (absent : res ∈ entries → ∀ other ∈ entries, other ≠ res → fs.name other ≠ name) :
    (entries.map (Function.update fs.name res name)).Nodup := by
  by_cases listed : res ∈ entries
  · have distinct := List.inj_on_of_nodup_map nodup
    refine (List.nodup_map_iff_inj_on (List.Nodup.of_map _ nodup)).mpr ?_
    intro a inA b inB same
    by_cases first : a = res
    · by_cases second : b = res
      · exact first.trans second.symm
      · rw [first, Function.update_self, Function.update_of_ne second] at same
        exact absurd same.symm (absent listed b inB second)
    · by_cases second : b = res
      · rw [second, Function.update_self, Function.update_of_ne first] at same
        exact absurd same (absent listed a inA first)
      · rw [Function.update_of_ne first, Function.update_of_ne second] at same
        exact distinct inA inB same
  · rw [map_name_of_unlisted listed]
    exact nodup

theorem Tidy.rename {newName : List Letter} {written : Bool} (tidy : Tidy fs)
    (distinct : Refuses fs res newName written ∨
      ∀ dir, res ∈ fs.content dir → ∀ other ∈ fs.content dir, other ≠ res →
        fs.name other ≠ newName) :
    Tidy (fs.rename res newName written).1 := by
  unfold FileSystem.rename
  rcases distinct with ⟨parent, file, refused⟩ | absent
  · simp only [file]
    rw [if_pos refused]
    exact tidy
  · have renamed : Tidy { fs with name := Function.update fs.name res newName } :=
      ⟨fun dir => nodup_update (tidy.unique dir) (absent dir), tidy.listed⟩
    dsimp only
    split
    · split
      · exact tidy
      · exact renamed
    · exact renamed

/-- What a directory adds to is part of what it looks through. -/
theorem content_topOf_subset (fs : FileSystem) (kind : Kind) (dir : Nat) :
    fs.content (FileSystem.topOf kind dir) ⊆ fs.entriesOf kind dir := by
  induction kind generalizing dir with
  | plain => exact List.Subset.refl _
  | ram => exact List.Subset.refl _
  | fat => exact List.Subset.refl _
  | fatFile parent => exact List.Subset.refl _
  | overlay baseDir base overlayDir overlay lower upper =>
    exact List.subset_append_of_subset_left _ (upper overlayDir)

/-- A name that a directory does not find is new where it adds to. -/
theorem absent_of_get (short : name.length ≤ 255) (none_ : fs.get dir name name.length = none) :
    ∀ other ∈ fs.content (fs.top dir), fs.name other ≠ name := by
  intro other member
  have absent := (Directories.get_self_eq_none_iff short).mp none_
  exact absent other (content_topOf_subset fs (fs.kind dir) dir member)

theorem Tidy.scFcreate {caller : Caller τ} {filepath : List Letter} {flags : BitVec 32}
    {made : Bool} (tidy : Tidy fs) (new : fs.live address = false) :
    Tidy (fs.scFcreate caller filepath flags address made).fileSystem := by
  unfold FileSystem.scFcreate
  dsimp only
  split
  · exact tidy
  · next parentDir place =>
    split
    · exact tidy
    · next none_ =>
      split
      · exact tidy
      · next bounds =>
        have absent : ∀ other ∈ fs.content (fs.top parentDir), fs.name other ≠ basename filepath :=
          absent_of_get (by omega) (not_not.mp none_)
        have made_ : Tidy (if flags &&& cTYPE_DIR ≠ 0 then
            fs.createDirectory parentDir address (basename filepath) made
            else fs.createFile parentDir address (basename filepath) made).1 := by
          split
          · unfold FileSystem.createDirectory
            dsimp only
            split
            · exact tidy.enter new absent
            · exact tidy
          · unfold FileSystem.createFile
            dsimp only
            split
            · exact tidy.enter new absent
            · exact tidy
        split
        · next created =>
          rw [created] at made_
          exact made_
        · next created =>
          rw [created] at made_
          exact made_

theorem Tidy.scMkfifo {caller : Caller τ} {filepath : List Letter} {bufferSize : Nat}
    {allocated : Bool} (tidy : Tidy fs) (new : fs.live address = false)
    (distinct : Distinct fs (.mkfifo caller filepath bufferSize address allocated)) :
    Tidy (fs.scMkfifo caller filepath bufferSize address allocated).fileSystem := by
  unfold FileSystem.scMkfifo
  dsimp only
  split
  · exact tidy
  · next parentDir accepted =>
    split
    · apply (tidy.construct new).delete
      intro dir listed
      unfold FileSystem.construct at listed
      by_cases here : dir = address
      · subst here
        simp only [Function.update_self, List.not_mem_nil] at listed
      · simp only [Function.update_of_ne here] at listed
        exact tidy.unlisted new dir listed
    · next memory =>
      obtain ⟨absent, free⟩ := distinct parentDir accepted (by simpa using memory)
      rw [Bool.eq_false_iff.mpr (mt (Task.isError_addResource_iff _ _).mp free)]
      exact tidy.enter new absent

theorem Tidy.perform {call : NameCall τ} (tidy : Tidy fs) (given : Given fs call)
    (distinct : Distinct fs call) : Tidy (perform fs call) := by
  cases call with
  | fcreate caller filepath flags address made => exact tidy.scFcreate given
  | mkfifo caller filepath bufferSize address allocated => exact tidy.scMkfifo given distinct
  | rename caller fd filenewname written =>
    unfold UniqueNames.perform FileSystem.scRename
    dsimp only
    split
    · exact tidy
    · next res accepted => exact tidy.rename (distinct res accepted)
  | fremove caller filepath =>
    unfold UniqueNames.perform FileSystem.scFremove
    dsimp only
    split
    · exact tidy
    · split
      · exact tidy
      · split
        · exact tidy
        · split
          · split
            · exact tidy.remove
            · exact tidy
          · exact tidy

/-- With unique names each entry is the one that is found. -/
theorem Unique.reachable (unique : Unique fs) : Reachable fs := by
  intro dir res listed own short
  rw [FileSystem.get, Directories.get_self short]
  change (fs.entries dir).find? _ = some res
  rw [own]
  have distinct := List.inj_on_of_nodup_map (unique dir)
  obtain ⟨found, some_⟩ := Option.isSome_iff_exists.mp
    (List.find?_isSome (p := fun other => decide (fs.name other = fs.name res)).mpr
      ⟨res, listed, decide_eq_true rfl⟩)
  have same : fs.name found = fs.name res := by simpa using List.find?_some some_
  have equal : found = res := distinct (List.mem_of_find?_eq_some some_) listed same
  rw [equal] at some_
  exact some_

/-- In every run in which each device is added where no entry has its name, by a task with
a free descriptor, and each resource is given a name that no entry beside it has, names
stay unique. -/
theorem names_unique (tidy : Tidy fs) (calls : List (NameCall τ))
    (given : Admissible perform Given fs calls) (distinct : Admissible perform Distinct fs calls) :
    Unique (exec perform fs calls) ∧ Reachable (exec perform fs calls) := by
  have kept : Tidy (exec perform fs calls) :=
    exec_invariant Tidy (fun _ _ tidy both => tidy.perform both.1 both.2) calls fs tidy
      (given.and distinct)
  exact ⟨kept.unique, kept.unique.reachable⟩

def letterX : Letter := letter 120

def letterY : Letter := letter 121

/-- A root with one directory. -/
def oneDirectory : FileSystem where
  name r := if r = 1 then [letterX] else []
  type _ := cDirectory
  kind _ := .plain
  content r := if r = 0 then [1] else []
  numEntries r := if r = 0 then 1 else 0
  live r := r = 0 ∨ r = 1
  root := 0

theorem oneDirectory_tidy : Tidy oneDirectory where
  unique dir := by
    by_cases root : dir = 0
    · subst root
      exact List.nodup_singleton _
    · have empty : oneDirectory.content dir = [] := if_neg root
      rw [empty]
      exact List.nodup_nil
  listed dir res member := by
    by_cases root : dir = 0
    · subst root
      rw [List.mem_singleton.mp member]
      rfl
    · have empty : oneDirectory.content dir = [] := if_neg root
      rw [empty] at member
      cases member

/-- A task that holds a resource. -/
def holding (workingDirectory res : Nat) : Caller Unit :=
  ⟨((Task.fresh 1 [()] : Task Unit Nat).addResource res).1, some workingDirectory⟩

/-- The directory in the root gets another name, and a device is added to it. -/
theorem names_unique_renamed :
    Unique (exec perform oneDirectory [.rename (holding 0 1) 0 [letterY] true,
      .mkfifo (holding 1 1) [letterX] 16 2 true]) ∧
    Reachable (exec perform oneDirectory [.rename (holding 0 1) 0 [letterY] true,
      .mkfifo (holding 1 1) [letterX] 16 2 true]) := by
  refine names_unique oneDirectory_tidy _ ⟨trivial, rfl, trivial⟩ ⟨?_, ?_, trivial⟩
  · intro res named
    refine .inr fun dir listed other beside apart => ?_
    have same : res = 1 := Except.ok.inj (named.symm.trans (by decide +kernel))
    by_cases root : dir = 0
    · subst root
      exact absurd ((List.mem_singleton.mp beside).trans same.symm) apart
    · have empty : oneDirectory.content dir = [] := if_neg root
      rw [empty] at beside
      cases beside
  · intro parentDir accepted _
    have place : parentDir = 1 := Except.ok.inj (accepted.symm.trans (by decide +kernel))
    subst place
    exact ⟨nofun, by decide +kernel⟩

/-- The same name is made twice in a working directory in which the root has no entry of
that name; and a directory gets the name of another. -/
theorem names_twice :
    Tidy oneDirectory ∧
    (Admissible perform Given oneDirectory [NameCall.mkfifo (holding 1 1) [letterY] 16 2 true,
        .mkfifo (holding 1 1) [letterY] 16 3 true] ∧
      ¬Unique (exec perform oneDirectory [.mkfifo (holding 1 1) [letterY] 16 2 true,
        .mkfifo (holding 1 1) [letterY] 16 3 true])) ∧
    (Admissible perform Given oneDirectory
        [NameCall.fcreate (holding 0 1) [letterY] cTYPE_DIR 2 true,
        .rename (holding 0 1) 0 [letterY] true] ∧
      ¬Unique (exec perform oneDirectory [.fcreate (holding 0 1) [letterY] cTYPE_DIR 2 true,
        .rename (holding 0 1) 0 [letterY] true])) := by
  refine ⟨oneDirectory_tidy, ⟨⟨rfl, ?_, trivial⟩, fun unique => ?_⟩,
    ⟨rfl, trivial, trivial⟩, fun unique => ?_⟩
  · unfold Given
    decide +kernel
  · have twice := unique 1
    revert twice
    decide +kernel
  · have twice := unique 0
    revert twice
    decide +kernel

end Orcos.Guarantees.UniqueNames
