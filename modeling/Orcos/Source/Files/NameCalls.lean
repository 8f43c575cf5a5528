import Orcos.Source.Files.FileManager
import Orcos.Source.Tasks.Resources
import Orcos.Source.Files.FileSystem

/-!
# The last name of a path

Source: src/source/syscalls/sc_io.cc, `getParentDirectory`, `sc_fremove`;
src/source/inc/stringtools.cc, `basename`.

The calls split a path at its last slash.
-/
namespace Orcos.Source.Files
open Lib.Parts

/-- The path in front of its last slash. -/
def dirPart (path : List Letter) : List Letter :=
  path.take (path.length - (basename path).length - 1)

variable {path front name base : List Letter}

theorem basenameFrom_plain (plain : slash ∉ name) : basenameFrom base name = base := by
  induction name generalizing base with
  | nil => rfl
  | cons c name ih =>
    obtain ⟨other, rest⟩ := not_or.mp (List.mem_cons.not.mp plain)
    rw [basenameFrom, if_neg (Ne.symm other), ih rest]

theorem basenameFrom_append (plain : slash ∉ name) :
    basenameFrom base (front ++ slash :: name) = name := by
  induction front generalizing base with
  | nil => rw [List.nil_append, basenameFrom, if_pos rfl, basenameFrom_plain plain]
  | cons c front ih => exact ih

theorem basename_append (front : List Letter) (plain : slash ∉ name) :
    basename (front ++ slash :: name) = name := basenameFrom_append plain

/-- A path is its name alone, or a slash stands in front of the name. -/
theorem path_cases (path : List Letter) :
    (slash ∉ path ∧ basename path = path ∧ dirPart path = []) ∨
      slash ∉ basename path ∧ path = dirPart path ++ slash :: basename path := by
  by_cases member : slash ∈ path
  · obtain ⟨name, front, whole, plain⟩ : ∃ name front, path = front ++ slash :: name ∧
        slash ∉ name := by
      obtain ⟨behind, before, reversed, plain⟩ :=
        List.eq_append_cons_of_mem (List.mem_reverse.mpr member)
      refine ⟨behind.reverse, before.reverse, ?_, fun inside => plain (List.mem_reverse.mp inside)⟩
      rw [← List.reverse_reverse path, reversed]
      simp
    have base := basename_append front plain
    have length : path.length - name.length - 1 = front.length := by
      rw [whole, List.length_append, List.length_cons]
      omega
    rw [← whole] at base
    refine .inr ⟨by rwa [base], ?_⟩
    rw [dirPart, base, length, whole, List.take_left]
  · have base : basename path = path := basenameFrom_plain member
    refine .inl ⟨member, base, ?_⟩
    rw [dirPart, base, Nat.sub_self]
    rfl

end Orcos.Source.Files

/-! ## System calls for names

Source: src/source/syscalls/sc_io.cc, `getParentDirectory`, `sc_fcreate`, `sc_mkfifo`,
`sc_rename`, `sc_fremove`.

A call is made by a task with its table and its working directory, and leaves the file
system, the table and what it returns. An address that `new` gives, whether a file or a
buffer gets its memory, and whether a name is written to a disk, comes with the call. A
new resource is in no table, and no thread holds its mutex. What the release of a resource
does besides is left out.
-/
namespace Orcos.Source.Files
open Source.Tasks

def cTYPE_DIR : BitVec 32 := 1 <<< 1

def bufferDeviceMaxBufferSize : Nat := 4096

structure Caller (τ : Type) where
  task : Task τ Nat
  workingDirectory : Option Nat

structure CallResult (τ : Type) where
  fileSystem : FileSystem
  task : Task τ Nat
  error : ErrorT

namespace FileSystem

variable (fs : FileSystem) {τ : Type}

def getParentDirectory (workingDirectory : Option Nat) (filepath : List Letter) : Option Nat :=
  if filepath.head? = some slash then
    if basename filepath = [] then none
    else (fs.directories.getDirectory (dirPart filepath)).resource
  else workingDirectory.bind fun rootDir =>
    if basename filepath ≠ filepath then
      (fs.directories.getResourceByNameandType (dirPart filepath) cDirectory
        (some rootDir)).resource
    else some rootDir

/-- The call enters the new resource into the table of the task. -/
def scFcreate (caller : Caller τ) (filepath : List Letter) (flags : BitVec 32) (address : Nat)
    (made : Bool) : CallResult τ :=
  let filename := basename filepath
  match fs.getParentDirectory caller.workingDirectory filepath with
  | none => ⟨fs, caller.task, cInvalidPath⟩
  | some parentDir =>
    if fs.get parentDir filename filename.length ≠ none then
      ⟨fs, caller.task, cResourceAlreadyExists⟩
    else if filename.length = 0 ∨ filename.length > 255 then ⟨fs, caller.task, cInvalidArgument⟩
    else
      match if flags &&& cTYPE_DIR ≠ 0 then fs.createDirectory parentDir address filename made
        else fs.createFile parentDir address filename made with
      | (fs, none) => ⟨fs, caller.task, cError⟩
      | (fs, some res) => ⟨fs, (caller.task.addResource res).1, (caller.task.addResource res).2⟩

/-- The checks of `sc_mkfifo`, and the directory it adds to when they pass. The name is
looked up from the root. -/
def mkfifoParent (workingDirectory : Option Nat) (filepath : List Letter) (bufferSize : Nat) :
    Except ErrorT Nat :=
  if bufferSize > bufferDeviceMaxBufferSize then .error cInvalidArgument
  else if filepath.length = 0 ∨ filepath.length > 255 then .error cInvalidArgument
  else if (fs.directories.getResourceByNameandType filepath cAnyResource none).resource ≠ none then
    .error cResourceAlreadyExists
  else match fs.getParentDirectory workingDirectory filepath with
    | none => .error cInvalidPath
    | some parentDir => .ok parentDir

/-- A new device is entered into a directory. -/
def addFifo (parentDir address : Nat) (filename : List Letter) : FileSystem :=
  (fs.create (fs.top parentDir) address filename (cFifo ||| cStreamDevice) .plain).1

def scMkfifo (caller : Caller τ) (filepath : List Letter) (bufferSize address : Nat)
    (allocated : Bool) : CallResult τ :=
  let filename := basename filepath
  match fs.mkfifoParent caller.workingDirectory filepath bufferSize with
  | .error e => ⟨fs, caller.task, e⟩
  | .ok parentDir =>
    if allocated = false then
      ⟨(fs.construct address filename (cFifo ||| cStreamDevice) .plain).delete address,
        caller.task, cError⟩
    else
      let fs := fs.addFifo parentDir address filename
      let (task, retval) := caller.task.addResource address
      if isError retval then ⟨fs.delete address, task, retval⟩ else ⟨fs, task, retval⟩

/-- The resource that `sc_rename` gives a name, when its checks pass. -/
def renamed (caller : Caller τ) (fd : Nat) (filenewname : List Letter) : Except ErrorT Nat :=
  if filenewname.length = 0 ∨ filenewname.length > 255 then .error cInvalidArgument
  else if basename filenewname ≠ filenewname then .error cInvalidArgument
  else match caller.task.getOwnedResourceByFileDescriptor fd with
    | none => .error cInvalidResource
    | some res =>
      if fs.type res &&& cDirectory ≠ 0 ∨ fs.type res &&& cFile ≠ 0 then .ok res
      else .error cInvalidResource

def scRename (caller : Caller τ) (fd : Nat) (filenewname : List Letter) (written : Bool) :
    CallResult τ :=
  match fs.renamed caller fd filenewname with
  | .error e => ⟨fs, caller.task, e⟩
  | .ok res =>
    ⟨(fs.rename res filenewname written).1, caller.task, (fs.rename res filenewname written).2⟩

/-- The directory in which `sc_fremove` looks for the last name of the path: for an
absolute path the one that is named by what stands before the name, for a relative one
the last one that the lookup of the whole path came to. -/
def looksIn (workingDirectory : Option Nat) (filepath : List Letter) : Option Nat :=
  if filepath.head? = some slash then
    if basename filepath = [] then none
    else (fs.directories.getDirectory (dirPart filepath)).resource
  else workingDirectory.bind fun rootDir =>
    if basename filepath ≠ filepath then
      (fs.directories.getResourceByNameandType filepath cAnyResource (some rootDir)).parentDir
    else some rootDir

def scFremove (caller : Caller τ) (filepath : List Letter) : CallResult τ :=
  let filename := basename filepath
  match fs.looksIn caller.workingDirectory filepath with
  | none => ⟨fs, caller.task, cInvalidPath⟩
  | some parentDir =>
    match fs.get parentDir filename filename.length with
    | none => ⟨fs, caller.task, cInvalidPath⟩
    | some res =>
      if fs.type res &&& cNonRemovableResource ≠ 0 then
        ⟨fs, caller.task, cResourceNotRemovable⟩
      else if 0 ≤ caller.task.getOwnedResourceFileDescriptor res then
        let (task, ret) := caller.task.removeResource res
        if isOk ret then ⟨(fs.remove parentDir res).1, task, (fs.remove parentDir res).2⟩
        else ⟨fs, task, ret⟩
      else ⟨fs, caller.task, cResourceNotOwned⟩

end FileSystem

end Orcos.Source.Files
