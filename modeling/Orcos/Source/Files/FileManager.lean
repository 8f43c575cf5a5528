import Orcos.Source.Files.Directories
import Orcos.Source.Alignment

/-!
# The directory tree

Source: src/source/filesystem/SimpleFileManager.cc, `getResourceByNameandType`;
src/source/filesystem/Directory.cc, `get`, `OverlayDirectory::get`;
src/source/inc/types.hh, `ResourceType`.

Resources are known by their addresses. `content` is what a directory holds itself,
`entries` what `get` goes through: for an overlay directory that are the entries of
the overlay and of the base.
-/
namespace Orcos.Source.Files

def cStreamDevice : BitVec 32 := 1 <<< 1
def cCommDevice : BitVec 32 := 1 <<< 2
def cGenericDevice : BitVec 32 := 1 <<< 3
def cSocket : BitVec 32 := 1 <<< 5
def cUSBDriver : BitVec 32 := 1 <<< 6
def cBlockDevice : BitVec 32 := 1 <<< 7
def cPartition : BitVec 32 := 1 <<< 8
def cSharedMem : BitVec 32 := 1 <<< 9
def cKernelVariable : BitVec 32 := 1 <<< 10
def cOverlay : BitVec 32 := 1 <<< 11
def cTimerDevice : BitVec 32 := 1 <<< 12
def cThread : BitVec 32 := 1 <<< 13
def cTask : BitVec 32 := 1 <<< 14
def cFifo : BitVec 32 := 1 <<< 15

def cNonRemovableResource : BitVec 32 :=
  cStreamDevice ||| cOverlay ||| cKernelVariable ||| cPartition ||| cBlockDevice ||| cCommDevice |||
    cGenericDevice ||| cSocket ||| cUSBDriver ||| cTimerDevice ||| cThread ||| cTask

def cAnyResource : BitVec 32 :=
  cStreamDevice ||| cCommDevice ||| cGenericDevice ||| cFile ||| cSocket ||| cUSBDriver |||
    cDirectory ||| cBlockDevice ||| cSharedMem ||| cOverlay ||| cTimerDevice ||| cFifo

/-- A tree of resources. Each is of some kind, the type of a directory is that of its
constructor, no directory holds itself, and the root is a directory. -/
structure Tree extends Directories where
  content : Nat → List Nat
  typed : ∀ r, type r &&& (cAnyResource ||| cNonRemovableResource) ≠ 0
  kinds : ∀ r, type r &&& cDirectory ≠ 0 → type r = cDirectory ∨ type r = cOverlay ||| cDirectory
  plain : ∀ r, type r &&& cOverlay = 0 → entries r = content r
  apart : ∀ r, r ∉ entries r
  rooted : type root &&& cDirectory ≠ 0

namespace Tree

variable (t : Tree)

def IsDirectory (r : Nat) : Prop := t.type r &&& cDirectory ≠ 0

instance : DecidablePred t.IsDirectory := fun _ => inferInstanceAs (Decidable (_ ≠ _))

end Tree

end Orcos.Source.Files

/-! ## Working directories

Source: src/source/syscalls/sc_io.cc, `sc_chdir`, `sc_getcwd`, `sc_fopen`;
src/source/process/Task.cc, `setWorkingDirectory`; src/source/process/Task.hh;
src/source/inc/stringtools.cc, `strncpy`.

A task keeps its working directory as a pointer and as an array of 256 characters. Both
calls for a new one look the path up from the root; relative paths of files are looked up from
the pointer.
-/
namespace Orcos.Source.Files

/-- `strncpy` into an array. -/
def strncpyTo (cells : Nat → Byte) (src : List Letter) (maxChars : Nat) : Nat → Byte := fun i =>
  (strncpy (src.map Subtype.val) maxChars)[i]?.getD (cells i)

/-- The string in an array from an index on. -/
def textFrom (cells : Nat → Byte) (i : Nat) : Nat → List Letter
  | 0 => []
  | n + 1 => if some_ : cells i ≠ 0 then ⟨cells i, some_⟩ :: textFrom cells (i + 1) n else []

/-- The string in an array of a size. -/
def text (cells : Nat → Byte) (size : Nat) : List Letter := textFrom cells 0 size

variable {cells : Nat → Byte} {src : List Letter} {i size maxChars : Nat}

theorem strncpyTo_behind (behind : maxChars ≤ i) : strncpyTo cells src maxChars i = cells i := by
  have length : (strncpy (src.map Subtype.val) maxChars).length ≤ i := by
    unfold strncpy
    rw [List.length_append, List.length_take, List.length_map]
    split
    · rw [List.length_singleton]
      omega
    · rw [List.length_nil]
      omega
  rw [strncpyTo, List.getElem?_eq_none length, Option.getD_none]

theorem strncpyTo_inside (inside : i < (src.take maxChars).length) :
    strncpyTo cells src maxChars i = ((src.take maxChars)[i]).1 := by
  rw [List.length_take] at inside
  have front : i < ((src.map Subtype.val).take maxChars).length := by
    rw [List.length_take, List.length_map]
    exact inside
  have entry : (strncpy (src.map Subtype.val) maxChars)[i]? = some ((src.take maxChars)[i]).1 := by
    rw [strncpy, List.getElem?_append_left front, List.getElem?_eq_getElem front]
    simp only [List.getElem_take, List.getElem_map]
  rw [strncpyTo, entry, Option.getD_some]

/-- The end of the string is stored when it fits. -/
theorem strncpyTo_end (room : src.length < maxChars) :
    strncpyTo cells src maxChars src.length = 0 := by
  have whole : (src.map Subtype.val).take maxChars = src.map Subtype.val :=
    List.take_of_length_le (by rw [List.length_map]; omega)
  rw [strncpyTo, strncpy, whole, if_pos (by rw [List.length_map]; exact room),
    List.getElem?_append_right (by rw [List.length_map]), List.length_map, Nat.sub_self]
  rfl

theorem textFrom_eq {letters : List Letter}
    (same : ∀ k (inside : k < letters.length), cells (i + k) = (letters[k]).1)
    (ends : cells (i + letters.length) = 0) (room : letters.length < size) :
    textFrom cells i size = letters := by
  induction letters generalizing i size with
  | nil =>
    obtain ⟨size, rfl⟩ := Nat.exists_eq_succ_of_ne_zero (Nat.ne_zero_of_lt room)
    exact dif_neg (not_not.mpr ends)
  | cons c letters ih =>
    obtain ⟨size, rfl⟩ := Nat.exists_eq_succ_of_ne_zero (Nat.ne_zero_of_lt room)
    have here : cells i = c.1 := same 0 (Nat.zero_lt_succ _)
    have some_ : cells i ≠ 0 := by
      rw [here]
      exact c.2
    have rest : textFrom cells (i + 1) size = letters := by
      refine ih (fun k inside => ?_) ?_ (Nat.lt_of_succ_lt_succ room)
      · rw [Nat.add_assoc, Nat.add_comm 1 k]
        exact same (k + 1) (Nat.succ_lt_succ inside)
      · rw [Nat.add_assoc, Nat.add_comm 1]
        exact ends
    rw [textFrom, dif_pos some_, rest]
    congr 1
    exact Subtype.ext here

/-- A stored string is read back, cut where no more characters were allowed. -/
theorem text_strncpyTo (room : (src.take maxChars).length < size)
    (ends : src.length < maxChars ∨ cells maxChars = 0) :
    text (strncpyTo cells src maxChars) size = src.take maxChars := by
  refine textFrom_eq (fun k inside => ?_) ?_ room
  · rw [Nat.zero_add]
    exact strncpyTo_inside inside
  · rw [Nat.zero_add, List.length_take]
    by_cases short : src.length < maxChars
    · rw [Nat.min_eq_right (Nat.le_of_lt short)]
      exact strncpyTo_end short
    · rw [Nat.min_eq_left (Nat.le_of_not_lt short), strncpyTo_behind (Nat.le_refl _)]
      exact ends.resolve_left short

/-- The members `workingDirectory` and `workingDirectoryPath` of a task. Nothing is ever
stored to the last character. -/
structure WorkingDirectory where
  directory : Option Nat
  path : Nat → Byte
  terminated : path 255 = 0

namespace WorkingDirectory

variable (w : WorkingDirectory) (t : Directories)

/-- The memory of a new task is filled with zeros. -/
def unset : WorkingDirectory := ⟨none, fun _ => 0, rfl⟩

def setWorkingDirectory (newDir : List Letter) : WorkingDirectory × ErrorT :=
  match (t.getDirectory newDir).resource with
  | none => (w, cInvalidPath)
  | some dir =>
    (⟨some dir, strncpyTo w.path newDir 255, (strncpyTo_behind (Nat.le_refl _)).trans w.terminated⟩,
      cOk)

/-- The constructor of a task. -/
def fresh : WorkingDirectory := (unset.setWorkingDirectory t [slash]).1

def getWorkingDirectoryPath : List Letter := text w.path 256

def scChdir (path : List Letter) : WorkingDirectory × ErrorT :=
  match (t.getDirectory path).resource with
  | some _ => ((w.setWorkingDirectory t path).1, cOk)
  | none => (w, cError)

/-- The user's buffer after the call. -/
def scGetcwd (buf : Nat → Byte) (buflen : Nat) : Nat → Byte :=
  strncpyTo buf w.getWorkingDirectoryPath buflen

/-- The resource that `sc_fopen` acquires. -/
def opened (filename : List Letter) : Option Nat :=
  if filename.head? = some slash then
    (t.getResourceByNameandType filename cAnyResource none).resource
  else w.directory.bind fun rootDir =>
    (t.getResourceByNameandType filename cAnyResource (some rootDir)).resource

end WorkingDirectory

end Orcos.Source.Files
