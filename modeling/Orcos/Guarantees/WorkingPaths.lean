import Orcos.Source.Files.FileManager

/-!
# Paths from the working directory

Source: src/source/syscalls/sc_io.cc, `sc_chdir`, `sc_getcwd`, `sc_fopen`;
src/source/process/Task.cc, `setWorkingDirectory`;
src/source/filesystem/SimpleFileManager.cc, `getResourceByNameandType`.

`sc_chdir` takes relative paths from the root, keeps the path as it was given, cut at 255
characters, and accepts an overlay directory, which no longer path leads through.
-/
namespace Orcos.Guarantees.WorkingPaths
open Source Source.Files Lib.Parts

/-- An absolute path of a directory. -/
def IsPathOf (t : Directories) (path : List Letter) (dir : Option Nat) : Prop :=
  path.head? = some slash ∧ (t.getDirectory path).resource = dir

/-- After a change of the directory, relative paths are taken from the new one, as they were
behind its path before, and what `sc_getcwd` stores to a buffer for any path is an absolute
path of it. -/
structure Composes (t : Directories) (w : WorkingDirectory) (p : List Letter) : Prop where
  opened : ∀ q, q.head? ≠ some slash →
    (w.scChdir t p).1.opened t q = w.opened t (p ++ slash :: q)
  current : ∀ buf buflen, 256 ≤ buflen →
    IsPathOf t (text ((w.scChdir t p).1.scGetcwd buf buflen) buflen) (w.scChdir t p).1.directory

/-- The path is absolute; it names the root, or a directory that is no overlay; and its first
255 characters name the same directory. -/
def Settles (t : Directories) (p : List Letter) : Prop :=
  p.head? = some slash ∧
    (components p = [] ∨ ∀ d, (t.getDirectory p).resource = some d → t.type d = cDirectory) ∧
    (t.getDirectory (p.take 255)).resource = (t.getDirectory p).resource

variable {t : Directories} {w : WorkingDirectory} {p q : List Letter} {dir d : Nat}

/-- A directory passes when any resource is asked for. -/
theorem any_of_directory (directory : t.type d &&& cDirectory ≠ 0) :
    t.type d &&& cAnyResource ≠ 0 := by
  intro none_
  apply directory
  have among : cDirectory = cAnyResource &&& cDirectory := by decide
  rw [among, ← BitVec.and_assoc, none_]
  rfl

theorem getDirectory_eq_some (known : (t.getDirectory p).resource = some d) :
    t.leads t.root (components p) = some d ∧ t.type d &&& cDirectory ≠ 0 := by
  rw [Directories.getDirectory, Directories.getResourceByNameandType_eq] at known
  obtain ⟨reached, type⟩ := Option.filter_eq_some_iff.mp known
  exact ⟨reached, of_decide_eq_true type⟩

/-- A successful change stores the directory and the path. -/
theorem scChdir_eq (success : (w.scChdir t p).2 = cOk) :
    ∃ d, (t.getDirectory p).resource = some d ∧ (w.scChdir t p).1.directory = some d ∧
      (w.scChdir t p).1.path = strncpyTo w.path p 255 := by
  unfold WorkingDirectory.scChdir WorkingDirectory.setWorkingDirectory at *
  cases known : (t.getDirectory p).resource with
  | none =>
    simp only [known] at success
    cases success
  | some d => exact ⟨d, rfl, rfl, rfl⟩

/-- Relative paths lead on from the working directory. -/
theorem opened_relative (known : w.directory = some dir) (relative : q.head? ≠ some slash) :
    w.opened t q = t.filtered cAnyResource (t.leads dir (components q)) := by
  rw [WorkingDirectory.opened, if_neg relative, known, Option.bind_some,
    Directories.getResourceByNameandType_eq]
  rfl

/-- An absolute path and one behind it. -/
theorem opened_absolute (absolute : p.head? = some slash) :
    w.opened t (p ++ slash :: q) =
      t.filtered cAnyResource (t.leads t.root (components p ++ components q)) := by
  have front : (p ++ slash :: q).head? = some slash := by
    rw [List.head?_append, absolute]
    rfl
  rw [WorkingDirectory.opened, if_pos front, Directories.getResourceByNameandType_eq,
    components, parts_append]
  rfl

/-- The path that is kept. -/
theorem getWorkingDirectoryPath_eq {cells : Nat → Byte} (path : w.path = strncpyTo cells p 255)
    (terminated : cells 255 = 0) : w.getWorkingDirectoryPath = p.take 255 := by
  rw [WorkingDirectory.getWorkingDirectoryPath, path]
  refine text_strncpyTo ?_ (.inr terminated)
  rw [List.length_take]
  omega

/-- A buffer for any path takes the path that is kept. -/
theorem text_scGetcwd (path : w.getWorkingDirectoryPath = p.take 255) (buf : Nat → Byte)
    {buflen : Nat} (room : 256 ≤ buflen) : text (w.scGetcwd buf buflen) buflen = p.take 255 := by
  have length : (p.take 255).length ≤ 255 := by
    rw [List.length_take]
    omega
  have whole : (p.take 255).take buflen = p.take 255 := List.take_of_length_le (by omega)
  rw [WorkingDirectory.scGetcwd, path, text_strncpyTo (by rw [whole]; omega) (.inl (by omega)),
    whole]

theorem components_dot : components [dot] = [[dot]] := parts_single (by decide) (by decide)

/-- What a dot behind the path of a directory names. -/
theorem leads_dot (reached : t.leads t.root (components p) = some d) :
    t.leads t.root (components p ++ [[dot]]) =
      if components p = [] ∨ t.type d = cDirectory then some d else none := by
  rw [Directories.leads_append, reached, Option.bind_some]
  rfl

/-- Paths compose exactly for an absolute path that names the root or a directory that is no
overlay, and whose first 255 characters name it, too. -/
theorem composes_iff (t : Directories) (w : WorkingDirectory) (p : List Letter)
    (success : (w.scChdir t p).2 = cOk) : Composes t w p ↔ Settles t p := by
  obtain ⟨d, known, directory, path⟩ := scChdir_eq success
  obtain ⟨reached, type⟩ := getDirectory_eq_some known
  have kept := getWorkingDirectoryPath_eq path w.terminated
  have first : (p.take 255).head? = p.head? := by
    rw [List.head?_take, if_neg (by decide)]
  constructor
  · intro composes
    have current := composes.current (fun _ => 0) 256 (Nat.le_refl _)
    rw [text_scGetcwd kept _ (Nat.le_refl _), directory, IsPathOf, first, ← known] at current
    obtain ⟨absolute, same⟩ := current
    refine ⟨absolute, ?_, same⟩
    -- a dot is opened behind the path
    have dotted := composes.opened [dot] (by decide)
    rw [opened_relative directory (by decide), opened_absolute absolute, components_dot,
      leads_dot reached] at dotted
    by_contra neither
    rw [not_or] at neither
    obtain ⟨some_, overlay⟩ := neither
    have other : t.type d ≠ cDirectory := fun plain => overlay fun d' known' => by
      rw [known] at known'
      cases known'
      exact plain
    have here : t.leads d [[dot]] = some d := rfl
    rw [here, if_neg (not_or.mpr ⟨some_, other⟩), Directories.filtered, Directories.filtered,
      Option.filter_some, if_pos (decide_eq_true (any_of_directory type))] at dotted
    cases dotted
  · rintro ⟨absolute, plain, same⟩
    constructor
    · intro q relative
      rw [opened_relative directory relative, opened_absolute absolute]
      congr 1
      cases components q with
      | nil => rw [List.append_nil, reached, Directories.leads_nil]
      | cons c cs =>
        rw [Directories.leads_append, reached, Option.bind_some, if_pos]
        exact plain.imp_right fun typed => typed d known
    · intro buf buflen room
      rw [text_scGetcwd kept buf room, directory, IsPathOf, first, ← known]
      exact ⟨absolute, same⟩

/-- A root with a directory, and a directory of the same name in that; a second directory in the
root is an overlay, and empty. -/
def nested : Directories where
  name
    | 0 => []
    | 3 => [letter 98]
    | _ => [letter 97]
  type
    | 3 => cOverlay ||| cDirectory
    | _ => cDirectory
  entries
    | 0 => [1, 3]
    | 1 => [2]
    | _ => []
  root := 0

theorem composes_iff_nested :
    Composes nested (.fresh nested) [slash, letter 97] ↔
      Settles nested [slash, letter 97] :=
  composes_iff nested (.fresh nested) [slash, letter 97] (by decide)

/-- In the first directory, a change to a relative path leads to that very directory; and from
an overlay directory the dot is opened, but not behind its path. -/
theorem composes_fails :
    ¬Composes nested ((WorkingDirectory.fresh nested).scChdir nested [slash, letter 97]).1
      [letter 97] ∧
      ¬Composes nested (.fresh nested) [slash, letter 98] := by
  refine ⟨fun composes => ?_, fun composes => ?_⟩
  · have dotted := composes.opened [dot] (by decide)
    exact absurd dotted (by decide)
  · have dotted := composes.opened [dot] (by decide)
    exact absurd dotted (by decide)

end Orcos.Guarantees.WorkingPaths
