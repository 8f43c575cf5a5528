import Orcos.Source.Files.NameCalls

/-!
# What the removal of a file removes

Source: src/source/syscalls/sc_io.cc, `sc_fremove`; src/source/filesystem/SimpleFileManager.cc,
`getResourceByNameandType`; src/source/filesystem/Directory.hh, `OverlayDirectory::remove`;
src/source/filesystem/fat/FATDirectory.cc, `remove`.

The call looks for the last name of the path in the directory that a lookup left behind,
also when the lookup ended before the last name. It then removes an entry of that
directory, which the path does not lead to.
-/
namespace Orcos.Guarantees.FileRemovals
open Source Source.Files Source.Tasks Lib.Parts

variable {τ : Type} {fs : FileSystem} {t : Directories} {start dir dir' res holder : Nat}
  {c path : List Letter} {cs : List (List Letter)} {workingDirectory : Option Nat}
  {caller : Caller τ}

/-- Where a path starts. -/
def startOf (fs : FileSystem) (workingDirectory : Option Nat) (path : List Letter) : Nat :=
  (if path.head? = some slash then none else workingDirectory).getD fs.root

/-- What the path leads to, and from which directory. -/
def resolved (fs : FileSystem) (workingDirectory : Option Nat) (path : List Letter) : Lookup :=
  fs.directories.getResourceByNameandType path cAnyResource
    (if path.head? = some slash then none else workingDirectory)

/-- Each resource is of some kind, and no directory holds itself. -/
structure Proper (fs : FileSystem) : Prop where
  typed : ∀ r, fs.type r &&& (cAnyResource ||| cNonRemovableResource) ≠ 0
  apart : ∀ r, r ∉ fs.entries r

/-- An entry is gone from the directory that holds it. -/
def without (fs : FileSystem) (holder res : Nat) : FileSystem :=
  { fs with
    content := Function.update fs.content holder ((fs.content holder).erase res)
    numEntries := Function.update fs.numEntries holder (fs.numEntries holder - 1) }

/-- At most the resource that the path leads to is removed, from the directory that holds the
entries of the one it is in; where the path leads to none the call fails and changes nothing. -/
def Faithful (fs : FileSystem) (workingDirectory : Option Nat) (path : List Letter)
    (r : CallResult τ) : Prop :=
  (r.fileSystem = fs ∨ ∃ dir res holder,
    resolved fs workingDirectory path = ⟨some res, some dir⟩ ∧ fs.holder dir res = some holder ∧
      r.fileSystem = without fs holder res) ∧
  ((resolved fs workingDirectory path).resource = none → r.error < 0 ∧ r.fileSystem = fs)

/-- The path ends in a name, and what stands in front of it leads to the directory. -/
structure Straight (fs : FileSystem) (start : Nat) (path : List Letter) (dir : Nat) : Prop where
  name : basename path ≠ [] ∧ basename path ≠ [dot]
  front : fs.directories.leads start (components (dirPart path)) = some dir
  directory : components (dirPart path) = [] ∨ fs.type dir = cDirectory

/-- The directory that has to remove the resource has it, and a fat file system removes only
files. -/
def Held (fs : FileSystem) (dir res holder : Nat) : Prop :=
  fs.holder dir res = some holder ∧ res ∈ fs.content holder ∧
    (fs.kind holder = .fat → fs.type res &&& cFile ≠ 0)

/-- The directory shows an entry with the name that can be removed and that the task has
acquired. -/
def Exposed (fs : FileSystem) (task : Task τ Nat) (dir : Nat) (name : List Letter) : Prop :=
  ∃ res holder, fs.get dir name name.length = some res ∧
    fs.type res &&& cNonRemovableResource = 0 ∧
    0 ≤ task.getOwnedResourceFileDescriptor res ∧ Held fs dir res holder

/-- One component more. -/
theorem walk_snoc (front : t.leads start cs = some dir)
    (directory : cs = [] ∨ t.type dir = cDirectory) :
    t.walk start (cs ++ [c]) = ⟨t.step dir c, some dir⟩ := by
  induction cs generalizing start with
  | nil =>
    cases front
    rfl
  | cons c' cs ih =>
    have plain : t.type dir = cDirectory := directory.resolve_left (List.cons_ne_nil _ _)
    cases cs with
    | nil =>
      have found : t.step start c' = some dir := front
      simp [Directories.walk, found, plain]
    | cons c'' cs =>
      rw [Directories.leads_cons] at front
      obtain ⟨res, found, rest⟩ := Option.bind_eq_some_iff.mp front
      rw [List.cons_append, List.cons_append, Directories.walk, found]
      simp only
      split at rest
      · next later =>
        rw [if_neg (not_not.mpr (later.resolve_left (List.cons_ne_nil _ _)))]
        exact ih rest (.inr plain)
      · cases rest

/-- The components of a path: those in front, and the name unless it is empty. -/
theorem components_path (path : List Letter) : components path =
    components (dirPart path) ++ if basename path = [] then [] else [basename path] := by
  rcases path_cases path with ⟨plain, base, front⟩ | ⟨plain, whole⟩
  · have none_ : components [] = [] := parts_nil
    rw [base, front, none_, List.nil_append]
    split
    · next empty =>
      rw [empty]
      exact none_
    · next some_ => exact parts_single plain some_
  · conv_lhs => rw [whole]
    exact parts_last _ plain

theorem resolved_eq (fs : FileSystem) (workingDirectory : Option Nat) (path : List Letter) :
    resolved fs workingDirectory path =
      ⟨fs.directories.filtered cAnyResource
          (fs.directories.leads (startOf fs workingDirectory path) (components path)),
        (fs.directories.walk (startOf fs workingDirectory path) (components path)).parentDir⟩ :=
  Directories.getResourceByNameandType_eq path cAnyResource _

/-- On a straight path the last name is looked up in the directory. -/
theorem resolved_of_straight (straight : Straight fs (startOf fs workingDirectory path) path dir) :
    resolved fs workingDirectory path =
      ⟨fs.directories.filtered cAnyResource (fs.get dir (basename path) (basename path).length),
        some dir⟩ := by
  rw [resolved_eq, components_path path, if_neg straight.name.1, Directories.leads,
    walk_snoc straight.front straight.directory, Directories.step, if_neg straight.name.2]
  rfl

/-- The last component of a path that leads from a directory to a resource is looked up in that
directory, which the others lead to. -/
theorem last_of_resolved (whole : resolved fs workingDirectory path = ⟨some res, some dir⟩) :
    ∃ front last, components path = front ++ [last] ∧
      fs.directories.leads (startOf fs workingDirectory path) front = some dir ∧
      (front = [] ∨ fs.type dir = cDirectory) ∧ fs.directories.step dir last = some res := by
  rw [resolved_eq] at whole
  obtain ⟨resource, parent⟩ := Lookup.mk.inj whole
  have reached := (Option.filter_eq_some_iff.mp resource).1
  rcases Directories.walk_last reached with ⟨_, _, none_⟩ |
    ⟨front, last, dir', split, here, leads, rest⟩
  · rw [none_] at parent
    cases parent
  · rw [here] at parent
    cases parent
    exact ⟨front, last, split, leads, rest⟩

/-- A path that leads to the entry found under its last name is straight. -/
theorem straight_of_resolved (proper : Proper fs)
    (whole : resolved fs workingDirectory path = ⟨some res, some dir⟩)
    (found : fs.get dir (basename path) (basename path).length = some res) :
    Straight fs (startOf fs workingDirectory path) path dir := by
  have inside : res ∈ fs.entries dir := List.mem_of_find?_eq_some found
  have other : res ≠ dir := fun same => proper.apart dir (same ▸ inside)
  obtain ⟨cs, c, last, front, directory, step⟩ := last_of_resolved whole
  have itself : c ≠ [dot] := fun itself => by
    rw [Directories.step, if_pos itself] at step
    exact other (Option.some.inj step).symm
  rw [Directories.step, if_neg itself] at step
  have split_ := components_path path
  rw [last] at split_
  by_cases empty : basename path = []
  · -- the entry with the empty name is not the one of the last component
    exfalso
    have short := List.find?_some found
    rw [decide_eq_true_eq, empty] at short
    have long := List.find?_some step
    rw [decide_eq_true_eq] at long
    have some_ : c ≠ [] := by
      have member : c ∈ components path := by rw [last]; simp
      simpa using (List.mem_filter.mp member).2
    have none_ : fs.name res = [] := List.length_eq_zero_iff.mp short.1
    have named := (Directories.matches_iff
      (fun zero => some_ (List.length_eq_zero_iff.mp zero)) le_rfl
      (fs.name res)).mp long
    exact named.1 none_
  · rw [if_neg empty] at split_
    obtain ⟨fronts, lasts⟩ := List.append_inj' split_ rfl
    have name : c = basename path := List.singleton_injective lasts
    refine ⟨⟨empty, name ▸ itself⟩, ?_, ?_⟩
    · rw [← fronts]
      exact front
    · rw [← fronts]
      exact directory

/-- The call looks in the directory from which the path leads to something. -/
theorem looksIn_of_resolved (place : fs.looksIn workingDirectory path = some dir)
    (whole : resolved fs workingDirectory path = ⟨some res, some dir'⟩) : dir' = dir := by
  unfold FileSystem.looksIn at place
  split at place
  case isTrue absolute =>
    split at place
    case isTrue => cases place
    case isFalse some_ =>
      obtain ⟨cs, c, last, front, _⟩ := last_of_resolved whole
      rw [components_path path, if_neg some_] at last
      obtain ⟨fronts, _⟩ := List.append_inj' last rfl
      unfold Directories.getDirectory at place
      rw [Directories.getResourceByNameandType_eq] at place
      have there := (Option.filter_eq_some_iff.mp place).1
      rw [startOf, if_pos absolute, ← fronts, Directories.leads] at front
      exact Option.some.inj (front.symm.trans there)
  case isFalse relative =>
    obtain ⟨rootDir, known, place⟩ := Option.bind_eq_some_iff.mp place
    split at place
    case isTrue =>
      rw [resolved, if_neg relative, known] at whole
      rw [whole] at place
      exact Option.some.inj place
    case isFalse single =>
      cases place
      rw [not_not] at single
      obtain ⟨cs, c, last, front, _⟩ := last_of_resolved whole
      have plain : dirPart path = [] := by
        rw [dirPart, single, Nat.sub_self]
        rfl
      have none_ : components [] = [] := parts_nil
      have alone : cs = [] := by
        have length := congrArg List.length (components_path path)
        rw [last, plain, none_, List.nil_append, List.length_append,
          List.length_singleton] at length
        split at length
        · simp at length
        · simpa using length
      rw [alone, startOf, if_neg relative, known] at front
      exact (Option.some.inj front).symm

/-- A removal takes the entry from the directory that holds it, or fails and changes nothing. -/
theorem remove_cases (dir : Nat) (removable : fs.type res &&& cNonRemovableResource = 0) :
    (∃ holder, Held fs dir res holder ∧ fs.remove dir res = (without fs holder res, cOk)) ∨
      (∀ holder, ¬Held fs dir res holder) ∧ (fs.remove dir res).1 = fs ∧
        (fs.remove dir res).2 < 0 := by
  unfold FileSystem.remove
  cases known : fs.holder dir res with
  | none =>
    refine .inr ⟨fun h held => ?_, rfl, (by decide : cError < 0)⟩
    rw [Held, known] at held
    cases held.1
  | some h =>
    have here (h' : Nat) (held : Held fs dir res h') : h' = h := by
      rw [Held, known] at held
      exact (Option.some.inj held.1).symm
    have entry : (res ∈ fs.content h ∧ fs.removeEntry h res = (without fs h res, cOk)) ∨
        res ∉ fs.content h ∧ fs.removeEntry h res = (fs, cError) := by
      unfold FileSystem.removeEntry
      rw [if_neg (not_not.mpr removable)]
      by_cases inside : res ∈ fs.content h
      · exact .inl ⟨inside, if_pos inside⟩
      · exact .inr ⟨inside, if_neg inside⟩
    have served (whole : fs.kind h = .fat → fs.type res &&& cFile ≠ 0) :
        (∃ holder, Held fs dir res holder ∧ fs.removeEntry h res = (without fs holder res, cOk)) ∨
          (∀ holder, ¬Held fs dir res holder) ∧ (fs.removeEntry h res).1 = fs ∧
            (fs.removeEntry h res).2 < 0 := by
      rcases entry with ⟨inside, removed⟩ | ⟨outside, refused⟩
      · exact .inl ⟨h, ⟨known, inside, whole⟩, removed⟩
      · refine .inr ⟨fun h' held => outside (here h' held ▸ held.2.1), ?_⟩
        rw [refused]
        exact ⟨rfl, (by decide : cError < 0)⟩
    simp only
    split
    case h_1 fat =>
      split
      case isTrue other =>
        refine .inr ⟨fun h' held => ?_, rfl, (by decide : cWrongResourceType < 0)⟩
        rw [here h' held] at held
        exact held.2.2 fat other
      case isFalse file => exact served fun _ => file
    case h_2 other => exact served fun fat => absurd fat other

/-- The call fails and changes nothing, or it takes an entry that is exposed out of the
directory that holds it. -/
theorem scFremove_cases (fs : FileSystem) (caller : Caller τ) (path : List Letter) :
    ((fs.scFremove caller path).error < 0 ∧ (fs.scFremove caller path).fileSystem = fs ∧
        ∀ dir, fs.looksIn caller.workingDirectory path = some dir →
          ¬Exposed fs caller.task dir (basename path)) ∨
      ∃ dir res holder, fs.looksIn caller.workingDirectory path = some dir ∧
        fs.get dir (basename path) (basename path).length = some res ∧
        fs.type res &&& cNonRemovableResource = 0 ∧
        0 ≤ caller.task.getOwnedResourceFileDescriptor res ∧ Held fs dir res holder ∧
        (fs.scFremove caller path).fileSystem = without fs holder res := by
  unfold FileSystem.scFremove
  simp only
  cases place : fs.looksIn caller.workingDirectory path with
  | none => exact .inl ⟨(by decide : cInvalidPath < 0), rfl, fun dir known => by cases known⟩
  | some dir =>
    simp only
    cases found : fs.get dir (basename path) (basename path).length with
    | none =>
      refine .inl ⟨(by decide : cInvalidPath < 0), rfl, fun dir' known exposed => ?_⟩
      cases known
      obtain ⟨res, holder, found', _⟩ := exposed
      rw [found] at found'
      cases found'
    | some res =>
      have only (dir' : Nat) (known : some dir = some dir')
          (refused : ¬∃ holder, fs.type res &&& cNonRemovableResource = 0 ∧
            0 ≤ caller.task.getOwnedResourceFileDescriptor res ∧ Held fs dir res holder) :
          ¬Exposed fs caller.task dir' (basename path) := by
        cases known
        rintro ⟨res', holder, found', rest⟩
        rw [found] at found'
        cases found'
        exact refused ⟨holder, rest⟩
      simp only
      split
      case isTrue fixed =>
        exact .inl ⟨(by decide : cResourceNotRemovable < 0), rfl, fun dir' known =>
          only dir' known fun ⟨_, all⟩ => fixed all.1⟩
      case isFalse removable =>
        rw [not_not] at removable
        split
        case isTrue owned =>
          have released : (caller.task.removeResource res).2 = cOk := by
            unfold Task.getOwnedResourceFileDescriptor at owned
            unfold Task.removeResource
            cases search : caller.task.slotOf res with
            | none =>
              rw [search] at owned
              exact absurd owned (by decide)
            | some i => rfl
          rw [if_pos (released ▸ rfl : isOk (caller.task.removeResource res).2 = true)]
          rcases remove_cases dir removable with ⟨holder, held, removed⟩ |
            ⟨none_, same, failed⟩
          · rw [removed]
            exact .inr ⟨dir, res, holder, rfl, found, removable, owned, held, rfl⟩
          · exact .inl ⟨failed, same,
              fun dir' known => only dir' known fun ⟨h, all⟩ => none_ h all.2.2⟩
        case isFalse missing_ =>
          exact .inl ⟨(by decide : cResourceNotOwned < 0), rfl, fun dir' known =>
            only dir' known fun ⟨_, all⟩ => missing_ all.2.1⟩

theorem erase_inj {l : List Nat} {x y : Nat} (inside : x ∈ l) (same : l.erase x = l.erase y) :
    x = y := by
  by_contra other
  have less := congrArg (List.count x) same
  rw [List.count_erase_self, List.count_erase_of_ne other] at less
  have some_ := List.count_pos_iff.mpr inside
  omega

/-- A file system without an entry tells which one it was. -/
theorem without_inj {h h' r r' : Nat} (inside : r ∈ fs.content h)
    (same : without fs h r = without fs h' r') : h' = h ∧ r' = r := by
  have here := congrFun (congrArg FileSystem.content same) h
  have sameDir : h' = h := by
    by_contra other
    simp only [without, Function.update_self, Function.update_of_ne (Ne.symm other)] at here
    have less := List.length_erase_of_mem inside
    have some_ := List.length_pos_of_mem inside
    rw [here] at less
    omega
  subst sameDir
  simp only [without, Function.update_self] at here
  exact ⟨rfl, (erase_inj inside here).symm⟩

theorem without_ne {h r : Nat} (inside : r ∈ fs.content h) : without fs h r ≠ fs := by
  intro same
  have here := congrFun (congrArg FileSystem.content same) h
  simp only [without, Function.update_self] at here
  have less := List.length_erase_of_mem inside
  have some_ := List.length_pos_of_mem inside
  rw [here] at less
  omega

/-- The call removes nothing but what the path leads to, and fails where it leads to
nothing, exactly when the directory it looks in is the one the path leads to the
last name in, or shows no entry with that name that the task could remove. -/
theorem faithful_iff (fs : FileSystem) (proper : Proper fs) (caller : Caller τ)
    (path : List Letter) :
    Faithful fs caller.workingDirectory path (fs.scFremove caller path) ↔
      ∀ dir, fs.looksIn caller.workingDirectory path = some dir →
        Straight fs (startOf fs caller.workingDirectory path) path dir ∨
          ¬Exposed fs caller.task dir (basename path) := by
  rcases scFremove_cases fs caller path with ⟨failed, same, safe⟩ |
    ⟨dir, res, holder, place, found, removable, owned, held, removed⟩
  · exact iff_of_true ⟨.inl same, fun _ => ⟨failed, same⟩⟩ fun dir known => .inr (safe dir known)
  · constructor
    · rintro ⟨same | ⟨dir', res', holder', whole, _, removed'⟩, _⟩ dir'' known
      · exact absurd (removed.symm.trans same) (without_ne held.2.1)
      · rw [place] at known
        cases known
        obtain ⟨_, sameRes⟩ := without_inj held.2.1 (removed.symm.trans removed')
        subst sameRes
        rw [looksIn_of_resolved place whole] at whole
        exact .inl (straight_of_resolved proper whole found)
    · intro safe
      have straight := (safe dir place).resolve_right fun none_ =>
        none_ ⟨res, holder, found, removable, owned, held⟩
      have kind : fs.type res &&& cAnyResource ≠ 0 := fun none_ => proper.typed res (by
        rw [BitVec.and_or_distrib_left, none_, removable]
        rfl)
      have whole : resolved fs caller.workingDirectory path = ⟨some res, some dir⟩ := by
        rw [resolved_of_straight straight, found, Directories.filtered, Option.filter_some,
          if_pos (decide_eq_true (show fs.directories.type res &&& cAnyResource ≠ 0 from kind))]
      refine ⟨.inr ⟨dir, res, holder, whole, held.1, removed⟩, fun none_ => ?_⟩
      rw [whole] at none_
      cases none_

def letterX : Letter := letter 120

/-- A root with one file, of a ram file system, or an overlay with the file in its base. -/
def oneFile (overlaid : Bool) : FileSystem where
  name r := if r = 1 then [letterX] else []
  type r := if r = 1 then cFile
    else if overlaid ∧ r = 0 then cOverlay ||| cDirectory else cDirectory
  kind r := if r = 1 then .plain
    else if overlaid ∧ r = 0 then .overlay (some 2) .ram 3 .ram else .ram
  content r := if r = (if overlaid then 2 else 0) then [1] else []
  numEntries r := if r = (if overlaid then 2 else 0) then 1 else 0
  live _ := true
  root := 0

/-- A task that has acquired the file. -/
def owner : Caller Unit := ⟨((Task.fresh 1 [()]).addResource 1).1, some 0⟩

theorem proper_oneFile (overlaid : Bool) : Proper (oneFile overlaid) where
  typed r := by
    unfold oneFile
    dsimp only
    split
    · decide
    · split
      · decide
      · decide
  apart r := by
    by_cases file : r = 1
    · subst file
      cases overlaid <;> decide
    · by_cases zero : r = 0
      · subst zero
        cases overlaid <;> decide
      · simp only [FileSystem.entries, oneFile, file, zero, and_false, if_false,
          FileSystem.entriesOf]
        split
        · simp [file]
        · exact List.not_mem_nil

/-- The file is removed from below an overlay by its name. -/
theorem faithful_iff_named :
    Faithful (oneFile true) owner.workingDirectory [letterX]
      ((oneFile true).scFremove owner [letterX]) ∧
      ((oneFile true).scFremove owner [letterX]).fileSystem.content 2 = [] :=
  ⟨(faithful_iff (oneFile true) (proper_oneFile true) owner [letterX]).mpr fun dir known =>
    .inl <| by
      cases known
      exact ⟨by decide, rfl, .inl rfl⟩, by decide⟩

/-- In a directory that does not exist the file is looked up in the one that the lookup
ended in. -/
theorem removed_through_missing_directory : ¬∀ (fs : FileSystem) (caller : Caller Unit)
    (path : List Letter), Proper fs →
    Faithful fs caller.workingDirectory path (fs.scFremove caller path) := by
  intro always
  have faithful := always (oneFile false) owner [letterX, letterX, slash, letterX]
    (proper_oneFile false)
  have nothing : resolved (oneFile false) (some 0) [letterX, letterX, slash, letterX] =
      ⟨none, some 0⟩ := by
    rw [resolved_eq]
    rfl
  have kept := congrArg FileSystem.content (faithful.2 (congrArg Lookup.resource nothing)).2
  exact absurd (congrFun kept 0) (by decide)

end Orcos.Guarantees.FileRemovals
