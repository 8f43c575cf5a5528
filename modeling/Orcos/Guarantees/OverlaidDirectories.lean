import Orcos.Source.Files.Overlays

/-!
# Overlaid directories

Source: src/source/filesystem/SimpleFileManager.cc, `overlayDirectory`,
`getResourceByNameandType`; src/source/filesystem/Directory.cc, `add`, `remove`,
`OverlayDirectory::get`; src/source/filesystem/ram/RamFilesystem.cc,
`RamFilesystemDirectory::remove`.

A lookup goes on behind a component only in what has the type of a plain directory, and an
overlay directory does not. Below an overlay nothing is found, except from the root, where
the search begins without a look at the type. A directory of a ram file system deletes what
it takes off its list.
-/
namespace Orcos.Guarantees.OverlaidDirectories
open Source Source.Files Source.Files.OverlayLookups

/-- A path through the directory leads to what it names under the overlay when that holds
the next name, and else where it led before. Every other path leads where it led, and
neither the directory nor its entries are deleted or altered. -/
structure Shows (fs fs' : FileSystem) (o d : Nat) (scheduled : Option Nat) : Prop where
  below : ∀ path cs x rest, components path = cs ++ x :: rest → x ≠ [dot] →
    reached fs cs = some d →
      fs'.getResource path = if held fs o x ≠ none
        then visible fs (fs.directories.leads o (x :: rest)) else fs.getResource path
  beside : ∀ path, (∀ cs rest, components path = cs ++ rest → reached fs cs ≠ some d) →
    fs'.getResource path = fs.getResource path
  kept : scheduled = none ∧ ∀ r, r = d ∨ r ∈ fs.entries d → Same fs fs' r

/-- When the call reports success, the directory at the path is overlaid. -/
def Overlaid (fs : FileSystem) (rootDir o : Nat) (p : List Letter) (address : Nat) : Prop :=
  let after := fs.overlayDirectory rootDir (some o) (some p) address
  after.error = cOk → ∀ d, (fs.directories.getDirectory p).resource = some d →
    Shows fs after.fileSystem o d after.scheduled

/-- A name of an entry, as a component of a path. -/
def Name (x : List Letter) : Prop := x ≠ [] ∧ slash ∉ x ∧ x ≠ [dot]

/-- The call is refused, or no overlay is the root and: over the root there is nothing to
find; elsewhere the path ends in a name, the parent is not in a ram file system, and what
it still holds under that name holds what both directories do. -/
def Harmless (fs : FileSystem) (o : Nat) (p : List Letter) : Prop :=
  ∀ d parentDir, fs.directories.getDirectory p = ⟨some d, parentDir⟩ →
    fs.type d &&& cOverlay = 0 →
      fs.type fs.root &&& cOverlay = 0 ∧
      (d = fs.root → ∀ x, Name x → visible fs ((held fs o x).or (held fs d x)) = none) ∧
      (d ≠ fs.root → ∀ dir, parentDir = some dir →
        (components p).getLast? ≠ some [dot] ∧ fs.kind dir ≠ .ram ∧
          ∀ x, Name x →
            visible fs (shown fs dir d x) = visible fs ((held fs o x).or (held fs d x)))

variable {fs fs' : FileSystem} {rootDir o d dir address : Nat} {p path x : List Letter}
  {cs rest : List (List Letter)}

theorem name_of_component (member : x ∈ components path) (entry : x ≠ [dot]) : Name x := by
  refine ⟨?_, Lib.Parts.notMem_of_mem_parts member, entry⟩
  simpa using (List.mem_filter.mp member).2

/-- What the claim asks for behind the directory. -/
theorem expected_eq (entry : x ≠ [dot]) :
    (if held fs o x ≠ none then visible fs (fs.directories.leads o (x :: rest))
      else visible fs (fs.directories.leads d (x :: rest))) =
      visible fs (onward fs rest ((held fs o x).or (held fs d x))) := by
  rw [leads_entry entry, leads_entry entry]
  cases held fs o x with
  | none => rfl
  | some r => rfl

section Root

/-- What an overlay lists is listed in some directory. -/
theorem listed_of_entriesOf {kind : Kind} {r : Nat} (member : r ∈ fs.entriesOf kind dir) :
    ∃ dir', r ∈ fs.content dir' := by
  induction kind generalizing dir with
  | overlay baseDir base overlayDir overlay base_ih overlay_ih =>
    rcases List.mem_append.mp member with above | below
    · exact overlay_ih above
    · cases baseDir with
      | none => cases below
      | some baseDir => exact base_ih below
  | plain => exact ⟨dir, member⟩
  | ram => exact ⟨dir, member⟩
  | fat => exact ⟨dir, member⟩
  | fatFile parent => exact ⟨dir, member⟩

theorem entriesOf_congr (same : fs'.content = fs.content) (kind : Kind) (dir : Nat) :
    fs'.entriesOf kind dir = fs.entriesOf kind dir := by
  induction kind generalizing dir with
  | overlay baseDir base overlayDir overlay base_ih overlay_ih =>
    unfold FileSystem.entriesOf
    rw [overlay_ih]
    cases baseDir with
    | none => rfl
    | some baseDir => exact congrArg _ (base_ih baseDir)
  | plain => exact congrFun same dir
  | ram => exact congrFun same dir
  | fat => exact congrFun same dir
  | fatFile parent => exact congrFun same dir

theorem held_ne_new (new : New fs address) : held fs dir x ≠ some address := by
  intro found
  obtain ⟨dir', listed⟩ := listed_of_entriesOf (List.mem_of_find?_eq_some found)
  exact new.unlisted dir' listed

/-- The file system with the overlay as its root. -/
def overRoot (fs : FileSystem) (rootDir o address : Nat) : FileSystem :=
  { fs.newOverlay address rootOverlayName rootDir o with root := address }

theorem overRoot_content (new : New fs address) :
    (overRoot fs rootDir o address).content = fs.content := by
  refine (congrArg (Function.update fs.content address) new.empty.symm).trans ?_
  exact Function.update_eq_self address fs.content

/-- The overlay of the root holds what both directories hold. -/
theorem held_overRoot (new : New fs address) (x : List Letter) :
    held (overRoot fs rootDir o address) address x = (held fs o x).or (held fs rootDir x) := by
  have kind : (overRoot fs rootDir o address).kind address =
      .overlay (some rootDir) (fs.kind rootDir) o (fs.kind o) := Function.update_self address _ _
  have entries : (overRoot fs rootDir o address).entries address =
      fs.entries o ++ fs.entries rootDir := by
    unfold FileSystem.entries
    rw [kind, entriesOf_congr (overRoot_content new)]
    rfl
  have both : held (overRoot fs rootDir o address) address x =
      ((overRoot fs rootDir o address).entries address).find?
        fun r => Named (overRoot fs rootDir o address) x r := rfl
  have each (dir : Nat) : held fs dir x = (fs.entries dir).find? fun r => Named fs x r := rfl
  rw [both, entries, each, each, ← List.find?_append]
  apply List.find?_congr
  intro r member
  refine named_congr (Function.update_of_ne ?_ _ _)
  rintro rfl
  rcases List.mem_append.mp member with above | below
  · exact (listed_of_entriesOf above).elim new.unlisted
  · exact (listed_of_entriesOf below).elim new.unlisted

theorem visible_overRoot {res : Option Nat} (old : res ≠ some address) :
    visible (overRoot fs rootDir o address) res = visible fs res := by
  cases res with
  | none => rfl
  | some r =>
    have type : (overRoot fs rootDir o address).directories.type r = fs.directories.type r :=
      Function.update_of_ne (fun same => old (congrArg some same)) _ _
    unfold visible Directories.filtered
    rw [Option.filter_some, Option.filter_some, type]

theorem overRoot_type : (overRoot fs rootDir o address).directories.type address ≠ cDirectory := by
  have type : (overRoot fs rootDir o address).directories.type address = cOverlay ||| cDirectory :=
    Function.update_self address _ _
  rw [type]
  decide

/-- A path that begins with a dot ends at the overlay of the root. -/
theorem reached_overRoot_dot (some_ : rest ≠ []) :
    reached (overRoot fs rootDir o address) ([dot] :: rest) = none := by
  change (overRoot fs rootDir o address).directories.leads address ([dot] :: rest) = none
  rw [Directories.leads_cons, Directories.step, if_pos rfl, Option.bind_some]
  exact if_neg (not_or.mpr ⟨some_, overRoot_type⟩)

theorem reached_overRoot (new : New fs address) (entry : x ≠ [dot]) :
    reached (overRoot fs rootDir o address) (x :: rest) =
      onward (overRoot fs rootDir o address) rest ((held fs o x).or (held fs rootDir x)) := by
  rw [← held_overRoot new]
  exact leads_entry entry

end Root

section Calls

variable {parentDir : Option Nat}

/-- What the lookup of the directory found, and in which directory. -/
theorem getDirectory_cases (found : fs.directories.getDirectory p = ⟨some d, parentDir⟩) :
    fs.type d &&& cDirectory ≠ 0 ∧ reached fs (components p) = some d ∧
      (components p = [] ∧ d = fs.root ∨
        ∃ front last dir, components p = front ++ [last] ∧ parentDir = some dir ∧
          reached fs front = some dir ∧ (front = [] ∨ fs.type dir = cDirectory) ∧
          fs.directories.step dir last = some d) := by
  unfold Directories.getDirectory at found
  rw [Directories.getResourceByNameandType_eq, Lookup.mk.injEq] at found
  obtain ⟨resource, parent⟩ := found
  obtain ⟨walked, type⟩ := Option.filter_eq_some_iff.mp resource
  refine ⟨of_decide_eq_true type, walked, ?_⟩
  rcases Directories.walk_last walked with
    ⟨empty, itself, -⟩ | ⟨front, last, dir, split, lookup, rest⟩
  · exact .inl ⟨empty, itself⟩
  · exact .inr ⟨front, last, dir, split, parent.symm.trans lookup, rest⟩

/-- The directory whose entry is replaced, when the root is no overlay. -/
theorem parent_cases (tree : DirectoryTree fs rootDir) (new : New fs address)
    (root : fs.type fs.root = cDirectory) (different : d ≠ fs.root)
    (found : fs.directories.getDirectory p = ⟨some d, some dir⟩) :
    fs.type dir = cDirectory ∧ dir ≠ address ∧ (components p).getLast? = some [dot] ∧ dir = d ∨
      fs.type dir = cDirectory ∧ dir ≠ address ∧ (components p).getLast? ≠ some [dot] ∧
        d ∈ fs.content dir := by
  obtain ⟨-, -, ⟨-, itself⟩ | ⟨front, last, dir', split, same, start, type, step⟩⟩ :=
    getDirectory_cases found
  · exact absurd itself different
  · cases same
    have plain : fs.type dir = cDirectory := by
      rcases type with empty | plain
      · subst empty
        cases start
        exact root
      · exact plain
    have away := leads_ne_new tree new root new.other start
    rw [split, List.getLast?_concat]
    rcases step_cases tree plain step with ⟨rfl, rfl⟩ | ⟨entry, listed⟩
    · exact .inl ⟨plain, away, rfl, rfl⟩
    · exact .inr ⟨plain, away, fun dotted => entry (Option.some.inj dotted), listed⟩

/-- The call over the root. -/
theorem overlayDirectory_root (found : fs.directories.getDirectory p = ⟨some d, parentDir⟩)
    (overlaid : fs.type d &&& cOverlay = 0) (itself : d = fs.root) :
    fs.overlayDirectory rootDir (some o) (some p) address =
      ⟨overRoot fs rootDir o address, none, cOk⟩ := by
  subst itself
  unfold FileSystem.overlayDirectory
  simp only [found, overlaid, ne_eq, not_true_eq_false, if_true, if_false]
  rfl

/-- The call elsewhere. -/
theorem overlayDirectory_entry (found : fs.directories.getDirectory p = ⟨some d, some dir⟩)
    (overlaid : fs.type d &&& cOverlay = 0) (different : d ≠ fs.root) :
    let ovDir := fs.newOverlay address (fs.name d) d o
    fs.overlayDirectory rootDir (some o) (some p) address =
      ⟨(ovDir.remove dir d).1.add dir address, ovDir.scheduled dir d, cOk⟩ := by
  intro ovDir
  unfold FileSystem.overlayDirectory
  simp only [found, overlaid, different, ne_eq, not_true_eq_false, if_false]
  rfl

theorem expected_of_reached (d_plain : fs.type d = cDirectory) (found : reached fs cs = some d)
    (split : components path = cs ++ x :: rest) (entry : x ≠ [dot]) :
    (if held fs o x ≠ none then visible fs (fs.directories.leads o (x :: rest))
      else fs.getResource path) =
      visible fs (onward fs rest ((held fs o x).or (held fs d x))) := by
  have walk : reached fs (cs ++ x :: rest) = fs.directories.leads d (x :: rest) := by
    unfold reached at found ⊢
    rw [Directories.leads_append, found]
    exact if_pos (.inr d_plain)
  rw [← expected_eq entry, getResource_eq, split, walk]

/-- Over the root every lookup of an entry ends, or goes on as the condition has it. -/
theorem shows_root (tree : DirectoryTree fs rootDir) (new : New fs address)
    (root : fs.type fs.root = cDirectory)
    (hidden : ∀ x, Name x → visible fs ((held fs o x).or (held fs fs.root x)) = none) :
    Shows fs (overRoot fs rootDir o address) o fs.root none := by
  refine ⟨fun path cs x rest split entry found => ?_, fun path away => ?_, rfl, ?_⟩
  · have named : Name x := name_of_component (by rw [split]; simp) entry
    rw [expected_of_reached root found split entry, onward_none rest (hidden x named),
      getResource_eq, split]
    cases cs with
    | nil =>
      rw [List.nil_append, reached_overRoot new entry]
      apply onward_none
      rw [← tree.first (by rw [root]; decide), visible_overRoot]
      · exact hidden x named
      · cases above : held fs o x with
        | none => exact held_ne_new new
        | some r => exact fun same => held_ne_new new (above.trans same)
    | cons c cs =>
      obtain ⟨depth, deeper⟩ := tree.acyclic
      rcases leads_deeper tree deeper root found with ⟨-, dots⟩ | below
      · obtain rfl := dots c List.mem_cons_self
        rw [List.cons_append, reached_overRoot_dot (by simp)]
        rfl
      · exact absurd below (Nat.lt_irrefl _)
  · exact absurd rfl (away [] (components path) rfl)
  · intro r member
    have old : r ≠ address := by
      rcases member with rfl | listed
      · exact new.other
      · rw [entries_of_leaf (tree.leaf root)] at listed
        exact fun same => new.unlisted fs.root (same ▸ listed)
    constructor
    · exact Function.update_of_ne old _ _
    · exact Function.update_of_ne old _ _
    · exact Function.update_of_ne old _ _
    · exact Function.update_of_ne old _ _
    · exact Function.update_of_ne old _ _
    · exact Function.update_of_ne old _ _

/-- In the place of an entry the lookups go on as the condition has it. -/
theorem shows_entry (tree : DirectoryTree fs rootDir) (new : New fs address)
    (replaced : Replaced fs fs' dir d address) (away : dir ≠ address)
    (listed : d ∈ fs.content dir) (root : fs.type fs.root = cDirectory)
    (d_plain : fs.type d = cDirectory) (different : d ≠ fs.root)
    (same : ∀ x, Name x →
      visible fs (shown fs dir d x) = visible fs ((held fs o x).or (held fs d x))) :
    Shows fs fs' o d none := by
  obtain ⟨depth, deeper⟩ := tree.acyclic
  have above := deeper dir d listed
  refine ⟨fun path cs x rest split entry found => ?_, fun path beside => ?_, rfl, ?_⟩
  · have named : Name x := name_of_component (by rw [split]; simp) entry
    rw [expected_of_reached d_plain found split entry, getResource_eq, split,
      replaced.leads_replaced tree new away listed root d_plain new.other different found entry]
    exact onward_congr (same x named)
  · have walk : reached fs' (components path) = reached fs (components path) := by
      unfold reached
      exact (congrArg (fun r => fs'.directories.leads r (components path)) replaced.root).trans
        (replaced.leads_beside tree new away listed root new.other beside)
    rw [getResource_eq, getResource_eq, walk, replaced.visible_old]
    exact fun found => leads_ne_new tree new root new.other found rfl
  · intro r member
    rcases member with rfl | inside
    · refine replaced.others r ?_ fun same => new.unlisted dir (same ▸ listed)
      rintro rfl
      exact Nat.lt_irrefl _ above
    · rw [entries_of_leaf (tree.leaf d_plain)] at inside
      refine replaced.others r ?_ fun same => new.unlisted d (same ▸ inside)
      rintro rfl
      exact Nat.lt_asymm above (deeper d r inside)

end Calls

section Exactness

variable (tree : DirectoryTree fs rootDir) (new : New fs address)
include tree new

/-- A harmless call is without effect on what paths name beside the overlay. -/
theorem overlaid_of_harmless (harmless : Harmless fs o p) :
    Overlaid fs rootDir o p address := by
  unfold Overlaid
  intro after ok d found_
  obtain ⟨parentDir, found⟩ : ∃ parentDir, fs.directories.getDirectory p = ⟨some d, parentDir⟩ :=
    ⟨_, by rw [← found_]⟩
  by_cases overlaid : fs.type d &&& cOverlay = 0
  · obtain ⟨plain_root, at_root, elsewhere⟩ := harmless d parentDir found overlaid
    have root := (tree.not_overlay tree.rooted).mp plain_root
    have d_plain := (tree.not_overlay (getDirectory_cases found).1).mp overlaid
    by_cases itself : d = fs.root
    · rw [show after = _ from overlayDirectory_root found overlaid itself]
      subst itself
      exact shows_root tree new root (at_root rfl)
    · cases parentDir with
      | none =>
        have refused : after = ⟨fs, none, cError⟩ := by
          simp only [after, FileSystem.overlayDirectory, found, overlaid, itself, ne_eq,
            not_true_eq_false, if_false]
        rw [refused] at ok
        exact absurd (show cError = cOk from ok) (by decide)
      | some dir =>
        obtain ⟨named, disk, same⟩ := elsewhere itself dir rfl
        obtain ⟨-, -, dotted, -⟩ | ⟨plain, away, -, listed⟩ :=
          parent_cases tree new root itself found
        · exact absurd dotted named
        · have old : d ≠ address := fun same => new.unlisted dir (same ▸ listed)
          obtain ⟨replaced, scheduled⟩ :=
            replaced_of_add (tree.leaf plain) d_plain listed away old o
          rw [if_neg disk] at scheduled
          rw [show after = _ from overlayDirectory_entry found overlaid itself]
          simp only
          rw [scheduled]
          exact shows_entry tree new replaced away listed root d_plain itself same
  · have refused : after = ⟨fs, none, cError⟩ := by
      simp only [after, FileSystem.overlayDirectory, found, overlaid, ne_eq, not_false_eq_true,
        if_true]
    rw [refused] at ok
    exact absurd (show cError = cOk from ok) (by decide)

omit tree in
/-- An overlay entered into the directory itself alters it. -/
theorem altered_of_dot (leaf : (fs.kind d).isOverlay = false) (old : d ≠ address) :
    let ovDir := fs.newOverlay address (fs.name d) d o
    ((ovDir.remove d d).1.add d address).content d ≠ fs.content d := by
  intro ovDir same
  have kind : (ovDir.remove d d).1.kind d = fs.kind d :=
    (congrFun (remove_kind ovDir d d) d).trans (Function.update_of_ne old _ _)
  have top : (ovDir.remove d d).1.top d = d := by
    unfold FileSystem.top
    rw [kind]
    exact (leaf_cases leaf fs d 0).2.1
  have entered : address ∈ ((ovDir.remove d d).1.add d address).content d := by
    unfold FileSystem.add FileSystem.addEntry
    rw [top]
    simp only [Function.update_self, List.mem_append, List.mem_singleton, or_true]
  exact new.unlisted d (same ▸ entered)

/-- A call that leaves all paths right is a harmless one, when the root is no overlay yet. -/
theorem harmless_of_overlaid (plain_root : fs.type fs.root &&& cOverlay = 0)
    (shows : Overlaid fs rootDir o p address) : Harmless fs o p := by
  have root := (tree.not_overlay tree.rooted).mp plain_root
  intro d parentDir found overlaid
  have d_plain := (tree.not_overlay (getDirectory_cases found).1).mp overlaid
  have resource : (fs.directories.getDirectory p).resource = some d := by rw [found]
  unfold Overlaid at shows
  refine ⟨plain_root, fun itself x named => ?_, fun different dir parent => ?_⟩
  · rw [overlayDirectory_root found overlaid itself] at shows
    have path : components ([dot] ++ slash :: x) = [[dot], x] := by
      unfold components
      rw [Lib.Parts.parts_last [dot] named.2.1, if_neg named.1]
      rfl
    have start : reached fs [[dot]] = some d := by
      rw [itself]
      rfl
    have lost := (shows rfl d resource).below _ [[dot]] x [] path named.2.2 start
    rw [expected_of_reached d_plain start path named.2.2, getResource_eq, path,
      reached_overRoot_dot (List.cons_ne_nil x [])] at lost
    have last : onward fs [] ((held fs o x).or (held fs d x)) = (held fs o x).or (held fs d x) := by
      simp [onward]
    rw [last] at lost
    exact lost.symm
  · subst parent
    rw [overlayDirectory_entry found overlaid different] at shows
    have shown_ := shows rfl d resource
    rcases parent_cases tree new root different found with
      ⟨plain, away, -, rfl⟩ | ⟨plain, away, named, listed⟩
    · have same := (shown_.kept.2 dir (.inl rfl)).content
      exact absurd same (altered_of_dot new (tree.leaf plain) away)
    · have old : d ≠ address := fun same => new.unlisted dir (same ▸ listed)
      obtain ⟨replaced, scheduled⟩ := replaced_of_add (tree.leaf plain) d_plain listed away old o
      refine ⟨named, fun disk => ?_, fun x named => ?_⟩
      · have kept := shown_.kept.1
        rw [scheduled, if_pos disk] at kept
        cases kept
      · have start := (getDirectory_cases found).2.1
        have path : components (p ++ slash :: x) = components p ++ x :: [] := by
          unfold components
          rw [Lib.Parts.parts_last p named.2.1, if_neg named.1]
        have below := shown_.below _ _ x [] path named.2.2 start
        rw [expected_of_reached d_plain start path named.2.2, getResource_eq, path,
          replaced.leads_replaced tree new away listed root d_plain new.other different start
            named.2.2] at below
        simpa [onward] using below

/-- The directory that is overlaid keeps what it shows exactly when the call is harmless;
beneath an overlay of the root, a harmless call keeps it. -/
theorem overlaid_harmless (o : Nat) (p : List Letter) :
    (Harmless fs o p → Overlaid fs rootDir o p address) ∧
      (fs.type fs.root &&& cOverlay = 0 → Overlaid fs rootDir o p address → Harmless fs o p) :=
  ⟨overlaid_of_harmless tree new, harmless_of_overlaid tree new⟩

end Exactness

/-- A root with two directories, a and o; the second holds the given entries. -/
def baseAndOverlay (entries : List Nat) : FileSystem where
  name r := if r = 1 then [letter 97] else if r = 2 then [letter 111] else
    if r = 3 then [letter 102] else []
  type r := if r = 3 then cFile else cDirectory
  kind _ := .plain
  content r := if r = 0 then [1, 2] else if r = 2 then entries else []
  numEntries r := if r = 0 then 2 else if r = 2 then BitVec.ofNat 16 entries.length else 0
  live r := r < 4
  root := 0

def pathA : List Letter := [slash, letter 97]

def pathAF : List Letter := pathA ++ slash :: [letter 102]

theorem baseAndOverlay_content {entries : List Nat} {r : Nat}
    (member : r ∈ (baseAndOverlay entries).content dir) :
    dir = 0 ∧ (r = 1 ∨ r = 2) ∨ dir = 2 ∧ r ∈ entries := by
  unfold baseAndOverlay at member
  simp only at member
  split at member
  · next first => exact .inl ⟨first, by simpa using member⟩
  · split at member
    · next second => exact .inr ⟨second, member⟩
    · cases member

theorem baseAndOverlay_tree {entries : List Nat} (file : ∀ r ∈ entries, r = 3)
    (once : entries.Nodup) : DirectoryTree (baseAndOverlay entries) 0 where
  kinds r directory := by
    unfold baseAndOverlay at directory ⊢
    simp only at directory ⊢
    split at directory
    · exact absurd rfl directory
    · next other => exact .inl (if_neg other)
  own _ _ := rfl
  rooted := by
    change cDirectory &&& cDirectory ≠ 0
    decide
  first _ := rfl
  once dir := by
    unfold baseAndOverlay
    simp only
    split
    · decide
    · split
      · exact once
      · exact List.nodup_nil
  single dir dir' res listed listed' := by
    rcases baseAndOverlay_content listed with ⟨rfl, named⟩ | ⟨rfl, named⟩ <;>
      rcases baseAndOverlay_content listed' with ⟨rfl, named'⟩ | ⟨rfl, named'⟩
    · rfl
    · have := file res named'
      omega
    · have := file res named
      omega
    · rfl
  acyclic := ⟨id, fun dir res listed => by
    rcases baseAndOverlay_content listed with ⟨rfl, named⟩ | ⟨rfl, named⟩
    · simp only [id]
      omega
    · rw [file res named]
      decide⟩

theorem baseAndOverlay_new {entries : List Nat} (file : ∀ r ∈ entries, r = 3) :
    New (baseAndOverlay entries) 4 where
  unlisted dir listed := by
    rcases baseAndOverlay_content listed with ⟨-, named⟩ | ⟨-, named⟩
    · omega
    · have := file 4 named
      omega
  empty := rfl
  other := by
    change 0 ≠ 4
    decide

/-- A root with the directory of a volume, m, and a directory o that is empty. Below m is the
directory a, and in it the file f. -/
def volumeAndOverlay : FileSystem where
  name r := if r = 1 then [letter 109] else if r = 2 then [letter 111] else
    if r = 3 then [letter 97] else if r = 4 then [letter 102] else []
  type r := if r = 4 then cFile else cDirectory
  kind r := if r = 1 ∨ r = 3 then .fat else if r = 4 then .fatFile 3 else .plain
  content r := if r = 0 then [1, 2] else if r = 1 then [3] else if r = 3 then [4] else []
  numEntries r := if r = 0 then 2 else if r = 1 ∨ r = 3 then 1 else 0
  live r := r < 5
  root := 0

/-- `/m/a` -/
def pathMA : List Letter := slash :: letter 109 :: pathA

theorem volumeAndOverlay_content {r : Nat} (member : r ∈ volumeAndOverlay.content dir) :
    dir = 0 ∧ (r = 1 ∨ r = 2) ∨ dir = 1 ∧ r = 3 ∨ dir = 3 ∧ r = 4 := by
  unfold volumeAndOverlay at member
  simp only at member
  split at member
  · next here => exact .inl ⟨here, by simpa using member⟩
  split at member
  · next here => exact .inr (.inl ⟨here, by simpa using member⟩)
  split at member
  · next here => exact .inr (.inr ⟨here, by simpa using member⟩)
  · cases member

theorem volumeAndOverlay_tree : DirectoryTree volumeAndOverlay 0 where
  kinds r directory := by
    unfold volumeAndOverlay at directory ⊢
    simp only at directory ⊢
    split at directory
    · exact absurd rfl directory
    · next other => exact .inl (if_neg other)
  own r _ := by
    unfold volumeAndOverlay
    simp only
    split
    · rfl
    · split
      · rfl
      · rfl
  rooted := by
    change cDirectory &&& cDirectory ≠ 0
    decide
  first _ := rfl
  once dir := by
    unfold volumeAndOverlay
    simp only
    split_ifs <;> decide
  single dir dir' res listed listed' := by
    have place := volumeAndOverlay_content listed
    have place' := volumeAndOverlay_content listed'
    omega
  acyclic := ⟨id, fun dir res listed => by
    have place := volumeAndOverlay_content listed
    simp only [id]
    omega⟩

theorem volumeAndOverlay_new : New volumeAndOverlay 5 where
  unlisted dir listed := by
    have place := volumeAndOverlay_content listed
    omega
  empty := rfl
  other := by
    change 0 ≠ 5
    decide

/-- The volume does not give its directory up, and the file in it is found as before. -/
theorem overlaid_harmless_volume :
    Overlaid volumeAndOverlay 0 2 pathMA 5 ∧ Harmless volumeAndOverlay 2 pathMA := by
  have harmless : Harmless volumeAndOverlay 2 pathMA := by
    intro d parentDir found overlaid
    have lookup : volumeAndOverlay.directories.getDirectory pathMA = ⟨some 3, some 1⟩ := by
      decide +kernel
    rw [lookup] at found
    cases found
    refine ⟨by decide +kernel, fun itself => absurd itself (by decide +kernel), ?_⟩
    intro _ dir parent
    cases parent
    exact ⟨by decide +kernel, by decide +kernel, fun x _ => rfl⟩
  exact ⟨(overlaid_harmless volumeAndOverlay_tree volumeAndOverlay_new 2 pathMA).1 harmless,
    harmless⟩

/-- The file in the overlay is not found below the directory. -/
theorem overlaid_hidden :
    DirectoryTree (baseAndOverlay [3]) 0 ∧ New (baseAndOverlay [3]) 4 ∧
      ((baseAndOverlay [3]).overlayDirectory 0 (some 2) (some pathA) 4).error = cOk ∧
      held (baseAndOverlay [3]) 2 [letter 102] = some 3 ∧
      ((baseAndOverlay [3]).overlayDirectory 0 (some 2) (some pathA) 4).fileSystem.getResource
        pathAF = none ∧
      ¬Overlaid (baseAndOverlay [3]) 0 2 pathA 4 := by
  refine ⟨baseAndOverlay_tree (by simp) (by decide), baseAndOverlay_new (by simp),
    by decide +kernel, by decide +kernel, by decide +kernel, fun overlaid => ?_⟩
  have below := (overlaid (by decide +kernel) 1 (by decide +kernel)).below pathAF
    [[letter 97]] [letter 102] [] (by decide +kernel) (by decide)
    (by decide +kernel)
  revert below
  decide +kernel

end Orcos.Guarantees.OverlaidDirectories
