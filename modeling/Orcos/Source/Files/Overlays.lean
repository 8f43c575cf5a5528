import Mathlib.Data.List.Find
import Orcos.Source.Alignment
import Orcos.Source.Files.FileSystem

/-!
# Overlays

Source: src/source/filesystem/SimpleFileManager.cc, `getResource`, `overlayDirectory`;
src/source/filesystem/Directory.cc, `OverlayDirectory`;
src/source/filesystem/ram/RamFilesystem.cc, `RamFilesystemDirectory::remove`;
src/source/filesystem/fat/FATDirectory.cc, `remove`.

A new overlay directory is entered in the place of the directory at a path. Over the root
it becomes the root; the member `rootDir` of the file manager stays below it. The entries
on a disk, and the blocks of a file, are only given up for what is scheduled for deletion.
-/
namespace Orcos.Source.Files

def rootOverlayName : List Letter :=
  [82, 79, 79, 84, 95, 79, 86, 69, 82, 76, 65, 89].map letter

def Kind.isOverlay : Kind → Bool
  | .overlay _ _ _ _ => true
  | _ => false

/-- The file system after a call, what the call scheduled for deletion, and what it
returned. -/
structure Overlaying where
  fileSystem : FileSystem
  scheduled : Option Nat
  error : ErrorT

namespace FileSystem

variable (fs : FileSystem)

def getResource (pathname : List Letter) : Option Nat :=
  (fs.directories.getResourceByNameandType pathname cAnyResource none).resource

/-- What `remove` schedules for deletion. -/
def scheduled (dir res : Nat) : Option Nat :=
  match fs.holder dir res with
  | none => none
  | some dir =>
    match fs.kind dir with
    | .ram => if isError (fs.removeEntry dir res).2 then none else some res
    | .fat => if fs.type res &&& cFile = 0 then none else some res
    | _ => none

/-- `new OverlayDirectory`. -/
def newOverlay (address : Nat) (name : List Letter) (baseDir overlay : Nat) : FileSystem :=
  fs.construct address name (cOverlay ||| cDirectory)
    (.overlay (some baseDir) (fs.kind baseDir) overlay (fs.kind overlay))

def overlayDirectory (rootDir : Nat) (overlay : Option Nat) (path : Option (List Letter))
    (address : Nat) : Overlaying :=
  match overlay, path with
  | some overlay, some path =>
    match fs.directories.getDirectory path with
    | ⟨none, _⟩ => ⟨fs, none, cInvalidPath⟩
    | ⟨some baseDir, parentDir⟩ =>
      if fs.type baseDir &&& cOverlay ≠ 0 then ⟨fs, none, cError⟩
      else if baseDir = fs.root then
        ⟨{ fs.newOverlay address rootOverlayName rootDir overlay with root := address }, none, cOk⟩
      else
        match parentDir with
        | none => ⟨fs, none, cError⟩
        | some parentDir =>
          let ovDir := fs.newOverlay address (fs.name baseDir) baseDir overlay
          ⟨(ovDir.remove parentDir baseDir).1.add parentDir address,
            ovDir.scheduled parentDir baseDir, cOk⟩
  | _, _ => ⟨fs, none, cNullPointerProvided⟩

end FileSystem

end Orcos.Source.Files

/-! ## Lookups around an overlay

Source: src/source/filesystem/SimpleFileManager.cc, `getResourceByNameandType`,
`overlayDirectory`; src/source/filesystem/Directory.cc, `add`, `remove`;
src/source/filesystem/ram/RamFilesystem.cc, `RamFilesystemDirectory::remove`;
src/source/filesystem/fat/FATDirectory.cc, `remove`.

In the place of a directory its parent lists an overlay. Lookups that do not come by the
directory go where they went. Behind it they go on in what the parent still lists under the
name of the directory: a lookup stops at the overlay, which has not the type of a plain
directory.
-/
namespace Orcos.Source.Files.OverlayLookups

/-- Directories that are not overlays list their own entries. Each resource is listed once,
and none below itself. -/
structure DirectoryTree (fs : FileSystem) (rootDir : Nat) : Prop where
  kinds : ∀ r, fs.type r &&& cDirectory ≠ 0 →
    fs.type r = cDirectory ∨ fs.type r = cOverlay ||| cDirectory
  own : ∀ r, fs.type r &&& cOverlay = 0 → (fs.kind r).isOverlay = false
  rooted : fs.type fs.root &&& cDirectory ≠ 0
  first : fs.type fs.root &&& cOverlay = 0 → fs.root = rootDir
  once : ∀ dir, (fs.content dir).Nodup
  single : ∀ dir dir' res, res ∈ fs.content dir → res ∈ fs.content dir' → dir = dir'
  acyclic : ∃ depth : Nat → Nat, ∀ dir res, res ∈ fs.content dir → depth dir < depth res

/-- What `new` gives is not in use. -/
structure New (fs : FileSystem) (address : Nat) : Prop where
  unlisted : ∀ dir, address ∉ fs.content dir
  empty : fs.content address = []
  other : fs.root ≠ address

/-- Nothing about a resource has changed. -/
structure Same (fs fs' : FileSystem) (r : Nat) : Prop where
  name : fs'.name r = fs.name r
  type : fs'.type r = fs.type r
  kind : fs'.kind r = fs.kind r
  content : fs'.content r = fs.content r
  numEntries : fs'.numEntries r = fs.numEntries r
  live : fs'.live r = fs.live r

/-- What a path can name. -/
def visible (fs : FileSystem) (res : Option Nat) : Option Nat :=
  fs.directories.filtered cAnyResource res

/-- Where components lead from the root. -/
def reached (fs : FileSystem) (cs : List (List Letter)) : Option Nat :=
  fs.directories.leads fs.root cs

/-- What a directory holds under a name. -/
def held (fs : FileSystem) (dir : Nat) (x : List Letter) : Option Nat := fs.get dir x x.length

/-- What is left on the list of the parent. A fat file system removes files only. -/
def left (fs : FileSystem) (parentDir d : Nat) : List Nat :=
  if fs.kind parentDir = .fat then fs.content parentDir else (fs.content parentDir).erase d

/-- What the directory that is then found first under the name holds. -/
def shown (fs : FileSystem) (parentDir d : Nat) (x : List Letter) : Option Nat :=
  (((left fs parentDir d).find? fun r => fs.name r = fs.name d).filter
    fun r => fs.type r = cDirectory).bind fun r => held fs r x

/-- What a name leads to, and the components behind it. -/
def onward (fs : FileSystem) (rest : List (List Letter)) (found : Option Nat) : Option Nat :=
  found.bind fun r =>
    if rest = [] ∨ fs.type r = cDirectory then fs.directories.leads r rest else none

variable {fs fs' : FileSystem} {rootDir o d dir address : Nat} {p path x : List Letter}
  {cs rest : List (List Letter)}

theorem getResource_eq (fs : FileSystem) (path : List Letter) :
    fs.getResource path = visible fs (reached fs (components path)) := by
  unfold FileSystem.getResource
  rw [Directories.getResourceByNameandType_eq]
  rfl

/-- Under a name of an entry. -/
theorem step_eq_held (entry : x ≠ [dot]) : fs.directories.step dir x = held fs dir x :=
  if_neg entry

theorem visible_directory {r : Nat} (plain : fs.type r = cDirectory) :
    visible fs (some r) = some r := by
  unfold visible Directories.filtered
  refine Option.filter_eq_some_iff.mpr ⟨rfl, decide_eq_true ?_⟩
  change fs.type r &&& cAnyResource ≠ 0
  rw [plain]
  decide

/-- What is looked into behind a component is visible. -/
theorem onward_congr {u v : Option Nat} (same : visible fs u = visible fs v) :
    visible fs (onward fs rest u) = visible fs (onward fs rest v) := by
  by_cases last : rest = []
  · subst last
    simpa [onward] using same
  · have inner (w : Option Nat) : onward fs rest w =
        (visible fs w).bind fun r =>
          if fs.type r = cDirectory then fs.directories.leads r rest else none := by
      cases w with
      | none => rfl
      | some r =>
        by_cases plain : fs.type r = cDirectory
        · rw [visible_directory plain]
          simp [onward, plain]
        · have hidden : (visible fs (some r)).bind (fun r =>
              if fs.type r = cDirectory then fs.directories.leads r rest else none) = none := by
            unfold visible Directories.filtered
            rw [Option.filter_some]
            split
            · simp [plain]
            · rfl
          rw [hidden]
          simp [onward, plain, last]
    rw [inner u, inner v, same]

namespace DirectoryTree

theorem not_overlay (tree : DirectoryTree fs rootDir) {r : Nat}
    (directory : fs.type r &&& cDirectory ≠ 0) :
    fs.type r &&& cOverlay = 0 ↔ fs.type r = cDirectory := by
  rcases tree.kinds r directory with plain | overlay
  · exact iff_of_true (by rw [plain]; decide) plain
  · exact iff_of_false (by rw [overlay]; decide) (by rw [overlay]; decide)

theorem leaf (tree : DirectoryTree fs rootDir) (plain : fs.type dir = cDirectory) :
    (fs.kind dir).isOverlay = false :=
  tree.own dir (by rw [plain]; decide)

end DirectoryTree

/-- A directory that is no overlay is asked for its own entries, and keeps them itself. -/
theorem leaf_cases {kind : Kind} (leaf : kind.isOverlay = false) (fs : FileSystem)
    (dir res : Nat) :
    fs.entriesOf kind dir = fs.content dir ∧ FileSystem.topOf kind dir = dir ∧
      fs.holderOf kind dir res = some dir := by
  cases kind with
  | overlay baseDir base overlayDir overlay => cases leaf
  | plain => exact ⟨rfl, rfl, rfl⟩
  | ram => exact ⟨rfl, rfl, rfl⟩
  | fat => exact ⟨rfl, rfl, rfl⟩
  | fatFile parent => exact ⟨rfl, rfl, rfl⟩

theorem entries_of_leaf (leaf : (fs.kind dir).isOverlay = false) :
    fs.entries dir = fs.content dir := (leaf_cases leaf fs dir 0).1

/-- The rest of the memory is as it was. -/
structure Aside (fs fs' : FileSystem) (dir : Nat) : Prop where
  root : fs'.root = fs.root
  names : fs'.name = fs.name
  types : fs'.type = fs.type
  kinds : fs'.kind = fs.kind
  live : fs'.live = fs.live
  numEntries : ∀ r, r ≠ dir → fs'.numEntries r = fs.numEntries r

/-- A directory is removed from the list it is on, unless it is one of a fat file system. -/
theorem remove_directory (leaf : (fs.kind dir).isOverlay = false)
    (plain : fs.type d = cDirectory) (listed : d ∈ fs.content dir) :
    Aside fs (fs.remove dir d).1 dir ∧
      (fs.remove dir d).1.content = Function.update fs.content dir (left fs dir d) := by
  have removable : fs.type d &&& cNonRemovableResource = 0 := by rw [plain]; decide
  have file : fs.type d &&& cFile = 0 := by rw [plain]; decide
  unfold FileSystem.remove FileSystem.holder left
  rw [(leaf_cases leaf fs dir d).2.2]
  by_cases fat : fs.kind dir = .fat
  · simp only [fat, file, if_true, Function.update_eq_self, and_true]
    exact ⟨rfl, rfl, rfl, rfl, rfl, fun r other => rfl⟩
  · simp only [fat, if_false]
    unfold FileSystem.removeEntry
    rw [if_neg (not_not.mpr removable), if_pos listed]
    exact ⟨⟨rfl, rfl, rfl, rfl, rfl, fun r other => Function.update_of_ne other _ _⟩, rfl⟩

theorem remove_kind (fs : FileSystem) (dir res : Nat) : (fs.remove dir res).1.kind = fs.kind := by
  have entry (dir : Nat) : (fs.removeEntry dir res).1.kind = fs.kind := by
    unfold FileSystem.removeEntry
    split
    · rfl
    · split
      · rfl
      · rfl
  unfold FileSystem.remove
  split
  · rfl
  · split
    · split
      · rfl
      · exact entry _
    · exact entry _

/-- A ram file system schedules the removed directory for deletion. -/
theorem scheduled_directory (leaf : (fs.kind dir).isOverlay = false)
    (plain : fs.type d = cDirectory) (listed : d ∈ fs.content dir) :
    fs.scheduled dir d = if fs.kind dir = .ram then some d else none := by
  have removable : fs.type d &&& cNonRemovableResource = 0 := by rw [plain]; decide
  have file : fs.type d &&& cFile = 0 := by rw [plain]; decide
  have taken : isError (fs.removeEntry dir d).2 = false := by
    unfold FileSystem.removeEntry
    rw [if_neg (not_not.mpr removable), if_pos listed]
    rfl
  unfold FileSystem.scheduled FileSystem.holder
  rw [(leaf_cases leaf fs dir d).2.2]
  cases kind : fs.kind dir with
  | overlay baseDir base overlayDir overlay =>
    rw [kind] at leaf
    cases leaf
  | plain => simp only [kind, reduceCtorEq, if_false]
  | ram => simp only [kind, taken, if_true, Bool.false_eq_true, if_false]
  | fat => simp only [kind, file, if_true, reduceCtorEq, if_false]
  | fatFile parent => simp only [kind, reduceCtorEq, if_false]

section Walks

variable {r : Nat} {c : List Letter}

theorem step_cases (tree : DirectoryTree fs rootDir) (plain : fs.type dir = cDirectory)
    (found : fs.directories.step dir c = some r) :
    (c = [dot] ∧ r = dir) ∨ c ≠ [dot] ∧ r ∈ fs.content dir := by
  unfold Directories.step at found
  split at found
  · next itself =>
    cases found
    exact .inl ⟨itself, rfl⟩
  · next entry =>
    have listed : r ∈ fs.entries dir := List.mem_of_find?_eq_some found
    rw [entries_of_leaf (tree.leaf plain)] at listed
    exact .inr ⟨entry, listed⟩

/-- Only dots lead to the directory itself. -/
theorem leads_deeper (tree : DirectoryTree fs rootDir) {depth : Nat → Nat}
    (deeper : ∀ dir res, res ∈ fs.content dir → depth dir < depth res)
    (plain : fs.type dir = cDirectory) (found : fs.directories.leads dir cs = some r) :
    (r = dir ∧ ∀ c ∈ cs, c = [dot]) ∨ depth dir < depth r := by
  induction cs generalizing dir with
  | nil =>
    cases found
    exact .inl ⟨rfl, nofun⟩
  | cons c cs ih =>
    rw [Directories.leads_cons] at found
    obtain ⟨r', first, found⟩ := Option.bind_eq_some_iff.mp found
    split at found
    · next goes =>
      have later : (r = r' ∧ ∀ c ∈ cs, c = [dot]) ∨ depth r' < depth r := by
        rcases goes with last | inner
        · subst last
          cases found
          exact .inl ⟨rfl, nofun⟩
        · exact ih inner found
      rcases step_cases tree plain first with ⟨itself, rfl⟩ | ⟨_, listed⟩
      · rcases later with ⟨rfl, dots⟩ | below
        · exact .inl ⟨rfl, fun c' member => (List.mem_cons.mp member).elim
            (fun same => same.trans itself) (dots c')⟩
        · exact .inr below
      · have one := deeper dir r' listed
        rcases later with ⟨rfl, _⟩ | below
        · exact .inr one
        · exact .inr (one.trans below)
    · cases found

/-- The new overlay is not found before it is entered. -/
theorem leads_ne_new (tree : DirectoryTree fs rootDir) (new : New fs address)
    (plain : fs.type dir = cDirectory) (away : dir ≠ address)
    (found : fs.directories.leads dir cs = some r) : r ≠ address := by
  induction cs generalizing dir with
  | nil =>
    cases found
    exact away
  | cons c cs ih =>
    rw [Directories.leads_cons] at found
    obtain ⟨r', first, found⟩ := Option.bind_eq_some_iff.mp found
    have other : r' ≠ address := by
      rcases step_cases tree plain first with ⟨_, rfl⟩ | ⟨_, listed⟩
      · exact away
      · exact fun same => new.unlisted dir (same ▸ listed)
    split at found
    · next goes =>
      rcases goes with last | inner
      · subst last
        cases found
        exact other
      · exact ih inner other found
    · cases found

theorem leads_dots {t : Directories} (plain : t.type r = cDirectory)
    (dots : ∀ c ∈ cs, c = [dot]) : t.leads r (cs ++ rest) = t.leads r rest := by
  induction cs with
  | nil => rfl
  | cons c cs ih =>
    have itself : t.step r c = some r := if_pos (dots c List.mem_cons_self)
    rw [List.cons_append, Directories.leads_cons, itself]
    simp only [Option.bind_some, plain, or_true, if_true]
    exact ih fun c' member => dots c' (List.mem_cons_of_mem c member)

end Walks

/-- An overlay directory in the place of a directory. -/
structure Replaced (fs fs' : FileSystem) (dir d address : Nat) : Prop where
  root : fs'.root = fs.root
  content : fs'.content dir = left fs dir d ++ [address]
  name : fs'.name address = fs.name d
  type : fs'.type address = cOverlay ||| cDirectory
  names : ∀ r, r ≠ address → fs'.name r = fs.name r
  types : ∀ r, r ≠ address → fs'.type r = fs.type r
  kinds : ∀ r, r ≠ address → fs'.kind r = fs.kind r
  others : ∀ r, r ≠ dir → r ≠ address → Same fs fs' r

theorem replaced_of_add (leaf : (fs.kind dir).isOverlay = false) (plain : fs.type d = cDirectory)
    (listed : d ∈ fs.content dir) (away : dir ≠ address) (old : d ≠ address) (o : Nat) :
    let ovDir := fs.newOverlay address (fs.name d) d o
    Replaced fs ((ovDir.remove dir d).1.add dir address) dir d address ∧
      ovDir.scheduled dir d = if fs.kind dir = .ram then some d else none := by
  intro ovDir
  have kind : ovDir.kind dir = fs.kind dir := Function.update_of_ne away _ _
  have type : ovDir.type d = cDirectory := (Function.update_of_ne old _ _).trans plain
  have content : ovDir.content dir = fs.content dir := Function.update_of_ne away _ _
  have leaf' : (ovDir.kind dir).isOverlay = false := by rw [kind]; exact leaf
  have listed' : d ∈ ovDir.content dir := by rw [content]; exact listed
  refine ⟨?_, by rw [scheduled_directory leaf' type listed', kind]⟩
  obtain ⟨aside, taken⟩ := remove_directory leaf' type listed'
  have rest : left ovDir dir d = left fs dir d := by
    unfold left
    rw [kind, content]
  rw [rest] at taken
  have top : (ovDir.remove dir d).1.top dir = dir := by
    unfold FileSystem.top
    rw [aside.kinds]
    exact (leaf_cases leaf' fs dir 0).2.1
  unfold FileSystem.add FileSystem.addEntry
  rw [top, taken]
  have self : Function.update ovDir.content dir (left fs dir d) dir = left fs dir d :=
    Function.update_self dir _ _
  constructor
  · exact aside.root
  · simp only [self, Function.update_self]
  · exact (congrFun aside.names address).trans (Function.update_self address _ _)
  · exact (congrFun aside.types address).trans (Function.update_self address _ _)
  · exact fun r other => (congrFun aside.names r).trans (Function.update_of_ne other _ _)
  · exact fun r other => (congrFun aside.types r).trans (Function.update_of_ne other _ _)
  · exact fun r other => (congrFun aside.kinds r).trans (Function.update_of_ne other _ _)
  · intro r apart other
    constructor
    · exact (congrFun aside.names r).trans (Function.update_of_ne other _ _)
    · exact (congrFun aside.types r).trans (Function.update_of_ne other _ _)
    · exact (congrFun aside.kinds r).trans (Function.update_of_ne other _ _)
    · simp only [Function.update_of_ne apart]
      exact Function.update_of_ne other _ _
    · simp only [Function.update_of_ne apart]
      exact (aside.numEntries r apart).trans (Function.update_of_ne other _ _)
    · exact (congrFun aside.live r).trans (Function.update_of_ne other _ _)

section Lookups

variable {r : Nat} {c : List Letter}

/-- Which entry a lookup accepts. -/
def Named (fs : FileSystem) (c : List Letter) (r : Nat) : Prop :=
  (fs.name r).length = c.length % 2 ^ 8 ∧ strncmp c (fs.name r) (fs.name r).length = 0

instance (fs : FileSystem) (c : List Letter) : DecidablePred (Named fs c) :=
  fun _ => inferInstanceAs (Decidable (_ ∧ _))

theorem named_congr (same : fs'.name r = fs.name r) :
    decide (Named fs' c r) = decide (Named fs c r) := by
  rw [decide_eq_decide, Named, Named, same]

theorem held_eq (leaf : (fs.kind dir).isOverlay = false) (c : List Letter) :
    held fs dir c = (fs.content dir).find? fun r => Named fs c r := by
  rw [← entries_of_leaf leaf]
  rfl

/-- Once a name leads to a directory, the entries it accepts are those of that name. -/
theorem named_iff {name : List Letter}
    (accepted : name.length = c.length % 2 ^ 8 ∧ strncmp c name name.length = 0) :
    Named fs c r ↔ fs.name r = name := by
  constructor
  · exact fun other => Directories.matches_unique other accepted
  · intro same
    unfold Named
    rw [same]
    exact accepted

/-- The entry found first is found without another one behind it. -/
theorem find?_erase {accepts : Nat → Bool} {entries : List Nat} (apart : r ≠ d)
    (found : entries.find? accepts = some r) : (entries.erase d).find? accepts = some r := by
  induction entries with
  | nil => cases found
  | cons e entries ih =>
    by_cases here : accepts e
    · rw [List.find?_cons_of_pos here] at found
      cases found
      rw [List.erase_cons_tail (by simpa using apart), List.find?_cons_of_pos here]
    · rw [List.find?_cons_of_neg here] at found
      by_cases same : e = d
      · subst same
        rw [List.erase_cons_head]
        exact found
      · rw [List.erase_cons_tail (by simpa using same), List.find?_cons_of_neg here]
        exact ih found

theorem left_subset (member : r ∈ left fs dir d) : r ∈ fs.content dir := by
  unfold left at member
  split at member
  · exact member
  · exact List.mem_of_mem_erase member

namespace Replaced

variable (replaced : Replaced fs fs' dir d address)
include replaced

theorem held_other (new : New fs address) (leaf : (fs.kind r).isOverlay = false)
    (away : r ≠ address) (apart : r ≠ dir) (c : List Letter) : held fs' r c = held fs r c := by
  have same := replaced.others r apart away
  have leaf' : (fs'.kind r).isOverlay = false := by rw [same.kind]; exact leaf
  rw [held_eq leaf', held_eq leaf, same.content]
  apply List.find?_congr
  exact fun res member =>
    named_congr (replaced.names res fun equal => new.unlisted r (equal ▸ member))

/-- In the parent all other names lead where they led. -/
theorem held_parent (new : New fs address) (leaf : (fs.kind dir).isOverlay = false)
    (away : dir ≠ address) (listed : d ∈ fs.content dir) (other : held fs dir c ≠ some d) :
    held fs' dir c = held fs dir c := by
  have leaf' : (fs'.kind dir).isOverlay = false := by rw [replaced.kinds dir away]; exact leaf
  rw [held_eq leaf] at other ⊢
  rw [held_eq leaf', replaced.content]
  have names : (left fs dir d).find? (fun r => decide (Named fs' c r)) =
      (left fs dir d).find? fun r => decide (Named fs c r) := by
    apply List.find?_congr
    exact fun res member => named_congr
      (replaced.names res fun equal => new.unlisted dir (equal ▸ left_subset member))
  rw [List.find?_append, names]
  cases found : (fs.content dir).find? fun r => decide (Named fs c r) with
  | some r =>
    have apart : r ≠ d := fun same => other (found.trans (congrArg some same))
    have still : (left fs dir d).find? (fun r => decide (Named fs c r)) = some r := by
      unfold left
      split
      · exact found
      · exact find?_erase apart found
    rw [still]
    rfl
  | none =>
    have rejected := List.find?_eq_none.mp found
    have nothing : (left fs dir d).find? (fun r => decide (Named fs c r)) = none :=
      List.find?_eq_none.mpr fun r member => rejected r (left_subset member)
    have overlay : ¬Named fs' c address := by
      unfold Named
      rw [replaced.name]
      exact fun named => rejected d listed (decide_eq_true named)
    rw [nothing, List.find?_cons_of_neg (by simpa using overlay)]
    rfl

/-- Where the directory was found, another entry of its name is found, or the overlay. -/
theorem held_place (new : New fs address) (leaf : (fs.kind dir).isOverlay = false)
    (away : dir ≠ address) (found : held fs dir c = some d) :
    held fs' dir c =
      some (((left fs dir d).find? fun r => fs.name r = fs.name d).getD address) := by
  have leaf' : (fs'.kind dir).isOverlay = false := by rw [replaced.kinds dir away]; exact leaf
  rw [held_eq leaf] at found
  have accepted : Named fs c d := by simpa using List.find?_some found
  rw [held_eq leaf', replaced.content, List.find?_append]
  have names : (left fs dir d).find? (fun r => decide (Named fs' c r)) =
      (left fs dir d).find? fun r => fs.name r = fs.name d := by
    apply List.find?_congr
    intro res member
    rw [decide_eq_decide, named_iff accepted,
      replaced.names res fun equal => new.unlisted dir (equal ▸ left_subset member)]
  have overlay : Named fs' c address := (named_iff accepted).mpr replaced.name
  rw [names, List.find?_cons_of_pos (by simpa using overlay)]
  cases (left fs dir d).find? fun r => fs.name r = fs.name d with
  | none => rfl
  | some r => rfl

end Replaced

end Lookups

section Below

variable {r : Nat} {c : List Letter}

theorem leads_entry (entry : x ≠ [dot]) :
    fs.directories.leads dir (x :: rest) = onward fs rest (held fs dir x) := by
  rw [Directories.leads_cons, step_eq_held entry]
  rfl

theorem onward_none (rest : List (List Letter)) {u : Option Nat} (hidden : visible fs u = none) :
    visible fs (onward fs rest u) = none := by
  have same : visible fs (onward fs rest u) = visible fs (onward fs rest none) :=
    onward_congr (show visible fs u = visible fs none from hidden)
  rw [same]
  rfl

/-- Components that lead to a resource other than where they start end in its name and
dots. -/
theorem leads_to (tree : DirectoryTree fs rootDir) (plain : fs.type dir = cDirectory)
    (found : fs.directories.leads dir cs = some d) (away : d ≠ dir) :
    ∃ front c dots parent, cs = front ++ c :: dots ∧ (∀ c' ∈ dots, c' = [dot]) ∧ c ≠ [dot] ∧
      fs.directories.leads dir front = some parent ∧ fs.type parent = cDirectory ∧
      held fs parent c = some d ∧ d ∈ fs.content parent := by
  induction cs generalizing dir with
  | nil =>
    cases found
    exact absurd rfl away
  | cons c cs ih =>
    rw [Directories.leads_cons] at found
    obtain ⟨r, first, later⟩ := Option.bind_eq_some_iff.mp found
    split at later
    · next goes =>
      rcases step_cases tree plain first with ⟨rfl, rfl⟩ | ⟨entry, listed⟩
      · obtain ⟨front, c, dots, parent, split, all, entry, reached, type, last, listed⟩ :=
          ih plain later away
        refine ⟨[dot] :: front, c, dots, parent, by rw [split]; rfl, all, entry, ?_, type, last,
          listed⟩
        rw [Directories.leads_cons, first]
        exact (if_pos (.inr plain)).trans reached
      · rw [step_eq_held entry] at first
        by_cases here : r = d
        · subst here
          refine ⟨[], c, cs, dir, rfl, ?_, entry, rfl, plain, first, listed⟩
          rcases goes with last | inner
          · subst last
            exact nofun
          · obtain ⟨depth, deeper⟩ := tree.acyclic
            rcases leads_deeper tree deeper inner later with ⟨-, dots⟩ | below
            · exact dots
            · exact absurd below (Nat.lt_irrefl _)
        · have inner : fs.type r = cDirectory := by
            rcases goes with last | inner
            · subst last
              cases later
              exact absurd rfl here
            · exact inner
          obtain ⟨front, c', dots, parent, split, all, entry', reached, type, last, listed'⟩ :=
            ih inner later (Ne.symm here)
          refine ⟨c :: front, c', dots, parent, by rw [split]; rfl, all, entry', ?_, type, last,
            listed'⟩
          rw [Directories.leads_cons, step_eq_held entry, first]
          exact (if_pos (.inr inner)).trans reached
    · cases later

/-- What was there before is visible as before. -/
theorem Replaced.visible_old (replaced : Replaced fs fs' dir d address) {res : Option Nat}
    (old : res ≠ some address) : visible fs' res = visible fs res := by
  cases res with
  | none => rfl
  | some r =>
    have type : fs'.directories.type r = fs.directories.type r :=
      replaced.types r fun same => old (congrArg some same)
    unfold visible Directories.filtered
    rw [Option.filter_some, Option.filter_some, type]

namespace Replaced

variable (replaced : Replaced fs fs' dir d address) (tree : DirectoryTree fs rootDir)
  (new : New fs address) (away : dir ≠ address) (listed : d ∈ fs.content dir)
include replaced tree new away listed

/-- A walk that does not come by the directory goes where it went. -/
theorem leads_beside (plain : fs.type r = cDirectory) (other : r ≠ address)
    (beside : ∀ front rest, cs = front ++ rest → fs.directories.leads r front ≠ some d) :
    fs'.directories.leads r cs = fs.directories.leads r cs := by
  refine Directories.leads_congr
    (fun r cs => fs.type r = cDirectory ∧ r ≠ address ∧
      ∀ front rest, cs = front ++ rest → fs.directories.leads r front ≠ some d)
    ?_ ?_ ?_ ⟨plain, other, beside⟩
  · rintro r c cs ⟨plain, other, beside⟩
    by_cases dotted : c = [dot]
    · rw [Directories.step, Directories.step, if_pos dotted, if_pos dotted]
    · rw [step_eq_held dotted, step_eq_held dotted]
      by_cases here : r = dir
      · subst here
        refine replaced.held_parent new (tree.leaf plain) other listed fun found => ?_
        refine beside [c] cs rfl ?_
        rw [Directories.leads_single, step_eq_held dotted, found]
      · exact replaced.held_other new (tree.leaf plain) other here c
  · rintro r c cs r' ⟨plain, other, -⟩ found
    refine replaced.types r' ?_
    rcases step_cases tree plain found with ⟨-, rfl⟩ | ⟨-, listed⟩
    · exact other
    · exact fun same => new.unlisted r (same ▸ listed)
  · rintro r c cs r' ⟨plain, other, beside⟩ found type
    refine ⟨type, ?_, fun front rest split reached => ?_⟩
    · rcases step_cases tree plain found with ⟨-, rfl⟩ | ⟨-, listed⟩
      · exact other
      · exact fun same => new.unlisted r (same ▸ listed)
    · refine beside (c :: front) rest (by rw [split]; rfl) ?_
      rw [Directories.leads_cons, found]
      exact (if_pos (.inr type)).trans reached

omit away listed in
/-- Below the parent everything leads where it led. -/
theorem leads_deep {depth : Nat → Nat}
    (deeper : ∀ dir res, res ∈ fs.content dir → depth dir < depth res)
    (plain : fs.type r = cDirectory) (below : depth dir < depth r) (other : r ≠ address) :
    fs'.directories.leads r cs = fs.directories.leads r cs := by
  have onto {r r' : Nat} {c : List Letter} (plain : fs.type r = cDirectory) (other : r ≠ address)
      (below : depth dir < depth r) (found : fs.directories.step r c = some r') :
      r' ≠ address ∧ depth dir < depth r' := by
    rcases step_cases tree plain found with ⟨-, rfl⟩ | ⟨-, listed⟩
    · exact ⟨other, below⟩
    · exact ⟨fun same => new.unlisted r (same ▸ listed), below.trans (deeper r r' listed)⟩
  refine Directories.leads_congr
    (fun r _ => fs.type r = cDirectory ∧ r ≠ address ∧ depth dir < depth r) ?_ ?_ ?_
    ⟨plain, other, below⟩
  · rintro r c cs ⟨plain, other, below⟩
    by_cases dotted : c = [dot]
    · rw [Directories.step, Directories.step, if_pos dotted, if_pos dotted]
    · rw [step_eq_held dotted, step_eq_held dotted]
      refine replaced.held_other new (tree.leaf plain) other ?_ c
      rintro rfl
      exact Nat.lt_irrefl _ below
  · rintro r c cs r' ⟨plain, other, below⟩ found
    exact replaced.types r' (onto plain other below found).1
  · rintro r c cs r' ⟨plain, other, below⟩ found type
    exact ⟨type, onto plain other below found⟩

/-- The way to the parent leads where it led. -/
theorem leads_parent (root : fs.type fs.root = cDirectory) (d_plain : fs.type d = cDirectory)
    (old : fs.root ≠ address) (start : fs.directories.leads fs.root cs = some dir) :
    fs'.directories.leads fs.root cs = some dir := by
  obtain ⟨depth, deeper⟩ := tree.acyclic
  have above := deeper dir d listed
  rw [replaced.leads_beside tree new away listed root old, start]
  rintro front rest rfl reached
  cases rest with
  | nil =>
    rw [List.append_nil, reached] at start
    cases start
    exact Nat.lt_irrefl _ above
  | cons c rest =>
    rw [Directories.leads_append, reached] at start
    have later : fs.directories.leads d (c :: rest) = some dir := by
      simpa [show fs.directories.type d = cDirectory from d_plain] using start
    rcases leads_deeper tree deeper d_plain later with ⟨rfl, -⟩ | below
    · exact Nat.lt_irrefl _ above
    · exact Nat.lt_asymm above below

omit away listed in
/-- An entry in the place of the directory shows what it holds. -/
theorem leads_entry_left {e : Nat} {dots : List (List Letter)} (member : e ∈ left fs dir d)
    (plain : fs.type e = cDirectory) (all : ∀ c ∈ dots, c = [dot]) (entry : x ≠ [dot]) :
    visible fs' (fs'.directories.leads e (dots ++ x :: rest)) =
      visible fs (onward fs rest (held fs e x)) := by
  obtain ⟨depth, deeper⟩ := tree.acyclic
  have inside := left_subset member
  have other : e ≠ address := fun same => new.unlisted dir (same ▸ inside)
  rw [replaced.leads_deep tree new deeper plain (deeper dir e inside) other,
    leads_dots (t := fs.directories) plain all, replaced.visible_old, leads_entry entry]
  exact fun found => leads_ne_new tree new plain other found rfl

/-- Behind the directory the lookup goes on in what is found in its place. -/
theorem leads_replaced (root : fs.type fs.root = cDirectory) (d_plain : fs.type d = cDirectory)
    (old : fs.root ≠ address) (different : d ≠ fs.root) (found_ : reached fs cs = some d)
    (entry : x ≠ [dot]) :
    visible fs' (reached fs' (cs ++ x :: rest)) =
      visible fs (onward fs rest (shown fs dir d x)) := by
  obtain ⟨front, c, dots, parent, rfl, all, named, start, plain, found, inside⟩ :=
    leads_to tree root found_ different
  obtain rfl := tree.single parent dir d inside listed
  have start' := replaced.leads_parent tree new away listed root d_plain old start
  have plain' : fs'.directories.type parent = cDirectory :=
    (replaced.types parent away).trans plain
  have place : fs'.directories.step parent c =
      some (((left fs parent d).find? fun r => fs.name r = fs.name d).getD address) :=
    (step_eq_held named).trans (replaced.held_place new (tree.leaf plain) away found)
  have walk : reached fs' ((front ++ c :: dots) ++ x :: rest) =
      fs'.directories.leads parent (c :: (dots ++ x :: rest)) := by
    unfold reached
    rw [replaced.root, List.append_assoc, List.cons_append, Directories.leads_append, start']
    exact if_pos (.inr plain')
  have more : dots ++ x :: rest ≠ [] := by simp
  rw [walk, Directories.leads_cons, place, Option.bind_some]
  unfold shown
  cases entry_ : (left fs parent d).find? fun r => fs.name r = fs.name d with
  | none =>
    have closed : fs'.directories.type address ≠ cDirectory := by
      change fs'.type address ≠ cDirectory
      rw [replaced.type]
      decide
    rw [Option.getD_none, if_neg (not_or.mpr ⟨more, closed⟩)]
    rfl
  | some e =>
    have member := List.mem_of_find?_eq_some entry_
    have type : fs'.directories.type e = fs.type e :=
      replaced.types e fun same => new.unlisted parent (same ▸ left_subset member)
    rw [Option.getD_some, type, Option.filter_some]
    by_cases open_ : fs.type e = cDirectory
    · rw [if_pos (.inr open_), if_pos (decide_eq_true open_), Option.bind_some]
      exact replaced.leads_entry_left tree new member open_ all entry
    · rw [if_neg (not_or.mpr ⟨more, open_⟩), if_neg (by simpa using open_)]
      rfl

end Replaced

end Below

end Orcos.Source.Files.OverlayLookups
