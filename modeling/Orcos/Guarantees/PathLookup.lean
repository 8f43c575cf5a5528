import Orcos.Source.Files.FileManager

/-!
# Resources by their paths

Source: src/source/filesystem/SimpleFileManager.cc, `getResourceByNameandType`;
src/source/filesystem/Directory.cc, `get`.

Without overlay directories a path of components of up to 255 characters leads to the
resource that its components name one after the other. The length of a longer one is
cut to a byte: it finds an entry that is named by its first characters, and never the
entry that has its name.
-/
namespace Orcos.Guarantees.PathLookup
open Source.Files

variable {t : Tree} {dir : Nat} {c path : List Letter} {cs : List (List Letter)}

def WithoutOverlays (t : Tree) : Prop := ∀ r, t.type r &&& cOverlay = 0

/-- The entry that has the name. -/
def entryNamed (t : Tree) (dir : Nat) (c : List Letter) : Option Nat :=
  (t.entries dir).find? fun res => t.name res = c

/-- The resource that components lead to from a directory on. -/
def reached (t : Tree) : Nat → List (List Letter) → Option Nat
  | dir, [] => some dir
  | dir, c :: cs =>
    if ¬t.IsDirectory dir then none
    else if c = [dot] then reached t dir cs
    else (entryNamed t dir c).bind fun res => reached t res cs

/-- The lookup returns what the components lead to, when it has the type, and nothing
else. -/
def Exact (t : Tree) (path : List Letter) (typefilter : BitVec 32) : Prop :=
  ∀ r, (t.getResourceByNameandType path typefilter none).resource = some r ↔
    reached t t.root (components path) = some r ∧ t.type r &&& typefilter ≠ 0

/-- Without overlays a directory has no other type. -/
theorem type_eq_of_isDirectory (overlays : WithoutOverlays t) :
    t.IsDirectory dir ↔ t.type dir = cDirectory := by
  constructor
  · intro directory
    rcases t.kinds dir directory with plain | overlay
    · exact plain
    · have none_ := overlays dir
      rw [overlay] at none_
      exact absurd none_ (by decide)
  · intro directory
    unfold Tree.IsDirectory
    rw [directory]
    decide

/-- A component of up to 255 characters finds the entry with its name. -/
theorem get_eq_entryNamed (some_ : c ≠ []) (short : c.length ≤ 255) :
    t.get dir c c.length = entryNamed t dir c := by
  have long : c.length ≠ 0 := fun none_ => some_ (List.length_eq_zero_iff.mp none_)
  have byte : c.length % 2 ^ 8 = c.length := Nat.mod_eq_of_lt (by omega)
  unfold Directories.get entryNamed
  refine congrArg (fun p => (t.entries dir).find? p) (funext fun res => ?_)
  rw [decide_eq_decide, Directories.matches_iff long le_rfl, byte, List.take_length,
    List.take_length]
  constructor
  · exact fun both => both.2
  · intro same
    exact ⟨same ▸ some_, same⟩

/-- No entry is found under a longer name of its own. -/
theorem name_of_get {res : Nat} (found : t.get dir c c.length = some res) :
    (t.name res).length ≤ 255 := by
  have accepted := List.find?_some found
  rw [decide_eq_true_eq] at accepted
  have byte : c.length % 2 ^ 8 < 2 ^ 8 := Nat.mod_lt _ (by decide)
  omega

theorem components_ne_nil (member : c ∈ components path) : c ≠ [] := by
  simpa using (List.mem_filter.mp member).2

/-- The walk along short components reaches what they name. -/
theorem walk_eq_reached (overlays : WithoutOverlays t) (directory : t.IsDirectory dir)
    (proper : ∀ c ∈ cs, c ≠ []) (short : ∀ c ∈ cs, c.length ≤ 255) :
    (t.walk dir cs).resource = reached t dir cs := by
  have step_eq (dir : Nat) (c : List Letter) (some_ : c ≠ []) (short : c.length ≤ 255) :
      t.step dir c = if c = [dot] then some dir else entryNamed t dir c := by
    rw [Directories.step, get_eq_entryNamed some_ short]
  induction cs generalizing dir with
  | nil => rfl
  | cons c cs ih =>
    have found := step_eq dir c (proper c (by simp)) (short c (by simp))
    cases cs with
    | nil =>
      simp only [Directories.walk, found, reached, directory, not_true_eq_false, if_false]
      split
      · rfl
      · cases entryNamed t dir c <;> rfl
    | cons c' cs =>
      have later (res : Nat) (inner : t.IsDirectory res) := ih inner
        (fun c member => proper c (by simp [member])) (fun c member => short c (by simp [member]))
      rw [Directories.walk, reached, if_neg (not_not.mpr directory), found]
      by_cases itself : c = [dot]
      · have plain := (type_eq_of_isDirectory overlays).mp directory
        simp only [itself, if_true, plain, ne_eq, not_true_eq_false, if_false]
        exact later dir directory
      · simp only [itself, if_false]
        cases entryNamed t dir c with
        | none => rfl
        | some res =>
          simp only [Option.bind_some]
          by_cases plain : t.type res = cDirectory
          · have inner := (type_eq_of_isDirectory overlays).mpr plain
            rw [if_neg (not_not.mpr plain)]
            exact later res inner
          · have outer : ¬t.IsDirectory res := mt (type_eq_of_isDirectory overlays).mp plain
            rw [if_pos plain, reached, if_pos outer]

theorem exact_of_short (overlays : WithoutOverlays t) (typefilter : BitVec 32)
    (short : ∀ c ∈ components path, c.length ≤ 255) : Exact t path typefilter := by
  intro r
  have same := walk_eq_reached overlays t.rooted (fun c => components_ne_nil) short
  rw [Directories.getResourceByNameandType_eq]
  simp only [Option.getD_none, same, Directories.filtered, Option.filter_eq_some_iff,
    decide_eq_true_eq]

section LongNames

/-- Directories in one another that have the given names. -/
def nested (names : List (List Letter)) : Tree where
  name r := names.getD (r - 1) []
  type _ := cDirectory
  content r := if r < names.length then [r + 1] else []
  entries r := if r < names.length then [r + 1] else []
  root := 0
  typed _ := by decide
  kinds _ _ := .inl rfl
  plain _ _ := rfl
  apart r := by
    split
    · simp
    · simp
  rooted := by decide

variable {names : List (List Letter)} {k : Nat}

theorem isDirectory_nested : (nested names).IsDirectory k := by
  change cDirectory &&& cDirectory ≠ 0
  decide

/-- The names lead to the innermost directory. -/
theorem reached_nested (inside : k ≤ names.length)
    (rest : cs.filter (· ≠ [dot]) = names.drop k) :
    reached (nested names) k cs = some names.length := by
  induction cs generalizing k with
  | nil =>
    have last : names.length ≤ k := List.drop_eq_nil_iff.mp rest.symm
    rw [reached, Nat.le_antisymm inside last]
  | cons c cs ih =>
    rw [reached, if_neg (not_not.mpr isDirectory_nested)]
    by_cases itself : c = [dot]
    · rw [if_pos itself]
      rw [List.filter_cons_of_neg (by simpa using itself)] at rest
      exact ih inside rest
    · rw [List.filter_cons_of_pos (by simpa using itself)] at rest
      have more : k < names.length := by
        by_contra none_
        rw [List.drop_eq_nil_of_le (Nat.le_of_not_lt none_)] at rest
        cases rest
      rw [List.drop_eq_getElem_cons more] at rest
      obtain ⟨here, later⟩ := List.cons.inj rest
      have named : (nested names).name (k + 1) = c := by
        simp [nested, here, more]
      have entry : entryNamed (nested names) k c = some (k + 1) := by
        simp [entryNamed, named, show (nested names).entries k = [k + 1] by simp [nested, more]]
      rw [if_neg itself, entry]
      exact ih more later

/-- A long name ends the walk. -/
theorem walk_nested (rest : cs.filter (· ≠ [dot]) = names.drop k)
    (proper : ∀ c ∈ cs, c ≠ []) (long : ∃ c ∈ cs, 255 < c.length) :
    ((nested names).walk k cs).resource = none := by
  induction cs generalizing k with
  | nil => simp at long
  | cons c cs ih =>
    have found : (nested names).step k c = none ∨ c.length ≤ 255 ∧
        ∃ k', (nested names).step k c = some k' ∧ cs.filter (· ≠ [dot]) = names.drop k' := by
      unfold Directories.step
      by_cases itself : c = [dot]
      · rw [List.filter_cons_of_neg (by simpa using itself)] at rest
        exact .inr ⟨by rw [itself]; decide, k, by rw [if_pos itself], rest⟩
      · rw [List.filter_cons_of_pos (by simpa using itself)] at rest
        rw [if_neg itself]
        cases search : (nested names).get k c c.length with
        | none => exact .inl rfl
        | some res =>
          have more : k < names.length := by
            by_contra none_
            rw [List.drop_eq_nil_of_le (Nat.le_of_not_lt none_)] at rest
            cases rest
          rw [List.drop_eq_getElem_cons more] at rest
          obtain ⟨here, later⟩ := List.cons.inj rest
          have member := List.mem_of_find?_eq_some search
          have only : (nested names).entries k = [k + 1] := by simp [nested, more]
          rw [only, List.mem_singleton] at member
          have named : (nested names).name (k + 1) = c := by simp [nested, here, more]
          have short := name_of_get search
          rw [member, named] at short
          exact .inr ⟨short, k + 1, by rw [member], later⟩
    rcases found with none_ | ⟨short, k', next, later⟩
    · cases cs <;> simp [Directories.walk, none_]
    · have long' : ∃ c ∈ cs, 255 < c.length := by
        obtain ⟨c', member, long⟩ := long
        rcases List.mem_cons.mp member with rfl | behind
        · omega
        · exact ⟨c', behind, long⟩
      cases cs with
      | nil => simp at long'
      | cons c' cs =>
        rw [Directories.walk, next]
        exact ih later (fun c member => proper c (by simp [member])) long'

end LongNames

/-- A path is looked up by the full names in every tree without overlay directories
exactly when none of its components is longer than 255 characters. -/
theorem exact_iff (path : List Letter) :
    (∀ t, WithoutOverlays t → ∀ typefilter, Exact t path typefilter) ↔
      ∀ c ∈ components path, c.length ≤ 255 := by
  constructor
  · intro always
    by_contra some_
    have long : ∃ c ∈ components path, 255 < c.length := by
      push Not at some_
      exact some_
    obtain ⟨names, whole⟩ : ∃ names, names = (components path).filter (· ≠ [dot]) := ⟨_, rfl⟩
    have overlays : WithoutOverlays (nested names) := fun r => by
      change cDirectory &&& cOverlay = 0
      decide
    have last := reached_nested (Nat.zero_le _) (whole.symm.trans List.drop_zero.symm)
    have lost := walk_nested (whole.symm.trans List.drop_zero.symm)
      (fun c => components_ne_nil) long
    have found := (always (nested names) overlays cDirectory names.length).mpr
      ⟨last, by change cDirectory &&& cDirectory ≠ 0; decide⟩
    rw [Directories.getResourceByNameandType_eq] at found
    simp only [Option.getD_none] at found
    rw [show (nested names).root = 0 from rfl, lost] at found
    cases found
  · intro short t overlays typefilter
    exact exact_of_short overlays typefilter short

/-- A directory with one entry, that has the first characters of the name for its
own. -/
theorem get_first_characters {res : Nat} (only : t.entries dir = [res]) (some_ : c ≠ [])
    (named : t.name res ≠ []) (front : t.name res = c.take (c.length % 2 ^ 8)) :
    t.get dir c c.length = some res := by
  have long : c.length ≠ 0 := fun none_ => some_ (List.length_eq_zero_iff.mp none_)
  have accepted := (Directories.matches_iff long le_rfl (t.name res)).mpr
    ⟨named, by rw [List.take_length, front]⟩
  rw [Directories.get, only]
  exact List.find?_cons_of_pos (decide_eq_true accepted)

def letterA : Letter := letter 97

/-- A component of 257 characters finds the entry that is named by its first one. -/
theorem first_character_found : ¬∀ (t : Tree) (path : List Letter) (typefilter : BitVec 32),
    WithoutOverlays t → Exact t path typefilter := by
  intro always
  obtain ⟨c, length, first, plain⟩ : ∃ c : List Letter,
      c.length = 257 ∧ c.take 1 = [letterA] ∧ slash ∉ c :=
    ⟨List.replicate 257 letterA, List.length_replicate, rfl, fun member =>
      absurd (List.eq_of_mem_replicate member) (by decide)⟩
  have some_ : c ≠ [] := fun empty => by
    rw [empty] at length
    cases length
  have other : c ≠ [dot] := fun same => by
    rw [same] at length
    cases length
  have single : components (slash :: c) = [c] :=
    (Lib.Parts.parts_cons_self c).trans (Lib.Parts.parts_single plain some_)
  have accepted : (nested [[letterA]]).get 0 c c.length = some 1 :=
    get_first_characters rfl some_ (List.cons_ne_nil _ _) (by rw [length]; exact first.symm)
  have found : ((nested [[letterA]]).getResourceByNameandType (slash :: c) cDirectory none).resource
      = some 1 := by
    rw [Directories.getResourceByNameandType_eq, single]
    change (nested [[letterA]]).filtered cDirectory ((nested [[letterA]]).step 0 c) = some 1
    rw [Directories.step, if_neg other, accepted]
    rfl
  have overlays : WithoutOverlays (nested [[letterA]]) := fun r => by
    change cDirectory &&& cOverlay = 0
    decide
  have named := ((always (nested [[letterA]]) (slash :: c) cDirectory overlays 1).mp found).1
  rw [single, reached, if_neg (not_not.mpr isDirectory_nested), if_neg other] at named
  have none_ : entryNamed (nested [[letterA]]) 0 c = none := by
    refine List.find?_eq_none.mpr fun res member => ?_
    rw [List.mem_singleton.mp (show res ∈ [1] from member), decide_eq_true_eq]
    intro same
    rw [← same] at length
    cases length
  rw [show (nested [[letterA]]).root = 0 from rfl, none_] at named
  cases named

end Orcos.Guarantees.PathLookup
