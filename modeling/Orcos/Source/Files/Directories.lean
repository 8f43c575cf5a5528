import Orcos.Lib.Loop
import Orcos.Source.Files.Directory

/-!
# Looking up a path

Source: src/source/filesystem/SimpleFileManager.cc, `getResourceByNameandType`;
src/source/filesystem/Directory.cc, `get`, `OverlayDirectory::get`.

What a lookup reads: the names and types of the resources, the entries that `get` goes
through in a directory, and the root. Resources are known by their addresses.
-/
namespace Orcos.Source.Files
open Lib.Loop

structure Directories where
  name : Nat → List Letter
  type : Nat → BitVec 32
  entries : Nat → List Nat
  root : Nat

/-- What a lookup returns: the resource and the directory it was looked up in last. -/
structure Lookup where
  resource : Option Nat
  parentDir : Option Nat
  deriving DecidableEq

namespace Directories

variable (t : Directories)

/-- `Directory::get`; the length is passed as a byte. -/
def get (dir : Nat) (pName : List Letter) (nameLen : Nat) : Option Nat :=
  (t.entries dir).find? fun res =>
    (t.name res).length = nameLen % 2 ^ 8 ∧ strncmp pName (t.name res) (t.name res).length = 0

/-- What is found at the end of a path, when its type is asked for. -/
def filtered (typefilter : BitVec 32) (res : Option Nat) : Option Nat :=
  res.filter fun r => t.type r &&& typefilter ≠ 0

/-- A round of the loop over the tokens, with what is left of the path and the directory
to look in. -/
def lookupRound (typefilter : BitVec 32) (s : List Letter × Nat) :
    Round (List Letter × Nat) Lookup :=
  let tokenlen := strpos2 s.1 slash
  match if tokenlen = 1 ∧ s.1.head? = some dot then some s.2 else t.get s.2 s.1 tokenlen with
  | none => .done ⟨none, some s.2⟩
  | some res =>
    let token := skipSlashes (s.1.drop tokenlen)
    if strpos2 token slash = 0 then .done ⟨t.filtered typefilter (some res), some s.2⟩
    else if t.type res ≠ cDirectory then .done ⟨none, some s.2⟩
    else .again (token, res)

variable {t} in
/-- Each round takes a token off the path. -/
theorem lookupRound_shorter {typefilter : BitVec 32} {s s' : List Letter × Nat}
    (more : strpos2 s.1 slash ≠ 0) (step : t.lookupRound typefilter s = .again s') :
    strpos2 s'.1 slash ≠ 0 ∧ s'.1.length < s.1.length := by
  unfold lookupRound at step
  simp only at step
  split at step
  · cases step
  · split at step
    · cases step
    · next later =>
      split at step
      · cases step
      · cases step
        refine ⟨later, ?_⟩
        have shorter : (skipSlashes (s.1.drop (strpos2 s.1 slash))).length ≤
            (s.1.drop (strpos2 s.1 slash)).length := (List.dropWhile_suffix _).length_le
        have inside : strpos2 s.1 slash ≤ s.1.length := (List.takeWhile_prefix _).length_le
        rw [List.length_drop] at shorter
        change (skipSlashes _).length < _
        omega

theorem lookupRound_ends (typefilter : BitVec 32) (token : List Letter) (dir : Nat)
    (more : strpos2 token slash ≠ 0) :
    ∃ r, loop (t.lookupRound typefilter) (token.length + 1) (token, dir) = some r :=
  loop_ends (fun s => s.1.length) (fun _ _ => lookupRound_shorter) more (Nat.lt_succ_self _)

/-- From the directory given, or from the root without one. -/
def getResourceByNameandType (pathname : List Letter) (typefilter : BitVec 32)
    (rootDir : Option Nat) : Lookup :=
  let token := skipSlashes pathname
  let res := rootDir.getD t.root
  if none_ : strpos2 token slash = 0 then ⟨t.filtered typefilter (some res), none⟩
  else (loop (t.lookupRound typefilter) (token.length + 1) (token, res)).get
    (Option.isSome_iff_exists.mpr (t.lookupRound_ends typefilter token res none_))

def getDirectory (dir : List Letter) : Lookup := t.getResourceByNameandType dir cDirectory none

/-- One component: the directory itself for a dot, or the entry found. -/
def step (dir : Nat) (c : List Letter) : Option Nat :=
  if c = [dot] then some dir else t.get dir c c.length

/-- The components one after the other, as far as they are found. -/
def walk : Nat → List (List Letter) → Lookup
  | dir, [] => ⟨some dir, none⟩
  | dir, [c] => ⟨t.step dir c, some dir⟩
  | dir, c :: c' :: cs =>
    match t.step dir c with
    | none => ⟨none, some dir⟩
    | some res => if t.type res ≠ cDirectory then ⟨none, some dir⟩ else walk res (c' :: cs)

variable {t} {dir n : Nat} {token c : List Letter} {typefilter : BitVec 32}

/-- Which entry a comparison accepts. -/
theorem matches_iff (some_ : n ≠ 0) (inside : n ≤ token.length) (name : List Letter) :
    (name.length = n % 2 ^ 8 ∧ strncmp token name name.length = 0) ↔
      name ≠ [] ∧ name = (token.take n).take (n % 2 ^ 8) := by
  cases name with
  | nil =>
    refine iff_of_false (fun both => ?_) (fun both => both.1 rfl)
    have empty := strncmp_nil.mp both.2
    rw [empty] at inside
    exact some_ (Nat.le_zero.mp inside)
  | cons d name =>
    have proper : d :: name ≠ [] := List.cons_ne_nil d name
    have within : n % 2 ^ 8 ≤ n := Nat.mod_le n _
    rw [strncmp_eq_zero_iff proper, List.take_take, Nat.min_eq_left within, and_iff_right proper]
    constructor
    · rintro ⟨length, same⟩
      rw [← length, same]
    · intro same
      have length : (d :: name).length = n % 2 ^ 8 := by
        rw [same, List.length_take]
        omega
      exact ⟨length, by rw [length, ← same]⟩

/-- A name of up to 255 characters is compared as a whole. -/
theorem matches_self_iff (short : c.length ≤ 255) (name : List Letter) :
    (name.length = c.length % 2 ^ 8 ∧ strncmp c name name.length = 0) ↔ name = c := by
  have byte : c.length % 2 ^ 8 = c.length := Nat.mod_eq_of_lt (by omega)
  by_cases empty : c = []
  · subst empty
    constructor
    · exact fun both => List.length_eq_zero_iff.mp both.1
    · intro same
      subst same
      exact ⟨rfl, strncmp_nil.mpr rfl⟩
  · have long : c.length ≠ 0 := fun none_ => empty (List.length_eq_zero_iff.mp none_)
    rw [matches_iff long le_rfl, byte, List.take_length, List.take_length]
    constructor
    · exact fun both => both.2
    · intro same
      exact ⟨same ▸ empty, same⟩

theorem get_self (short : c.length ≤ 255) :
    t.get dir c c.length = (t.entries dir).find? fun res => t.name res = c := by
  unfold get
  refine congrArg (fun p => (t.entries dir).find? p) (funext fun res => ?_)
  rw [decide_eq_decide]
  exact matches_self_iff short _

theorem get_self_eq_none_iff (short : c.length ≤ 255) :
    t.get dir c c.length = none ↔ ∀ res ∈ t.entries dir, t.name res ≠ c := by
  rw [get_self short, List.find?_eq_none]
  simp

/-- The characters behind the token do not count. -/
theorem get_take (some_ : n ≠ 0) (inside : n ≤ token.length) :
    t.get dir token n = t.get dir (token.take n) (token.take n).length := by
  have length : (token.take n).length = n := List.length_take_of_le inside
  have twice : (token.take n).take n = token.take n := by rw [List.take_take, Nat.min_self]
  rw [length]
  unfold get
  refine congrArg (fun p => (t.entries dir).find? p) (funext fun res => ?_)
  rw [decide_eq_decide, matches_iff some_ inside, matches_iff some_ length.ge, twice]

theorem step_token (dir : Nat) (some_ : strpos2 token slash ≠ 0) :
    (if strpos2 token slash = 1 ∧ token.head? = some dot then some dir
      else t.get dir token (strpos2 token slash)) =
      t.step dir (token.take (strpos2 token slash)) := by
  have inside : strpos2 token slash ≤ token.length := (List.takeWhile_prefix _).length_le
  have itself : (strpos2 token slash = 1 ∧ token.head? = some dot) ↔
      token.take (strpos2 token slash) = [dot] := by
    cases token with
    | nil => exact absurd rfl some_
    | cons d token =>
      obtain ⟨n, length⟩ := Nat.exists_eq_succ_of_ne_zero some_
      rw [length] at inside ⊢
      simp only [List.length_cons, Nat.succ_eq_add_one] at inside
      simp only [Nat.succ_eq_add_one, List.take_succ_cons, List.head?_cons, Option.some.injEq,
        List.cons.injEq, List.take_eq_nil_iff]
      constructor
      · rintro ⟨one, rfl⟩
        exact ⟨rfl, .inl (by omega)⟩
      · rintro ⟨rfl, none_ | none_⟩
        · exact ⟨by omega, rfl⟩
        · rw [none_] at inside
          exact ⟨by simpa using inside, rfl⟩
  rw [step, get_take some_ inside]
  by_cases here : token.take (strpos2 token slash) = [dot]
  · rw [if_pos here, if_pos (itself.mpr here)]
  · rw [if_neg here, if_neg fun dotted => here (itself.mp dotted)]

/-- The loop walks along the components. -/
theorem loop_lookupRound (skipped : token.head? ≠ some slash) (more : strpos2 token slash ≠ 0)
    {rounds : Nat} {r : Lookup}
    (ended : loop (t.lookupRound typefilter) rounds (token, dir) = some r) :
    r = ⟨t.filtered typefilter (t.walk dir (components token)).resource,
      (t.walk dir (components token)).parentDir⟩ := by
  induction rounds generalizing token dir with
  | zero => cases ended
  | succ rounds ih =>
    obtain ⟨none_, _⟩ | ⟨_, first⟩ := components_token skipped
    · exact absurd none_ more
    have choice := step_token (t := t) dir more
    cases found : t.step dir (token.take (strpos2 token slash)) with
    | none =>
      have stop : t.lookupRound typefilter (token, dir) = .done ⟨none, some dir⟩ := by
        unfold lookupRound
        simp only [choice, found]
      rw [loop_done stop] at ended
      cases ended
      rw [first]
      cases components (skipSlashes (token.drop (strpos2 token slash))) with
      | nil => simp [walk, found, filtered]
      | cons c' cs => simp [walk, found, filtered]
    | some res =>
      obtain ⟨last, empty⟩ | ⟨rest, second⟩ :=
        components_token (skipSlashes_head (token.drop (strpos2 token slash)))
      · have stop : t.lookupRound typefilter (token, dir) =
            .done ⟨t.filtered typefilter (some res), some dir⟩ := by
          unfold lookupRound
          simp only [choice, found, last, if_true]
        rw [loop_done stop] at ended
        cases ended
        rw [first, empty]
        simp [walk, found]
      · by_cases directory : t.type res = cDirectory
        · have again : t.lookupRound typefilter (token, dir) =
              .again (skipSlashes (token.drop (strpos2 token slash)), res) := by
            unfold lookupRound
            simp only [choice, found, rest, if_false, directory, ne_eq, not_true_eq_false]
          rw [loop_again again] at ended
          have later := ih (skipSlashes_head _) rest ended
          rw [later, first]
          generalize skipSlashes (token.drop (strpos2 token slash)) = token' at second
          rw [second]
          simp [walk, found, directory]
        · have stop : t.lookupRound typefilter (token, dir) = .done ⟨none, some dir⟩ := by
            unfold lookupRound
            simp only [choice, found, rest, if_false, directory, ne_eq, not_false_eq_true, if_true]
          rw [loop_done stop] at ended
          cases ended
          rw [first]
          generalize skipSlashes (token.drop (strpos2 token slash)) = token' at second
          rw [second]
          simp [walk, found, directory, filtered]

/-- The lookup walks along the components of the path and asks for the type at the
end. -/
theorem getResourceByNameandType_eq (pathname : List Letter) (typefilter : BitVec 32)
    (rootDir : Option Nat) :
    t.getResourceByNameandType pathname typefilter rootDir =
      ⟨t.filtered typefilter (t.walk (rootDir.getD t.root) (components pathname)).resource,
        (t.walk (rootDir.getD t.root) (components pathname)).parentDir⟩ := by
  unfold getResourceByNameandType
  rw [← components_skipSlashes pathname]
  simp only
  split
  · next none_ =>
    obtain ⟨_, empty⟩ | ⟨more, _⟩ := components_token (skipSlashes_head pathname)
    · rw [empty, walk]
    · exact absurd none_ more
  · next more =>
    exact loop_lookupRound (skipSlashes_head pathname) more (Option.some_get _).symm

variable (t) in
/-- The resource that components lead to. -/
def leads (dir : Nat) (cs : List (List Letter)) : Option Nat := (t.walk dir cs).resource

@[simp] theorem leads_nil : t.leads dir [] = some dir := rfl

/-- Only a plain directory is looked into behind the first component. -/
theorem leads_cons (dir : Nat) (c : List Letter) (cs : List (List Letter)) :
    t.leads dir (c :: cs) =
      (t.step dir c).bind fun r =>
        if cs = [] ∨ t.type r = cDirectory then t.leads r cs else none := by
  cases cs with
  | nil =>
    simp only [true_or, if_true, leads_nil]
    exact (Option.bind_fun_some _).symm
  | cons c' cs =>
    unfold leads
    rw [walk]
    cases t.step dir c with
    | none => rfl
    | some r => by_cases plain : t.type r = cDirectory <;> simp [plain]

theorem leads_single : t.leads dir [c] = t.step dir c := rfl

theorem leads_append (dir : Nat) (cs : List (List Letter)) (c : List Letter)
    (rest : List (List Letter)) :
    t.leads dir (cs ++ c :: rest) =
      (t.leads dir cs).bind fun r =>
        if cs = [] ∨ t.type r = cDirectory then t.leads r (c :: rest) else none := by
  induction cs generalizing dir with
  | nil => simp
  | cons c' cs ih =>
    rw [List.cons_append, leads_cons, leads_cons]
    cases t.step dir c' with
    | none => rfl
    | some r =>
      simp only [Option.bind_some, List.append_eq_nil_iff, List.cons_ne_nil, and_false, false_or]
      by_cases plain : t.type r = cDirectory
      · simp only [plain, or_true, if_true, ih]
        cases cs with
        | nil => simp [plain]
        | cons c'' cs => simp
      · simp only [plain, if_false, or_false]
        cases cs with
        | nil => simp [plain]
        | cons c'' cs => simp

/-- Components lead to the same resource where the same is found along the way. -/
theorem leads_congr {t' : Directories} (S : Nat → List (List Letter) → Prop)
    (same : ∀ dir c cs, S dir (c :: cs) → t'.step dir c = t.step dir c)
    (types : ∀ dir c cs r, S dir (c :: cs) → t.step dir c = some r → t'.type r = t.type r)
    (stays : ∀ dir c cs r, S dir (c :: cs) → t.step dir c = some r → t.type r = cDirectory →
      S r cs)
    {cs : List (List Letter)} (start : S dir cs) : t'.leads dir cs = t.leads dir cs := by
  induction cs generalizing dir with
  | nil => rfl
  | cons c cs ih =>
    rw [leads_cons, leads_cons, same dir c cs start]
    cases found : t.step dir c with
    | none => rfl
    | some r =>
      simp only [Option.bind_some, types dir c cs r start found]
      by_cases plain : t.type r = cDirectory
      · simp only [plain, or_true, if_true]
        exact ih (stays dir c cs r start found plain)
      · cases cs with
        | nil => simp
        | cons c' cs => simp [plain]

/-- The last component is looked up in the directory that the others lead to. -/
theorem walk_last {cs : List (List Letter)} {r : Nat} (found : (t.walk dir cs).resource = some r) :
    (cs = [] ∧ r = dir ∧ (t.walk dir cs).parentDir = none) ∨
      ∃ front last parentDir, cs = front ++ [last] ∧
        (t.walk dir cs).parentDir = some parentDir ∧ t.leads dir front = some parentDir ∧
        (front = [] ∨ t.type parentDir = cDirectory) ∧ t.step parentDir last = some r := by
  induction cs generalizing dir with
  | nil =>
    cases found
    exact .inl ⟨rfl, rfl, rfl⟩
  | cons c cs ih =>
    refine .inr ?_
    cases cs with
    | nil => exact ⟨[], c, dir, rfl, rfl, rfl, .inl rfl, found⟩
    | cons c' cs =>
      rw [walk] at found ⊢
      cases first : t.step dir c with
      | none =>
        rw [first] at found
        cases found
      | some r' =>
        simp only [first] at found ⊢
        split at found
        · cases found
        · next plain =>
          rw [if_neg plain]
          rcases ih found with ⟨none_, _⟩ |
            ⟨front, last, parentDir, split, parent, reached, type, step⟩
          · cases none_
          · refine ⟨c :: front, last, parentDir, by rw [split]; rfl, parent, ?_, .inr ?_, step⟩
            · rw [leads_cons, first]
              simp only [Option.bind_some, not_not.mp plain, or_true, if_true, reached]
            · rcases type with empty | type
              · subst empty
                cases reached
                exact not_not.mp plain
              · exact type

/-- Under one name entries with one name are found. -/
theorem matches_unique {name name' : List Letter}
    (first : name.length = n % 2 ^ 8 ∧ strncmp token name name.length = 0)
    (second : name'.length = n % 2 ^ 8 ∧ strncmp token name' name'.length = 0) :
    name = name' := by
  have length : name.length = name'.length := first.1.trans second.1.symm
  by_cases empty : name = []
  · subst empty
    exact (List.length_eq_zero_iff.mp length.symm).symm
  · have other : name' ≠ [] := by
      intro none_
      rw [none_] at length
      exact empty (List.length_eq_zero_iff.mp length)
    have one := (strncmp_eq_zero_iff empty).mp first.2
    have two := (strncmp_eq_zero_iff other).mp second.2
    rw [← one, ← two, length]

end Directories

end Orcos.Source.Files
