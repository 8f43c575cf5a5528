import Orcos.Source.Files.Directory

/-!
# Compacting paths, splitting arguments

Source: src/library/src/static.c, `compactPath`, `extractNextArg`, `parseArgs`;
src/source/inc/stringtools.cc, `strtok`.

A name is left out when the token behind it is "..". The text is put together in a buffer of 100
bytes and copied over the path.

The arguments of a string are counted by putting zeros behind them, and located by looking for
what is not zero.
-/
namespace Orcos.Source.Library
open Lib.Parts Source.Files

def parent : List Letter := [dot, dot]

/-- `strtok` with the delimiter "/": the token at a pointer, and the pointer it leaves in `last`,
where the null pointer is `none`. -/
def strtok : Option (List Letter) → Option (List Letter) × Option (List Letter)
  | none => (none, none)
  | some s =>
    match skipSlashes s with
    | [] => (none, none)
    | c :: tok =>
      match (c :: tok).dropWhile (· ≠ slash) with
      | [] => (some (c :: tok), none)
      | _ :: last => (some ((c :: tok).takeWhile (· ≠ slash)), some last)

/-- The bytes that are left from a pointer on, with the zero. -/
def remaining (last : Option (List Letter)) : Nat := last.elim 0 fun s => s.length + 1

/-- The tokens that are left. -/
def tokens (last : Option (List Letter)) : List (List Letter) := last.elim [] components

theorem strtok_cases (s : List Letter) :
    strtok (some s) = (none, none) ∧ components s = [] ∨
      ∃ token last, strtok (some s) = (some token, last) ∧ components s = token :: tokens last ∧
        token.length + remaining last = (skipSlashes s).length := by
  have skipped := skipSlashes_head s
  rw [← components_skipSlashes]
  cases start : skipSlashes s with
  | nil =>
    left
    exact ⟨by simp [strtok, start], parts_nil⟩
  | cons c tok =>
    right
    rw [start, List.head?_cons, ne_eq, Option.some.injEq] at skipped
    have some_ : (c :: tok).takeWhile (· ≠ slash) ≠ [] := by
      rw [List.takeWhile_cons_of_pos (by simpa using skipped)]
      exact List.cons_ne_nil _ _
    have whole := List.takeWhile_append_dropWhile (p := (· ≠ slash)) (l := c :: tok)
    have pieces := parts_takeWhile some_
    cases rest : (c :: tok).dropWhile (· ≠ slash) with
    | nil =>
      rw [rest, List.append_nil] at whole
      rw [rest, whole, parts_nil] at pieces
      exact ⟨c :: tok, none, by simp only [strtok, start, rest], pieces, rfl⟩
    | cons d last =>
      have here : d = slash := by
        have stop := List.head?_dropWhile_not (· ≠ slash) (c :: tok)
        rw [rest] at stop
        simpa using stop
      refine ⟨(c :: tok).takeWhile (· ≠ slash), some last,
        by simp only [strtok, start, rest], ?_, ?_⟩
      · rw [components, pieces, rest, here, parts_cons_self]
        rfl
      · rw [rest] at whole
        rw [← congrArg List.length whole, List.length_append]
        rfl

theorem length_skipSlashes (s : List Letter) : (skipSlashes s).length ≤ s.length :=
  List.length_dropWhile_le _ _

theorem remaining_strtok {last last' : Option (List Letter)} {token : List Letter}
    (result : strtok last = (some token, last')) :
    token.length + remaining last' < remaining last := by
  cases last with
  | none => cases result
  | some s =>
    have short := length_skipSlashes s
    have all : remaining (some s) = s.length + 1 := rfl
    rcases strtok_cases s with ⟨nothing, _⟩ | ⟨token', last₁, found, _, length⟩
    · rw [nothing] at result
      cases result
    · rw [found] at result
      cases result
      omega

/-- What a call of `compactPath` has done so far: the string in `newpath`, and the offsets that
were written to in `newpath` and in the path. -/
structure Compacting where
  newpath : List Letter
  buffer : List Nat
  written : List Nat

namespace Compacting

/-- `strcat(newpath, src)`; the zero behind the string is written too. -/
def strcat (c : Compacting) (src : List Letter) : Compacting :=
  { c with
    newpath := c.newpath ++ src
    buffer := c.buffer ++ List.range' c.newpath.length (src.length + 1) }

/-- `strtok` has written a zero in front of what `last` points to, in a path of length `n`. -/
def cut (c : Compacting) (n : Nat) (last : Option (List Letter)) : Compacting :=
  { c with written := c.written ++ (last.map fun s => n - remaining (some s)).toList }

/-- The body of the loop behind the second call of `strtok`. -/
def append (c : Compacting) (token : List Letter) (next_token : Option (List Letter)) :
    Compacting :=
  if token ≠ [dot] ∧ ¬next_token = some parent ∧ token ≠ parent then
    let c := c.strcat token
    if next_token ≠ none then c.strcat [slash] else c
  else c

end Compacting

/-- The loop over the tokens of a path of length `n`. -/
def compactLoop (n : Nat) (token : List Letter) (last : Option (List Letter)) (c : Compacting) :
    Compacting :=
  match _next : strtok last with
  | (none, last') => (c.cut n last').append token none
  | (some next_token, last') =>
    compactLoop n next_token last' ((c.cut n last').append token (some next_token))
termination_by remaining last
decreasing_by
  have less := remaining_strtok _next
  omega

/-- The slash of an absolute path. -/
def Compacting.start (path : List Letter) : Compacting :=
  if path.head? = some slash then ⟨[slash], [0, 1], []⟩ else ⟨[], [0], []⟩

/-- The slash at the end of `newpath` is taken off. -/
def Compacting.strip (c : Compacting) : Compacting :=
  if c.newpath.getLast? = some slash then
    { c with newpath := c.newpath.dropLast, buffer := c.buffer ++ [c.newpath.length - 1] }
  else c

/-- The string afterwards, and the offsets that were written to in `newpath` and in the path. -/
def compactPath (path : List Letter) : Compacting :=
  let c :=
    match strtok (some path) with
    | (none, _) => Compacting.start path
    | (some token, last) =>
      compactLoop path.length token last ((Compacting.start path).cut path.length last)
  let pathlen := c.newpath.length
  let c := c.strip
  { c with written := c.written ++ List.range (pathlen + 1) }

variable {n : Nat} {c : Compacting} {token : List Letter} {last : Option (List Letter)}

/-- A component that is neither "." nor "..". -/
def IsName (token : List Letter) : Prop := token ≠ [dot] ∧ token ≠ parent

instance : Decidable (IsName token) := inferInstanceAs (Decidable (_ ∧ _))

/-- The string that the loop puts together. -/
def joined : List (List Letter) → List Letter
  | [] => []
  | [token] => if IsName token then token else []
  | token :: next_token :: rest =>
    (if IsName token ∧ next_token ≠ parent then token ++ [slash] else []) ++
      joined (next_token :: rest)

/-- Only the bytes up to the end of the string were written in `newpath`, and only bytes of a
path of length `n`. -/
structure Compacting.Within (c : Compacting) (n : Nat) : Prop where
  buffer : ∀ i ∈ c.buffer, i ≤ c.newpath.length
  last : c.newpath.length ∈ c.buffer
  written : ∀ i ∈ c.written, i ≤ n

theorem Compacting.Within.strcat (within : c.Within n) (src : List Letter) :
    (c.strcat src).Within n where
  buffer i member := by
    rw [Compacting.strcat, List.length_append]
    rcases List.mem_append.mp member with old | new
    · have := within.buffer i old
      omega
    · have := List.mem_range'_1.mp new
      omega
  last := by
    rw [Compacting.strcat]
    apply List.mem_append_right
    rw [List.length_append, List.mem_range'_1]
    omega
  written := within.written

theorem Compacting.Within.cut (within : c.Within n) : (c.cut n last).Within n where
  buffer := within.buffer
  last := within.last
  written i member := by
    rcases List.mem_append.mp member with old | new
    · exact within.written i old
    · cases last with
      | none => cases new
      | some s =>
        obtain rfl := List.mem_singleton.mp new
        exact Nat.sub_le _ _

theorem Compacting.Within.append (within : c.Within n) (next_token : Option (List Letter)) :
    (c.append token next_token).Within n := by
  rw [Compacting.append]
  split
  · split
    · exact (within.strcat token).strcat [slash]
    · exact within.strcat token
  · exact within

theorem newpath_append_none (c : Compacting) (token : List Letter) :
    (c.append token none).newpath = c.newpath ++ joined [token] := by
  rw [Compacting.append, joined]
  by_cases name : IsName token
  · rw [if_pos name, if_pos ⟨name.1, by simp, name.2⟩]
    rfl
  · rw [if_neg name, if_neg fun all => name ⟨all.1, all.2.2⟩, List.append_nil]

theorem newpath_append_some (c : Compacting) (token next_token : List Letter) :
    (c.append token (some next_token)).newpath =
      c.newpath ++ if IsName token ∧ next_token ≠ parent then token ++ [slash] else [] := by
  rw [Compacting.append]
  by_cases name : IsName token ∧ next_token ≠ parent
  · rw [if_pos name, if_pos ⟨name.1.1, fun same => name.2 (Option.some.inj same), name.1.2⟩]
    exact List.append_assoc _ _ _
  · rw [if_neg name, if_neg, List.append_nil]
    intro all
    exact name ⟨⟨all.1, all.2.2⟩, fun same => all.2.1 (congrArg some same)⟩

/-- The loop appends the tokens that are kept, in at most as many bytes as they take in the
path. -/
theorem compactLoop_spec (token : List Letter) (last : Option (List Letter)) (c : Compacting)
    (within : c.Within n)
    (room : c.newpath.length + token.length + remaining last ≤ n) :
    (compactLoop n token last c).newpath = c.newpath ++ joined (token :: tokens last) ∧
      (compactLoop n token last c).Within n ∧ (compactLoop n token last c).newpath.length ≤ n := by
  induction size : remaining last using Nat.strong_induction_on generalizing token last c with
  | _ k ih =>
    subst size
    rw [compactLoop]
    split
    · next last' next =>
      have none_ : tokens last = [] := by
        cases last with
        | none => rfl
        | some s =>
          rcases strtok_cases s with ⟨_, empty⟩ | ⟨token', last₁, found, _⟩
          · exact empty
          · rw [found] at next
            cases next
      have text := newpath_append_none (c.cut n last') token
      refine ⟨by rw [text, none_]; rfl, within.cut.append none, ?_⟩
      rw [text, joined, List.length_append]
      change c.newpath.length + _ ≤ n
      split
      · omega
      · rw [List.length_nil]
        omega
    · next next_token last' next =>
      have less := remaining_strtok next
      have text := newpath_append_some (c.cut n last') token next_token
      have there : tokens last = next_token :: tokens last' := by
        cases last with
        | none => cases next
        | some s =>
          rcases strtok_cases s with ⟨nothing, _⟩ | ⟨token', last₁, found, pieces, _⟩
          · rw [nothing] at next
            cases next
          · rw [found] at next
            cases next
            exact pieces
      have length : ((c.cut n last').append token (some next_token)).newpath.length ≤
          c.newpath.length + token.length + 1 := by
        rw [text, List.length_append]
        change c.newpath.length + _ ≤ _
        split
        · rw [List.length_append, List.length_singleton]
          omega
        · rw [List.length_nil]
          omega
      obtain ⟨result, within', length'⟩ := ih _ (by omega) next_token last'
        ((c.cut n last').append token (some next_token)) (within.cut.append (some next_token))
        (by omega) rfl
      refine ⟨?_, within', length'⟩
      rw [result, text, there, joined, List.append_assoc]
      rfl

theorem Compacting.start_within (path : List Letter) : (Compacting.start path).Within n := by
  rw [Compacting.start]
  split
  · exact ⟨by decide, by decide, fun i member => by cases member⟩
  · exact ⟨by decide, by decide, fun i member => by cases member⟩

/-- What the last steps copy to the path is the text without a slash at its end. -/
theorem compactPath_spec (path : List Letter) :
    ∃ text, text = (Compacting.start path).newpath ++ joined (components path) ∧
      (compactPath path).newpath =
        (if text.getLast? = some slash then text.dropLast else text) ∧
      (∀ i ∈ (compactPath path).written, i ≤ path.length) ∧
      ((∀ i ∈ (compactPath path).buffer, i < 100) ↔ text.length < 100) := by
  have short := length_skipSlashes path
  have opened : (Compacting.start path).newpath.length + (skipSlashes path).length ≤
    path.length := by
    rw [Compacting.start]
    split
    · next absolute =>
      obtain ⟨s, rfl⟩ := List.head?_eq_some_iff.mp absolute
      have shorter := length_skipSlashes s
      rw [skipSlashes] at shorter
      rw [skipSlashes, List.dropWhile_cons_of_pos (by simp)]
      simp only [List.length_cons, List.length_nil]
      omega
    · rw [List.length_nil]
      omega
  obtain ⟨c, result, text, within, length⟩ : ∃ c : Compacting, compactPath path =
      { c.strip with written := c.strip.written ++ List.range (c.newpath.length + 1) } ∧
        c.newpath = (Compacting.start path).newpath ++ joined (components path) ∧
        c.Within path.length ∧ c.newpath.length ≤ path.length := by
    rcases strtok_cases path with ⟨nothing, empty⟩ | ⟨token, last, found, pieces, length⟩
    · refine ⟨Compacting.start path, by rw [compactPath, nothing], ?_,
        Compacting.start_within path, by omega⟩
      rw [empty, joined, List.append_nil]
    · obtain ⟨text, within, short⟩ := compactLoop_spec token last
        ((Compacting.start path).cut path.length last) (Compacting.start_within path).cut
        (by change (Compacting.start path).newpath.length + _ + _ ≤ _; omega)
      refine ⟨_, by rw [compactPath, found], ?_, within, short⟩
      rw [text, pieces]
      rfl
  refine ⟨c.newpath, text, ?_, ?_, ?_⟩
  · rw [result, Compacting.strip]
    split <;> rfl
  · intro i member
    rw [result] at member
    rcases List.mem_append.mp member with old | new
    · apply within.written i
      rw [Compacting.strip] at old
      split at old <;> exact old
    · have := List.mem_range.mp new
      omega
  · rw [result, Compacting.strip]
    constructor
    · intro all
      apply all
      split
      · exact List.mem_append_left _ within.last
      · exact within.last
    · intro less i member
      split at member
      · rcases List.mem_append.mp member with old | new
        · exact Nat.lt_of_le_of_lt (within.buffer i old) less
        · have := List.mem_singleton.mp new
          omega
      · exact Nat.lt_of_le_of_lt (within.buffer i member) less

def blank : Letter := ⟨32, by decide⟩
def quote : Letter := ⟨34, by decide⟩

/-- What `extractNextArg` leaves: the argument as an offset from where `*str` pointed to, with
`none` for the null pointer, the bytes that `*str` went over as they are now, and the string it
points to. -/
structure Extracted where
  arg : Option Nat
  passed : List Byte
  str : List Letter

def zeros (n : Nat) : List Byte := List.replicate n 0

/-- The codes of the characters. -/
def codes (s : List Letter) : List Byte := s.map Subtype.val

def extractNextArg (str : List Letter) : Extracted :=
  if str = [] then ⟨none, [], []⟩
  else
    -- leading blanks are overwritten
    let blanks := (str.takeWhile (· = blank)).length
    match str.dropWhile (· = blank) with
    | [] => ⟨none, zeros blanks, []⟩
    | c :: rest =>
      if c = quote then
        match rest.dropWhile (· ≠ quote) with
        | [] => ⟨none, zeros blanks ++ [0], rest⟩
        | _ :: next =>
          ⟨some (blanks + 1),
            zeros blanks ++ [0] ++ codes (rest.takeWhile (· ≠ quote)) ++ [0], next⟩
      else
        match (c :: rest).dropWhile (· ≠ blank) with
        | [] => ⟨some blanks, zeros blanks ++ codes (c :: rest), []⟩
        | _ :: next =>
          ⟨some blanks, zeros blanks ++ codes ((c :: rest).takeWhile (· ≠ blank)) ++ [0], next⟩

/-- The arguments of a string: words separated by blanks, and quoted texts. A quote without
another one behind it ends them. -/
def nextArgument (str : List Letter) : Option (List Letter × List Letter) :=
  match str.dropWhile (· = blank) with
  | [] => none
  | c :: rest =>
    if c = quote then
      match rest.dropWhile (· ≠ quote) with
      | [] => none
      | _ :: next => some (rest.takeWhile (· ≠ quote), next)
    else some ((c :: rest).takeWhile (· ≠ blank), ((c :: rest).dropWhile (· ≠ blank)).tail)

variable {str rest word : List Letter}

theorem nextArgument_shorter (result : nextArgument str = some (word, rest)) :
    rest.length < str.length := by
  have short := List.length_dropWhile_le (· = blank) str
  rw [nextArgument] at result
  split at result
  · cases result
  · next c later start =>
    rw [start, List.length_cons] at short
    split at result
    · split at result
      · cases result
      · next d next behind =>
        have shorter := List.length_dropWhile_le (· ≠ quote) later
        rw [behind, List.length_cons] at shorter
        cases result
        omega
    · next other =>
      cases result
      have shorter := List.length_dropWhile_le (· ≠ blank) (c :: later)
      rw [List.length_tail]
      rw [List.length_cons] at shorter
      omega

/-- The call finds the next argument of the string: behind zeros, and with a zero behind it or at
the end. Without one, it leaves the rest of the string. -/
theorem extractNextArg_cases (str : List Letter) :
    (nextArgument str = none ∧ (extractNextArg str).arg = none) ∨
    ∃ word rest blanks tail, nextArgument str = some (word, rest) ∧
      extractNextArg str = ⟨some blanks, zeros blanks ++ codes word ++ tail, rest⟩ ∧
      (tail = [0] ∨ tail = [] ∧ rest = []) := by
  by_cases some_ : str = []
  · subst some_
    exact .inl ⟨rfl, rfl⟩
  · rw [extractNextArg, if_neg some_, nextArgument]
    cases start : str.dropWhile (· = blank) with
    | nil => exact .inl ⟨rfl, rfl⟩
    | cons c later =>
      simp only
      by_cases quoted : c = quote
      · rw [if_pos quoted, if_pos quoted]
        cases behind : later.dropWhile (· ≠ quote) with
        | nil => exact .inl ⟨rfl, rfl⟩
        | cons d next =>
          refine .inr ⟨_, _, (str.takeWhile (· = blank)).length + 1, [0], rfl, ?_, .inl rfl⟩
          rw [zeros, zeros, List.replicate_succ']
      · rw [if_neg quoted, if_neg quoted]
        cases behind : (c :: later).dropWhile (· ≠ blank) with
        | nil =>
          have whole := List.takeWhile_append_dropWhile (p := (· ≠ blank)) (l := c :: later)
          rw [behind, List.append_nil] at whole
          refine .inr ⟨_, _, (str.takeWhile (· = blank)).length, [], rfl, ?_, .inr ⟨rfl, rfl⟩⟩
          simp only [whole, List.append_nil, List.tail_nil]
        | cons d next => exact .inr ⟨_, _, _, [0], rfl, rfl, .inl rfl⟩

theorem extractNextArg_shorter {arg : Nat} (found : (extractNextArg str).arg = some arg) :
    (extractNextArg str).str.length < str.length := by
  rcases extractNextArg_cases str with ⟨_, none_⟩ | ⟨word, rest, blanks, tail, next, result, _⟩
  · rw [none_] at found
    cases found
  · rw [result]
    exact nextArgument_shorter next

/-- The first loop of `parseArgs`: the arguments as offsets, from a pointer with offset `pos` on,
and the bytes that are there afterwards, with the zero at the end. -/
def extractArgs (pos : Nat) (str : List Letter) : List Nat × List Byte :=
  match found : (extractNextArg str).arg with
  | none => ([], (extractNextArg str).passed ++ codes (extractNextArg str).str ++ [0])
  | some arg =>
    let passed := (extractNextArg str).passed
    let later := extractArgs (pos + passed.length) (extractNextArg str).str
    ((pos + arg) :: later.1, passed ++ later.2)
termination_by str.length
decreasing_by exact extractNextArg_shorter found

/-- The last loop of `parseArgs`, from `pos` on with the bytes there. It has no result if it
reads behind the zero at the end. -/
def locateArgs : Nat → Nat → List Byte → Option (List Nat)
  | 0, _, _ => some []
  | arg_count + 1, pos, bytes =>
    let start := pos + (bytes.takeWhile (· = 0)).length
    match bytes.dropWhile (· = 0) with
    | [] => none
    | c :: rest => do
      let stop := start + ((c :: rest).takeWhile (· ≠ 0)).length
      let later ← locateArgs arg_count stop ((c :: rest).dropWhile (· ≠ 0))
      some (start :: later)

/-- What `parseArgs` leaves: the number of arguments, the array, with `none` for the null pointer,
and the bytes of the string. -/
structure Parsed where
  arg_count : Nat
  argv : List (Option Nat)
  bytes : List Byte

def parseArgs (str : List Letter) : Option Parsed := do
  let (args, bytes) := extractArgs 0 str
  let located ← locateArgs args.length 0 bytes
  some ⟨args.length, located.map some ++ [none], bytes⟩

/-- The arguments of a string. -/
def arguments (str : List Letter) : List (List Letter) :=
  match _found : nextArgument str with
  | none => []
  | some (word, rest) => word :: arguments rest
termination_by str.length
decreasing_by exact nextArgument_shorter _found

end Orcos.Source.Library
