import Orcos.Source.Library.Static

/-!
# Argument vectors

Source: src/library/src/static.c, `extractNextArg`, `parseArgs`.

An empty quoted text is counted and cannot be located, so that the search goes on behind it.
-/
namespace Orcos.Guarantees.ArgumentVectors
open Source.Files Source.Library

variable {str rest word : List Letter}

/-- The text that a pointer points to. -/
def textAt (bytes : List Byte) (offset : Nat) : List Byte :=
  (bytes.drop offset).takeWhile (· ≠ 0)

theorem codes_ne {s : List Letter} : ∀ b ∈ codes s, b ≠ 0 := by
  intro b member
  obtain ⟨c, _, rfl⟩ := List.mem_map.1 member
  exact c.2

theorem zeros_append (n k : Nat) : zeros n ++ zeros k = zeros (n + k) :=
  List.replicate_append_replicate

theorem takeWhile_zeros {bytes : List Byte} (n : Nat) (stop : bytes.head? ≠ some 0) :
    (zeros n ++ bytes).takeWhile (· = 0) = zeros n ∧
    (zeros n ++ bytes).dropWhile (· = 0) = bytes := by
  have all : ∀ b ∈ zeros n, decide (b = 0) = true := fun b member =>
    decide_eq_true (List.eq_of_mem_replicate member)
  rw [List.takeWhile_append_of_pos all, List.dropWhile_append_of_pos all]
  cases bytes with
  | nil => exact ⟨List.append_nil _, rfl⟩
  | cons b rest =>
    have other : b ≠ 0 := by simpa using stop
    simpa using other

theorem takeWhile_codes (word : List Letter) (later : List Byte) :
    (codes word ++ 0 :: later).takeWhile (· ≠ 0) = codes word ∧
      (codes word ++ 0 :: later).dropWhile (· ≠ 0) = 0 :: later := by
  have all : ∀ b ∈ codes word, decide (b ≠ 0) = true := fun b member =>
    decide_eq_true (codes_ne b member)
  rw [List.takeWhile_append_of_pos all, List.dropWhile_append_of_pos all,
    List.takeWhile_cons_of_neg (by decide), List.dropWhile_cons_of_neg (by decide)]
  exact ⟨List.append_nil _, rfl⟩

/-- Behind zeros, a word with a zero behind it is located if it has a character. -/
theorem locateArgs_word (arg_count pos n : Nat) (some_ : word ≠ []) (later : List Byte) :
    locateArgs (arg_count + 1) pos (zeros n ++ (codes word ++ 0 :: later)) =
      (locateArgs arg_count (pos + n + word.length) (0 :: later)).map (List.cons (pos + n)) := by
  obtain ⟨c, tail, rfl⟩ := List.exists_cons_of_ne_nil some_
  have stop : (codes (c :: tail) ++ 0 :: later).head? ≠ some 0 := fun first =>
    c.2 (Option.some.inj first)
  obtain ⟨skipped, rest⟩ := takeWhile_zeros n stop
  obtain ⟨text, behind⟩ := takeWhile_codes (c :: tail) later
  have start : codes (c :: tail) ++ 0 :: later = c.1 :: (codes tail ++ 0 :: later) := rfl
  rw [locateArgs, skipped, rest, start]
  simp only
  rw [← start, text, behind, zeros, List.length_replicate, codes, List.length_map]
  cases locateArgs arg_count (pos + n + (c :: tail).length) (0 :: later) <;> rfl

theorem textAt_append {before : List Byte} {pos : Nat} (length : before.length = pos)
    (bytes : List Byte) : textAt (before ++ bytes) pos = bytes.takeWhile (· ≠ 0) := by
  rw [textAt, ← length, List.drop_left]

/-- What is located has a text. -/
theorem locateArgs_some {arg_count pos : Nat} (before : List Byte) {bytes : List Byte}
    {located : List Nat} (length : before.length = pos)
    (result : locateArgs arg_count pos bytes = some located) :
    ∀ offset ∈ located, textAt (before ++ bytes) offset ≠ [] := by
  induction arg_count generalizing pos before bytes located with
  | zero =>
    cases result
    simp
  | succ arg_count ih =>
    rw [locateArgs] at result
    have whole := List.takeWhile_append_dropWhile (p := (· = 0)) (l := bytes)
    have stop := List.head?_dropWhile_not (· = 0) bytes
    cases start : bytes.dropWhile (· = 0) with
    | nil =>
      rw [start] at result
      cases result
    | cons c rest =>
      rw [start] at result whole stop
      have first : c ≠ 0 := by simpa using stop
      obtain ⟨later, found, all⟩ := Option.bind_eq_some_iff.1 result
      cases all
      have skipped : (before ++ bytes.takeWhile (· = 0)).length =
          pos + (bytes.takeWhile (· = 0)).length := by
        rw [List.length_append, length]
      have split_ := List.takeWhile_append_dropWhile (p := (· ≠ 0)) (l := c :: rest)
      have behind := ih (before ++ bytes.takeWhile (· = 0) ++ (c :: rest).takeWhile (· ≠ 0))
        (by rw [List.length_append, skipped]) found
      rw [List.append_assoc, split_, List.append_assoc, whole] at behind
      intro offset member
      rcases List.mem_cons.1 member with here | member
      · have same : before ++ bytes = before ++ bytes.takeWhile (· = 0) ++ (c :: rest) := by
          rw [List.append_assoc, whole]
        rw [here, same, textAt_append skipped, List.takeWhile_cons_of_pos (by simpa using first)]
        exact List.cons_ne_nil _ _
      · exact behind offset member

theorem extractArgs_none {pos : Nat} (nothing : nextArgument str = none) :
    (extractArgs pos str).1 = [] := by
  rcases extractNextArg_cases str with ⟨_, none_⟩ | ⟨_, _, _, _, next, _⟩
  · rw [extractArgs]
    split
    · rfl
    · next found => rw [none_] at found; cases found
  · rw [nothing] at next
    cases next

theorem extractArgs_some {pos blanks : Nat} {tail : List Byte}
    (result : extractNextArg str = ⟨some blanks, zeros blanks ++ codes word ++ tail, rest⟩) :
    extractArgs pos str =
      ((pos + blanks) :: (extractArgs (pos + (blanks + word.length + tail.length)) rest).1,
        zeros blanks ++ codes word ++ tail ++
          (extractArgs (pos + (blanks + word.length + tail.length)) rest).2) := by
  rw [extractArgs]
  split
  · next found => rw [result] at found; cases found
  · next arg found =>
    rw [result] at found
    cases found
    simp only [result, List.length_append, zeros, List.length_replicate, codes, List.length_map]

theorem arguments_none (nothing : nextArgument str = none) : arguments str = [] := by
  rw [arguments]
  split
  · rfl
  · next found => rw [nothing] at found; cases found

theorem arguments_some (next : nextArgument str = some (word, rest)) :
    arguments str = word :: arguments rest := by
  rw [arguments]
  split
  · next found => rw [next] at found; cases found
  · next found =>
    rw [next] at found
    cases found
    rfl

theorem extractArgs_nil (pos : Nat) : extractArgs pos [] = ([], [0]) := by
  rw [extractArgs]
  rfl

/-- An argument that was found has a zero behind it. -/
theorem zero_behind {tail : List Byte} (ends : tail = [0] ∨ tail = [] ∧ rest = []) (pos : Nat) :
    ∃ later, tail ++ (extractArgs pos rest).2 = 0 :: later := by
  rcases ends with one | ⟨none_, finished⟩
  · exact ⟨_, by rw [one]; rfl⟩
  · exact ⟨[], by rw [none_, finished, extractArgs_nil]; rfl⟩

/-- The first pass meets the arguments of the string. -/
theorem extractArgs_texts (before : List Byte) {pos : Nat} (length : before.length = pos)
    (str : List Letter) :
    (extractArgs pos str).1.map (textAt (before ++ (extractArgs pos str).2)) =
      (arguments str).map codes := by
  induction str using arguments.induct generalizing before pos with
  | case1 str nothing => rw [extractArgs_none nothing, arguments_none nothing]; rfl
  | case2 str word rest next ih =>
    rcases extractNextArg_cases str with ⟨none_, _⟩ | ⟨_, _, blanks, tail, next', result, ends⟩
    · rw [next] at none_
      cases none_
    · rw [next] at next'
      cases next'
      obtain ⟨later, zero⟩ := zero_behind ends (pos + (blanks + word.length + tail.length))
      have total : (before ++ (zeros blanks ++ codes word ++ tail)).length =
          pos + (blanks + word.length + tail.length) := by
        simp only [length, zeros, codes, List.length_append, List.length_replicate, List.length_map]
      have behind := ih _ total
      have skipped : (before ++ zeros blanks).length = pos + blanks := by simp [length, zeros]
      rw [extractArgs_some result, arguments_some next, List.map_cons, List.map_cons,
        ← List.append_assoc, behind]
      congr 1
      rw [← List.append_assoc, ← List.append_assoc, List.append_assoc _ tail, zero,
        List.append_assoc _ (codes word), textAt_append skipped]
      exact (takeWhile_codes word later).1

/-- If no argument is empty, the second pass finds what the first one has met. -/
theorem locateArgs_extractArgs (some_ : ∀ arg ∈ arguments str, arg ≠ []) (pos n : Nat) :
    locateArgs (extractArgs (pos + n) str).1.length pos (zeros n ++ (extractArgs (pos + n) str).2) =
      some (extractArgs (pos + n) str).1 := by
  induction str using arguments.induct generalizing pos n with
  | case1 str nothing => rw [extractArgs_none nothing]; rfl
  | case2 str word rest next ih =>
    rcases extractNextArg_cases str with ⟨none_, _⟩ | ⟨_, _, blanks, tail, next', result, ends⟩
    · rw [next] at none_
      cases none_
    · rw [next] at next'
      cases next'
      rw [arguments_some next, List.forall_mem_cons] at some_
      obtain ⟨later, zero⟩ := zero_behind ends (pos + n + (blanks + word.length + tail.length))
      have words := locateArgs_word
        (extractArgs (pos + n + (blanks + word.length + tail.length)) rest).1.length pos
        (n + blanks) some_.1 later
      have behind := ih some_.2 (pos + (n + blanks) + word.length) tail.length
      rw [extractArgs_some result]
      have same : zeros n ++ (zeros blanks ++ codes word ++ tail ++
          (extractArgs (pos + n + (blanks + word.length + tail.length)) rest).2) =
          zeros (n + blanks) ++ (codes word ++ 0 :: later) := by
        rw [← zero, ← zeros_append]
        simp only [List.append_assoc]
      have tails : zeros tail.length = tail := by
        rcases ends with one | ⟨none_, _⟩
        · rw [one]; rfl
        · rw [none_]; rfl
      have there : pos + (n + blanks) + word.length + tail.length =
          pos + n + (blanks + word.length + tail.length) := by omega
      rw [there, tails, zero] at behind
      rw [same, List.length_cons, words, behind, Nat.add_assoc pos n blanks]
      rfl

/-- The array has the arguments that `extractNextArg` delivers, their texts are those of the
string, and nothing behind the end is read. -/
def Right (str : List Letter) : Prop :=
  ∃ parsed, parseArgs str = some parsed ∧
    parsed.argv = (extractArgs 0 str).1.map some ++ [none] ∧
    parsed.arg_count = (arguments str).length ∧
    (extractArgs 0 str).1.map (textAt parsed.bytes) = (arguments str).map codes

theorem parseArgs_right (str : List Letter) :
    Right str ↔ ∀ arg ∈ arguments str, arg ≠ [] := by
  have texts := extractArgs_texts [] (List.length_nil) str
  have count : (extractArgs 0 str).1.length = (arguments str).length := by
    rw [← List.length_map (f := codes), ← texts, List.length_map]
  constructor
  · rintro ⟨parsed, result, argv, _, all⟩
    obtain ⟨located, found, same⟩ := Option.bind_eq_some_iff.1 result
    cases same
    have equal : located = (extractArgs 0 str).1 :=
      List.map_injective_iff.2 (Option.some_injective _) (List.append_cancel_right argv)
    have nonempty := locateArgs_some [] rfl found
    intro arg member none_
    have there := List.mem_map_of_mem (f := codes) member
    rw [← all] at there
    obtain ⟨offset, known, text⟩ := List.mem_map.1 there
    rw [← equal] at known
    exact nonempty offset known (text.trans (by rw [none_]; rfl))
  · intro some_
    have found := locateArgs_extractArgs some_ 0 0
    refine ⟨⟨_, _, _⟩, ?_, rfl, count, texts⟩
    rw [parseArgs]
    exact Option.bind_eq_some_iff.2 ⟨_, found, rfl⟩

/-- With only an empty quoted text, `while (*pos == 0)` runs over the end. -/
theorem empty_quotes : ¬Right [quote, quote] := by
  rintro ⟨parsed, result, _⟩
  have found : extractNextArg [quote, quote] = ⟨some 1, zeros 1 ++ codes [] ++ [0], []⟩ := rfl
  rw [parseArgs, extractArgs_some found, extractArgs_nil] at result
  cases result

end Orcos.Guarantees.ArgumentVectors
