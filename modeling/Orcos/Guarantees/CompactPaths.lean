import Orcos.Source.Library.Static

/-!
# Compacted paths

Source: src/library/src/static.c, `compactPath`; src/library/src/libexec/cd.cc, `exec_cd`.

Looking one token ahead cancels a name only with a ".." right behind it, and the root loses its
slash. A path may have more characters than the buffer.
-/
namespace Orcos.Guarantees.CompactPaths
open Lib.Parts Source.Files Source.Library

/-- The names left behind a "..". Where no name is left it stays itself, if those do. -/
def cancel (stays : Bool) : List (List Letter) → List (List Letter)
  | name :: below => if IsName name then below else parent :: name :: below
  | [] => if stays then [parent] else []

/-- Each ".." cancels the nearest name before that is left, of those in `left` (the last one
first) and the components. -/
def reduce (stays : Bool) (left : List (List Letter)) : List (List Letter) → List (List Letter)
  | [] => left.reverse
  | token :: rest =>
    if token = [dot] then reduce stays left rest
    else if token = parent then reduce stays (cancel stays left) rest
    else reduce stays (token :: left) rest

/-- Names with slashes between them. -/
def join : List (List Letter) → List Letter
  | [] => []
  | [token] => token
  | token :: next :: rest => token ++ slash :: join (next :: rest)

def root (path : List Letter) : List Letter := if path.head? = some slash then [slash] else []

/-- The path that a path is to be replaced by. -/
def reduced (stays : Bool) (path : List Letter) : List Letter :=
  root path ++ join (reduce stays [] (components path))

/-- The path is replaced by the reduced one, and only bytes of its string and of the buffer are
written. -/
def Right (stays : Bool) (path : List Letter) : Prop :=
  (compactPath path).newpath = reduced stays path ∧
    (∀ i ∈ (compactPath path).written, i ≤ path.length) ∧
    ∀ i ∈ (compactPath path).buffer, i < 100

/-- Each ".." stands right behind a name (`near`), or nothing is left before it (`bare`) and
those that cancel nothing vanish. -/
def Tidy (stays : Bool) : Bool → Bool → List (List Letter) → Prop
  | _, _, [] => True
  | bare, near, token :: rest =>
    if token = [dot] then Tidy stays (bare && !near) false rest
    else if token = parent then (near = true ∨ bare = true ∧ stays = false) ∧
      Tidy stays bare false rest
    else Tidy stays (bare && !near) true rest

/-- The last component is a name. -/
def endsWithName (tokens : List (List Letter)) : Bool := tokens.getLast?.any (IsName ·)

/-- When the path is replaced right: the components are tidy, an absolute path has a name left,
and the text fits into the buffer, with a slash behind it if the last component is no name. -/
structure Fits (stays : Bool) (path : List Letter) : Prop where
  tidy : Tidy stays true false (components path)
  named : path.head? = some slash → reduce stays [] (components path) ≠ []
  short : (reduced stays path).length +
    (if reduce stays [] (components path) = [] ∨ endsWithName (components path) then 0 else 1) < 100

/-- The components that are kept: names that have no ".." right behind them. -/
def kept : List (List Letter) → List (List Letter)
  | [] => []
  | [token] => if IsName token then [token] else []
  | token :: next :: rest =>
    (if IsName token ∧ next ≠ parent then [token] else []) ++ kept (next :: rest)

variable {stays : Bool} {token name : List Letter} {left rest : List (List Letter)}
  {path : List Letter}

theorem not_isName_dot : ¬IsName [dot] := fun name => name.1 rfl

theorem not_isName_parent : ¬IsName parent := fun name => name.2 rfl

theorem kept_skip (other : ¬IsName token) (rest : List (List Letter)) :
    kept (token :: rest) = kept rest := by
  cases rest with
  | nil => exact if_neg other
  | cons next rest => rw [kept, if_neg fun both => other both.1, List.nil_append]

theorem dot_ne_parent : [dot] ≠ parent := by decide

theorem head_ne (other : token ≠ parent) (rest : List (List Letter)) :
    (token :: rest).head? ≠ some parent := fun same => other (Option.some.inj same)

theorem kept_cancelled (rest : List (List Letter)) :
    kept (token :: parent :: rest) = kept rest := by
  rw [kept, if_neg fun both => both.2 rfl, List.nil_append, kept_skip not_isName_parent]

theorem kept_name (named : IsName token) (apart : rest.head? ≠ some parent) :
    kept (token :: rest) = token :: kept rest := by
  cases rest with
  | nil => exact if_pos named
  | cons next rest =>
    have other : next ≠ parent := fun same => apart (congrArg some same)
    rw [kept, if_pos ⟨named, other⟩, List.singleton_append]

theorem isName_of_mem_kept (tokens : List (List Letter)) : ∀ name ∈ kept tokens, IsName name := by
  fun_induction kept tokens with
  | case1 => simp
  | case2 token named => simpa using named
  | case3 token other => simp
  | case4 token next rest ih =>
    intro name member
    rcases List.mem_append.mp member with here | later
    · split at here
      · next both =>
        obtain rfl := List.mem_singleton.mp here
        exact both.1
      · cases here
    · exact ih name later

/-- A ".." that stays is not cancelled any more. -/
theorem parent_mem_reduce (member : parent ∈ left) : parent ∈ reduce stays left rest := by
  induction rest generalizing left with
  | nil => exact List.mem_reverse.mpr member
  | cons token rest ih =>
    rw [reduce]
    split
    · exact ih member
    · split
      · apply ih
        cases left with
        | nil => cases member
        | cons name below =>
          rw [cancel]
          split
          · next named =>
            apply (List.mem_cons.mp member).resolve_left
            rintro rfl
            exact not_isName_parent named
          · exact List.mem_cons_self
      · exact ih (List.mem_cons_of_mem _ member)

theorem reduce_dot : reduce stays left ([dot] :: rest) = reduce stays left rest := by
  rw [reduce, if_pos rfl]

theorem reduce_parent :
    reduce stays left (parent :: rest) = reduce stays (cancel stays left) rest := by
  rw [reduce, if_neg (by decide), if_pos rfl]

theorem reduce_name (named : IsName token) :
    reduce stays left (token :: rest) = reduce stays (token :: left) rest := by
  rw [reduce, if_neg named.1, if_neg named.2]

theorem cancel_name (named : IsName name) : cancel stays (name :: left) = left := if_pos named

/-- Each component is a dot, a parent or a name. -/
theorem component_cases (token : List Letter) : token = [dot] ∨ token = parent ∨ IsName token := by
  by_cases here : token = [dot]
  · exact .inl here
  · by_cases above : token = parent
    · exact .inr (.inl above)
    · exact .inr (.inr ⟨here, above⟩)

/-- No more names are left than are kept, with a name in front of the components or none. -/
theorem countP_reduce_le (stays : Bool) (rest : List (List Letter)) :
    (∀ left, (reduce stays left rest).countP (IsName ·) ≤
      left.countP (IsName ·) + (kept rest).length) ∧
    ∀ left name, IsName name → (reduce stays (name :: left) rest).countP (IsName ·) ≤
      left.countP (IsName ·) + (kept (name :: rest)).length := by
  induction rest with
  | nil =>
    constructor
    · intro left
      rw [reduce, List.countP_reverse]
      exact Nat.le_add_right _ _
    · intro left name named
      rw [reduce, List.countP_reverse, List.countP_cons_of_pos (by simpa using named), kept,
        if_pos named]
      exact Nat.le_refl _
  | cons token rest ih =>
    obtain ⟨after, behind⟩ := ih
    rcases component_cases token with rfl | rfl | named'
    · constructor
      · intro left
        rw [reduce_dot, kept_skip not_isName_dot]
        exact after left
      · intro left name named
        have count := after (name :: left)
        rw [List.countP_cons_of_pos (by simpa using named)] at count
        rw [reduce_dot, kept_name named (head_ne dot_ne_parent rest), kept_skip not_isName_dot,
          List.length_cons]
        omega
    · constructor
      · intro left
        rw [reduce_parent, kept_skip not_isName_parent]
        apply Nat.le_trans (after _)
        apply Nat.add_le_add_right
        cases left with
        | nil =>
          rw [cancel]
          split
          · rw [List.countP_cons_of_neg (by simpa using not_isName_parent)]
          · exact Nat.le_refl _
        | cons name below =>
          rw [cancel]
          split
          · rw [List.countP_cons]
            exact Nat.le_add_right _ _
          · rw [List.countP_cons_of_neg (by simpa using not_isName_parent)]
      · intro left name named
        rw [reduce_parent, cancel_name named, kept_cancelled]
        exact after left
    · constructor
      · intro left
        rw [reduce_name named']
        exact behind left token named'
      · intro left name named
        have count := behind (name :: left) token named'
        rw [List.countP_cons_of_pos (by simpa using named)] at count
        rw [reduce_name named', kept_name named (head_ne named'.2 rest), List.length_cons]
        omega

/-- Where a ".." cancels a name that is not right before it, or stays itself, other components are
left than are kept. -/
theorem reduce_parent_ne (names : ∀ name ∈ left, IsName name)
    (loses : left ≠ [] ∨ stays = true) :
    reduce stays left (parent :: rest) ≠ left.reverse ++ kept rest := by
  intro same
  rw [reduce_parent] at same
  cases left with
  | nil =>
    rw [cancel, if_pos (loses.resolve_left fun some_ => some_ rfl)] at same
    have member : parent ∈ reduce stays [parent] rest := parent_mem_reduce List.mem_cons_self
    rw [same] at member
    exact not_isName_parent (isName_of_mem_kept rest _ member)
  | cons name below =>
    have count := (countP_reduce_le stays rest).1 below
    rw [cancel_name (names name List.mem_cons_self)] at same
    have all : (kept rest).countP (IsName ·) = (kept rest).length :=
      List.countP_eq_length.mpr fun name member => by
        simpa using isName_of_mem_kept rest name member
    rw [same, List.countP_append, all, List.countP_reverse,
      List.countP_cons_of_pos (by simpa using names name List.mem_cons_self)] at count
    omega

/-- The names that are left are those kept exactly when the components are tidy, with a name in
front of them or none. -/
theorem reduce_eq_kept_iff (rest : List (List Letter)) :
    (∀ left, (∀ name ∈ left, IsName name) →
      (reduce stays left rest = left.reverse ++ kept rest ↔
        Tidy stays left.isEmpty false rest)) ∧
    ∀ left name, (∀ name ∈ left, IsName name) → IsName name →
      (reduce stays (name :: left) rest = left.reverse ++ kept (name :: rest) ↔
        Tidy stays left.isEmpty true rest) := by
  induction rest with
  | nil =>
    constructor
    · intro left _
      rw [reduce, kept, List.append_nil]
      exact iff_of_true rfl trivial
    · intro left name _ named
      rw [reduce, kept, if_pos named, List.reverse_cons]
      exact iff_of_true rfl trivial
  | cons token rest ih =>
    obtain ⟨after, behind⟩ := ih
    have more {left : List (List Letter)} {name : List Letter} (names : ∀ name ∈ left, IsName name)
        (named : IsName name) : ∀ name' ∈ name :: left, IsName name' := by
      intro name' member
      rcases List.mem_cons.mp member with rfl | below
      · exact named
      · exact names name' below
    rcases component_cases token with rfl | rfl | named'
    · constructor
      · intro left names
        rw [reduce_dot, kept_skip not_isName_dot, Tidy, if_pos rfl, Bool.not_false, Bool.and_true]
        exact after left names
      · intro left name names named
        rw [reduce_dot, kept_name named (head_ne dot_ne_parent rest), kept_skip not_isName_dot,
          Tidy, if_pos rfl,
          Bool.not_true, Bool.and_false]
        have step := after (name :: left) (more names named)
        rwa [List.reverse_cons, List.append_assoc, List.singleton_append] at step
    · constructor
      · intro left names
        rw [Tidy, if_neg (by decide), if_pos rfl, kept_skip not_isName_parent]
        by_cases loses : left ≠ [] ∨ stays = true
        · apply iff_of_false (reduce_parent_ne names loses)
          rintro ⟨near | ⟨bare, vanish⟩, _⟩
          · cases near
          · rw [List.isEmpty_iff] at bare
            rcases loses with some_ | stay
            · exact some_ bare
            · rw [vanish] at stay
              cases stay
        · obtain ⟨none_, vanish⟩ := not_or.mp loses
          obtain rfl := not_not.mp none_
          rw [Bool.not_eq_true] at vanish
          subst vanish
          rw [reduce_parent]
          have step := after [] names
          simpa [cancel] using step
      · intro left name names named
        rw [reduce_parent, cancel_name named, kept_cancelled, Tidy, if_neg (by decide), if_pos rfl,
          after left names]
        simp
    · constructor
      · intro left names
        rw [reduce_name named', Tidy, if_neg named'.1, if_neg named'.2, Bool.not_false,
          Bool.and_true]
        exact behind left token names named'
      · intro left name names named
        rw [reduce_name named', kept_name named (head_ne named'.2 rest), Tidy, if_neg named'.1,
          if_neg named'.2,
          Bool.not_true, Bool.and_false]
        have step := behind (name :: left) token (more names named) named'
        rwa [List.reverse_cons, List.append_assoc, List.singleton_append] at step

theorem mem_kept (tokens : List (List Letter)) (member : name ∈ kept tokens) : name ∈ tokens := by
  fun_induction kept tokens with
  | case1 => exact member
  | case2 token named => exact member
  | case3 token other => cases member
  | case4 token next rest ih =>
    rcases List.mem_append.mp member with here | later
    · split at here
      · exact List.mem_cons.mpr (.inl (List.mem_singleton.mp here))
      · cases here
    · exact List.mem_cons_of_mem _ (ih later)

theorem mem_reduce (member : name ∈ reduce stays left rest) :
    name ∈ left ∨ name ∈ rest ∨ name = parent := by
  induction rest generalizing left with
  | nil => exact .inl (List.mem_reverse.mp member)
  | cons token rest ih =>
    rcases component_cases token with rfl | rfl | named
    · rw [reduce_dot] at member
      exact (ih member).imp_right (.imp_left (List.mem_cons_of_mem _))
    · rw [reduce_parent] at member
      rcases ih member with before | later | above
      · cases left with
        | nil =>
          rw [cancel] at before
          split at before
          · exact .inr (.inr (List.mem_singleton.mp before))
          · cases before
        | cons first below =>
          rw [cancel] at before
          split at before
          · exact .inl (List.mem_cons_of_mem _ before)
          · exact (List.mem_cons.mp before).elim (fun above => .inr (.inr above)) .inl
      · exact .inr (.inl (List.mem_cons_of_mem _ later))
      · exact .inr (.inr above)
    · rw [reduce_name named] at member
      rcases ih member with before | later | above
      · rcases List.mem_cons.mp before with here | before
        · exact .inr (.inl (List.mem_cons.mpr (.inl here)))
        · exact .inl before
      · exact .inr (.inl (List.mem_cons_of_mem _ later))
      · exact .inr (.inr above)

/-- Components have characters, and no slashes. -/
def Proper (tokens : List (List Letter)) : Prop := ∀ token ∈ tokens, token ≠ [] ∧ slash ∉ token

theorem proper_components (path : List Letter) : Proper (components path) := fun token member =>
  ⟨by simpa using (List.mem_filter.mp member).2, notMem_of_mem_parts member⟩

theorem proper_kept (path : List Letter) : Proper (kept (components path)) := fun token member =>
  proper_components path token (mem_kept _ member)

theorem proper_reduce (path : List Letter) : Proper (reduce stays [] (components path)) := by
  intro token member
  rcases mem_reduce member with none_ | here | above
  · cases none_
  · exact proper_components path token here
  · rw [above]
    decide

/-- Joined components are read off again. -/
theorem components_join {tokens : List (List Letter)} (proper : Proper tokens) :
    components (join tokens) = tokens := by
  fun_induction join tokens with
  | case1 => exact parts_nil
  | case2 token =>
    obtain ⟨some_, plain⟩ := proper token List.mem_cons_self
    exact parts_single plain some_
  | case3 token next rest ih =>
    obtain ⟨some_, plain⟩ := proper token List.mem_cons_self
    have later := ih fun token member => proper token (List.mem_cons_of_mem _ member)
    rw [components, parts_append, parts_single plain some_]
    exact congrArg (token :: ·) later

theorem join_inj {tokens tokens' : List (List Letter)} (proper : Proper tokens)
    (proper' : Proper tokens') : join tokens = join tokens' ↔ tokens = tokens' := by
  constructor
  · intro same
    rw [← components_join proper, same, components_join proper']
  · rintro rfl
    rfl

/-- No slash stands at the end of joined components. -/
theorem getLast?_join {tokens : List (List Letter)} (proper : Proper tokens) (some_ : tokens ≠ []) :
    ∃ c, (join tokens).getLast? = some c ∧ c ≠ slash := by
  fun_induction join tokens with
  | case1 => exact absurd rfl some_
  | case2 token =>
    obtain ⟨characters, plain⟩ := proper token List.mem_cons_self
    refine ⟨token.getLast characters, List.getLast?_eq_some_getLast characters, ?_⟩
    intro last
    exact plain (last ▸ List.getLast_mem characters)
  | case3 token next rest ih =>
    obtain ⟨c, last, other⟩ := ih (fun token member => proper token (List.mem_cons_of_mem _ member))
      (List.cons_ne_nil _ _)
    refine ⟨c, ?_, other⟩
    rw [List.getLast?_append, List.getLast?_cons, last]
    rfl

theorem endsWithName_cons {next : List Letter} :
    endsWithName (token :: next :: rest) = endsWithName (next :: rest) := by
  rw [endsWithName, endsWithName, List.getLast?_cons_cons]

theorem kept_of_endsWithName {tokens : List (List Letter)} (ends : endsWithName tokens = true) :
    kept tokens ≠ [] := by
  fun_induction kept tokens with
  | case1 => cases ends
  | case2 token named => exact List.cons_ne_nil _ _
  | case3 token other => simp [endsWithName, other] at ends
  | case4 token next rest ih =>
    exact List.append_ne_nil_of_right_ne_nil _ (ih (endsWithName_cons.symm.trans ends))

/-- The loop leaves the kept names with slashes between them, and one behind them when the last
component is no name. -/
theorem joined_eq (tokens : List (List Letter)) :
    joined tokens = join (kept tokens) ++
      if kept tokens = [] ∨ endsWithName tokens = true then [] else [slash] := by
  fun_induction kept tokens with
  | case1 => rfl
  | case2 token named =>
    have ends : endsWithName [token] = true := by simpa [endsWithName] using named
    rw [joined, if_pos named, if_pos (.inr ends), List.append_nil, join]
  | case3 token other =>
    rw [joined, if_neg other, if_pos (.inl rfl)]
    rfl
  | case4 token next rest ih =>
    rw [joined, ih, endsWithName_cons]
    by_cases both : IsName token ∧ next ≠ parent
    · rw [if_pos both, if_pos both]
      cases later : kept (next :: rest) with
      | nil =>
        have ends : ¬endsWithName (next :: rest) = true := fun ends =>
          kept_of_endsWithName ends later
        simp [join, ends]
      | cons first more => simp [join]
    · rw [if_neg both, if_neg both, List.nil_append, List.nil_append]

theorem join_eq_nil_iff {tokens : List (List Letter)} (proper : Proper tokens) :
    join tokens = [] ↔ tokens = [] := by
  have none_ : Proper [] := fun token member => by cases member
  exact join_inj proper none_

theorem root_eq_nil_iff : root path = [] ↔ ¬path.head? = some slash := by
  rw [root]
  split
  · next absolute => simp [absolute]
  · next relative => simp [relative]

/-- Taking a slash off at the end leaves the names, but nothing of the root alone. -/
theorem strip_root {names : List (List Letter)} (proper : Proper names) (ends : Bool)
    {text : List Letter}
    (whole : text = root path ++ (join names ++ if names = [] ∨ ends = true then [] else [slash])) :
    (if text.getLast? = some slash then text.dropLast else text) =
      if names = [] then [] else root path ++ join names := by
  by_cases none_ : names = []
  · subst none_
    rw [if_pos (.inl rfl), join, List.append_nil, List.append_nil] at whole
    rw [if_pos rfl, whole, root]
    split <;> rfl
  · obtain ⟨c, last, other⟩ := getLast?_join proper none_
    rw [if_neg none_]
    cases ends with
    | true =>
      rw [if_pos (.inr rfl), List.append_nil] at whole
      rw [whole, List.getLast?_append, last, if_neg]
      rw [Option.some_or, Option.some.injEq]
      exact other
    | false =>
      rw [if_neg (by simp [none_]), ← List.append_assoc] at whole
      rw [whole, List.getLast?_concat, if_pos rfl, List.dropLast_concat]

/-- Each path is replaced right exactly when its components are tidy, an absolute one has a name
left, and the text fits into the buffer. -/
theorem compactPath_right_iff (stays : Bool) (path : List Letter) :
    Right stays path ↔ Fits stays path := by
  obtain ⟨text, whole, result, written, buffer⟩ := compactPath_spec path
  have start : (Compacting.start path).newpath = root path := by
    rw [Compacting.start, root]
    split <;> rfl
  have tidy : reduce stays [] (components path) = kept (components path) ↔
      Tidy stays true false (components path) :=
    (reduce_eq_kept_iff (components path)).1 [] fun name member => by cases member
  have proper := proper_kept path
  have proper' : Proper (reduce stays [] (components path)) := proper_reduce path
  rw [start, joined_eq] at whole
  generalize kept (components path) = names at *
  rw [strip_root proper _ whole] at result
  have same : (compactPath path).newpath = reduced stays path ↔
      reduce stays [] (components path) = names ∧ (path.head? = some slash → names ≠ []) := by
    rw [result, reduced]
    by_cases none_ : names = []
    · rw [if_pos none_, eq_comm, List.append_eq_nil_iff, root_eq_nil_iff, join_eq_nil_iff proper',
        none_, and_comm]
      simp
    · rw [if_neg none_, List.append_cancel_left_eq, join_inj proper proper', eq_comm]
      simp [none_]
  have length : text.length = (root path ++ join names).length +
      if names = [] ∨ endsWithName (components path) = true then 0 else 1 := by
    rw [whole, ← List.append_assoc, List.length_append]
    split <;> rfl
  rw [length] at buffer
  constructor
  · rintro ⟨replaced, _, inside⟩
    obtain ⟨left, named⟩ := same.mp replaced
    refine ⟨tidy.mp left, left ▸ named, ?_⟩
    rw [reduced, left]
    exact buffer.mp inside
  · rintro ⟨tidy', named, short⟩
    have left := tidy.mpr tidy'
    rw [reduced, left] at short
    exact ⟨same.mpr ⟨left, left ▸ named⟩, written, buffer.mpr short⟩

/-- The root becomes the empty string. -/
theorem root_lost : ¬∃ stays, ∀ path, Right stays path := by
  rintro ⟨stays, all⟩
  have replaced := (all [slash]).1
  revert replaced
  cases stays <;> decide

end Orcos.Guarantees.CompactPaths
