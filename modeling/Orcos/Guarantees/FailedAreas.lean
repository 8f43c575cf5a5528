import Mathlib.Order.Basic
import Orcos.Guarantees.LogicalAreas

/-!
# Logical areas that cannot be allocated

Source: src/source/mem/PagedRamMemManager.cc, `alloc_logical`.

Each piece that was got uses more of a page, and no later one takes that back. A failed call
returns nothing, so it has left all as it was only if it got nothing.
-/
namespace Orcos.Guarantees.FailedAreas
open Orcos.Source.PagedRam LogicalAreas

variable {layout : Layout} {σ : Type} {hat : HatLayer σ} {m m' : PageMap layout} {h h' : σ}
  {pid n i : Nat} {p p' : Page} {s t : Request layout σ}

section Specification

/-- A page has room for the first piece of an area: one of more than 1 MB begins with a free page,
one of more than 64 KB with 16 micropages, and another one with a micropage. -/
def Serves (size pid : Nat) (p : Page) : Prop :=
  if 0x100000 < size then p.pid = 255
  else HasRoom pid (if 0x10000 < size then 16 else 1) p

/-- No page has room for the first piece. -/
def Exhausted (m : PageMap layout) (size pid : Nat) : Prop := ∀ p ∈ m.pages, ¬Serves size pid p

/-- The page map and the mappings are what they were. -/
def Unchanged (hat : HatLayer σ) (m m' : PageMap layout) (h h' : σ) : Prop :=
  m' = m ∧ ∀ x, hat.getPhysicalAddress h' x = hat.getPhysicalAddress h x

end Specification

/-! ### What is used grows -/

/-- How much of a page is used: it counts itself, and its micropages. -/
def use (p : Page) : Nat := if p.pid = 255 then 0 else 1 + p.usedMicropages

/-- What is used of the pages. -/
def uses (m : PageMap layout) : Nat → Nat := fun i => (m.pages[i]?).elim 0 use

theorem use_free (free : p.pid = 255) : use p = 0 := if_pos free

theorem use_owned (real : pid ≠ 255) (own : p.pid = pid) : use p = 1 + p.usedMicropages := by
  rw [use, if_neg (by rw [own]; exact real)]

theorem uses_setPage (entry : m.pages[i]? = some p) (more : use p < use p') :
    uses m < uses (m.setPage i p') := by
  have inside := (List.getElem?_eq_some_iff.mp entry).1
  have here : uses m i < uses (m.setPage i p') i := by
    rw [uses, uses, PageMap.setPage, List.getElem?_set_self inside, entry]
    exact more
  refine Pi.lt_def.2 ⟨fun j => ?_, i, here⟩
  by_cases same : j = i
  · rw [same]
    exact Nat.le_of_lt here
  · rw [uses, uses, PageMap.setPage, List.getElem?_set_ne (Ne.symm same)]

theorem uses_take (real : pid ≠ 255) (free : FreeAt m.pages i) :
    uses m < uses (m.take pid 1 i) := by
  obtain ⟨p, entry, free⟩ := free
  have here : uses m i < uses (m.take pid 1 i) i := by
    rw [uses, uses, PageMap.take, PageMap.update, List.getElem?_mapIdx, entry]
    simp only [Option.elim_some, Option.map_some]
    rw [if_pos (by omega), use_free free, use_owned real rfl]
    omega
  refine Pi.lt_def.2 ⟨fun j => ?_, i, here⟩
  by_cases same : j = i
  · rw [same]
    exact Nat.le_of_lt here
  · rw [uses, uses, PageMap.take, PageMap.update, List.getElem?_mapIdx]
    cases m.pages[j]? with
    | none => exact Nat.le_refl _
    | some q =>
      simp only [Option.elim_some, Option.map_some]
      rw [if_neg (by omega)]

/-! ### One allocation -/

/-- No page has room: the search below 1 MB finds nothing. -/
theorem searchSmall_full {memStart : Nat} {pages : List Page} (units : n = 1 ∨ n = 16)
    (full : ∀ p ∈ pages, ¬HasRoom pid n p) (page : Nat) :
    searchSmall memStart pid (n * 4096) page pages = none := by
  induction pages generalizing page with
  | nil => rfl
  | cons p rest ih =>
    obtain ⟨here, later⟩ := List.forall_mem_cons.1 full
    rw [searchSmall, if_neg fun free => here (.inl free)]
    by_cases own : p.pid = pid ∧ p.usesMicropages ≠ 0
    · rw [if_pos own]
      rcases Page.allocSubPages_cases memStart page p units with ⟨result, _⟩ |
        ⟨_, index, _, taken, _⟩
      · rw [result]
        exact ih later (page + 1)
      · exact absurd (.inr ⟨own.1, own.2, taken.room, index, taken.block⟩) here
    · rw [if_neg own]
      exact ih later (page + 1)

/-- A search that finds something uses more of one page, also when it has no address. -/
theorem searchSmall_uses {memStart : Nat} {pages : List Page} (positive : 0 < memStart)
    (real : pid ≠ 255) (units : n = 1 ∨ n = 16) (page : Nat) :
    (searchSmall memStart pid (n * 4096) page pages = none ∧ ∀ p ∈ pages, ¬HasRoom pid n p) ∨
      ∃ i p p' addr, pages[i]? = some p ∧ use p < use p' ∧
        searchSmall memStart pid (n * 4096) page pages = some (page + i, p', addr) := by
  induction pages generalizing page with
  | nil => exact .inl ⟨rfl, fun p member => absurd member List.not_mem_nil⟩
  | cons p rest ih =>
    by_cases free : p.pid = 255
    · have taken : (p.markUsed pid).pid = pid := rfl
      have answer (p' : Page) (addr : Nat) (own : p'.pid = pid)
          (result : (p.markUsed pid).allocSubPages memStart page (n * 4096) = (p', addr)) :
          ∃ i q q' addr, (p :: rest)[i]? = some q ∧ use q < use q' ∧
            searchSmall memStart pid (n * 4096) page (p :: rest) = some (page + i, q', addr) := by
        refine ⟨0, p, p', addr, rfl, ?_, ?_⟩
        · rw [use_free free, use_owned real own]
          exact Nat.lt_of_lt_of_le Nat.zero_lt_one (Nat.le_add_right 1 _)
        · rw [searchSmall, if_pos free, result]
          rfl
      rcases Page.allocSubPages_cases memStart page (p.markUsed pid) units with
        ⟨result, _⟩ | ⟨p', _, result, block, _⟩
      · exact .inr (answer _ _ taken result)
      · exact .inr (answer _ _ (block.pid.trans taken) result)
    · have later (full : ¬HasRoom pid n p)
          (passed : searchSmall memStart pid (n * 4096) page (p :: rest) =
            searchSmall memStart pid (n * 4096) (page + 1) rest) :
          (searchSmall memStart pid (n * 4096) page (p :: rest) = none ∧
            ∀ q ∈ p :: rest, ¬HasRoom pid n q) ∨
          ∃ i q q' addr, (p :: rest)[i]? = some q ∧ use q < use q' ∧
            searchSmall memStart pid (n * 4096) page (p :: rest) = some (page + i, q', addr) := by
        rw [passed]
        rcases ih (page + 1) with ⟨failed, none_⟩ | ⟨i, q, q', addr, entry, more, found⟩
        · exact .inl ⟨failed, List.forall_mem_cons.2 ⟨full, none_⟩⟩
        · refine .inr ⟨i + 1, q, q', addr, entry, more, ?_⟩
          rw [found, Nat.add_right_comm, Nat.add_assoc]
      by_cases own : p.pid = pid ∧ p.usesMicropages ≠ 0
      · rcases Page.allocSubPages_cases memStart page p units with
          ⟨result, full⟩ | ⟨p', index, result, block, _⟩
        · apply later
          · rintro (isFree | ⟨_, _, fits⟩)
            · exact free isFree
            · exact full fits
          · rw [searchSmall, if_neg free, if_pos own, result]
            rfl
        · have nonzero : memStart + page * mappingPagesize + index * 4096 ≠ 0 := by omega
          refine .inr ⟨0, p, p', memStart + page * mappingPagesize + index * 4096, rfl, ?_, ?_⟩
          · rw [use_owned real own.1, use_owned real (block.pid.trans own.1), block.used]
            omega
          · rw [searchSmall, if_neg free, if_pos own, result]
            exact if_pos nonzero
      · apply later
        · rintro (isFree | ⟨isOwn, split_, _⟩)
          · exact free isFree
          · exact own ⟨isOwn, split_⟩
        · rw [searchSmall, if_neg free, if_neg own]

/-- The page has room for a piece of so many units. -/
def Room (pid n : Nat) (p : Page) : Prop := if n = 256 then p.pid = 255 else HasRoom pid n p

theorem allocPhysical_full (units : n = 1 ∨ n = 16 ∨ n = 256)
    (full : ∀ p ∈ m.pages, ¬Room pid n p) :
    allocPhysical m (n * 4096) pid = some (m, 0) := by
  by_cases whole : n = 256
  · subst whole
    rcases allocPhysical_page m pid with ⟨failed, _⟩ | ⟨i, ⟨p, entry, free⟩, _⟩
    · exact failed
    · exact absurd free (full p (List.mem_of_getElem? entry))
  · have small : n = 1 ∨ n = 16 := by omega
    have rounded : roundSize (n * 4096) = n * 4096 := by
      rcases small with rfl | rfl <;> rfl
    have none_ : ∀ p ∈ m.pages, ¬HasRoom pid n p := fun p member room =>
      full p member (by rw [Room, if_neg whole]; exact room)
    simp only [allocPhysical, rounded, if_neg (show ¬0x100000 ≤ n * 4096 by omega)]
    rw [searchSmall_full small none_]

/-- An allocation that does not find all pages full uses more of one. -/
theorem allocPhysical_uses {addr : Nat} (real : pid ≠ 255) (units : n = 1 ∨ n = 16 ∨ n = 256)
    (result : allocPhysical m (n * 4096) pid = some (m', addr)) :
    (addr = 0 ∧ m' = m ∧ ∀ p ∈ m.pages, ¬Room pid n p) ∨ uses m < uses m' := by
  by_cases whole : n = 256
  · subst whole
    rcases allocPhysical_page m pid with ⟨failed, none_⟩ | ⟨i, free, found⟩
    · rw [mappingPagesize] at failed
      cases result.symm.trans failed
      refine .inl ⟨rfl, rfl, fun p member free => ?_⟩
      obtain ⟨i, inside, entry⟩ := List.getElem_of_mem member
      exact none_ i ⟨p, by rw [List.getElem?_eq_getElem inside, entry], free⟩
    · rw [mappingPagesize] at found
      cases result.symm.trans found
      exact .inr (uses_take real free)
  · have small : n = 1 ∨ n = 16 := by omega
    have rounded : roundSize (n * 4096) = n * 4096 := by
      rcases small with rfl | rfl <;> rfl
    simp only [allocPhysical, rounded, if_neg (show ¬0x100000 ≤ n * 4096 by omega)] at result
    rcases searchSmall_uses layout.positive real small 0 with
      ⟨failed, none_⟩ | ⟨i, p, p', addr', entry, more, found⟩
    · rw [failed] at result
      cases result
      refine .inl ⟨rfl, rfl, fun p member room => ?_⟩
      rw [Room, if_neg whole] at room
      exact none_ p member room
    · rw [found, Nat.zero_add] at result
      cases result
      exact .inr (uses_setPage entry more)

/-! ### The loops -/

theorem mapPiece_full (units : n = 1 ∨ n = 16 ∨ n = 256)
    (full : ∀ p ∈ s.map.pages, ¬Room pid n p) :
    mapPiece hat pid (n * 4096) s = .error (.failed s.map s.hat) := by
  rw [mapPiece, allocPhysical_full units full]
  rfl

/-- A piece that fails was looked for in vain, or has used more. -/
theorem mapPiece_failed (real : pid ≠ 255) (units : n = 1 ∨ n = 16 ∨ n = 256)
    (result : mapPiece hat pid (n * 4096) s = .error (.failed m' h')) :
    (∀ p ∈ s.map.pages, ¬Room pid n p) ∧ m' = s.map ∨ uses s.map < uses m' := by
  rw [mapPiece] at result
  split at result
  · cases result
  · next map physAddr allocated =>
    rcases allocPhysical_uses real units allocated with ⟨zero, same, full⟩ | more
    · rw [if_pos zero] at result
      cases result
      exact .inl ⟨full, same⟩
    · right
      split at result
      · cases result
        exact more
      · dsimp only at result
        split at result
        · cases result
          exact more
        · cases result

theorem mapPiece_ok (real : pid ≠ 255) (units : n = 1 ∨ n = 16 ∨ n = 256)
    (result : mapPiece hat pid (n * 4096) s = .ok t) : uses s.map < uses t.map := by
  rw [mapPiece] at result
  split at result
  · cases result
  · next map physAddr allocated =>
    split at result
    · cases result
    · next nonzero =>
      rcases allocPhysical_uses real units allocated with ⟨zero, _⟩ | more
      · exact absurd zero nonzero
      · dsimp only at result
        split at result
        · cases result
        · cases result
          exact more

theorem mapPieces_ok {bound size left : Nat} (real : pid ≠ 255) (units : n = 1 ∨ n = 16 ∨ n = 256)
    (positive : 0 < n * 4096)
    (result : mapPieces hat pid (n * 4096) bound positive size s = .ok (left, t)) :
    size ≤ bound ∧ left = size ∧ t = s ∨ bound < size ∧ uses s.map < uses t.map := by
  induction size using Nat.strong_induction_on generalizing s with
  | _ size ih =>
    rw [mapPieces] at result
    by_cases more : bound < size
    · rw [if_pos more] at result
      right
      refine ⟨more, ?_⟩
      split at result
      · cases result
      · next s' piece =>
        have first := mapPiece_ok real units piece
        rcases ih _ (by omega) result with ⟨_, _, same⟩ | ⟨_, later⟩
        · rw [same]
          exact first
        · exact first.trans later
    · rw [if_neg more] at result
      cases result
      exact .inl ⟨Nat.le_of_not_lt more, rfl, rfl⟩

theorem mapPieces_failed {bound size : Nat} (real : pid ≠ 255)
    (units : n = 1 ∨ n = 16 ∨ n = 256) (positive : 0 < n * 4096)
    (result : mapPieces hat pid (n * 4096) bound positive size s = .error (.failed m' h')) :
    bound < size ∧ (∀ p ∈ s.map.pages, ¬Room pid n p) ∧ m' = s.map ∨ uses s.map < uses m' := by
  induction size using Nat.strong_induction_on generalizing s with
  | _ size ih =>
    rw [mapPieces] at result
    by_cases more : bound < size
    · rw [if_pos more] at result
      split at result
      · next failure piece =>
        cases result
        rcases mapPiece_failed real units piece with full | used
        · exact .inl ⟨more, full⟩
        · exact .inr used
      · next s' piece =>
        have first := mapPiece_ok real units piece
        right
        rcases ih _ (by omega) result with ⟨_, _, same⟩ | used
        · rw [same]
          exact first
        · exact first.trans used
    · rw [if_neg more] at result
      cases result

theorem mapPieces_full {bound size : Nat} (units : n = 1 ∨ n = 16 ∨ n = 256)
    (positive : 0 < n * 4096) (more : bound < size) (full : ∀ p ∈ s.map.pages, ¬Room pid n p) :
    mapPieces hat pid (n * 4096) bound positive size s = .error (.failed s.map s.hat) := by
  rw [mapPieces, if_pos more, mapPiece_full units full]

theorem mapPieces_stop {piece bound size : Nat} (positive : 0 < piece) (less : size ≤ bound) :
    mapPieces hat pid piece bound positive size s = .ok (size, s) := by
  rw [mapPieces, if_neg (Nat.not_lt_of_le less)]

/-- The units of the first piece. -/
def firstUnits (size : Nat) : Nat :=
  if 0x100000 < size then 256 else if 0x10000 < size then 16 else 1

theorem serves_iff (size : Nat) : Serves size pid p ↔ Room pid (firstUnits size) p := by
  rw [Serves, Room, firstUnits]
  split
  · rw [if_pos rfl]
  · split
    · rw [if_neg (by decide)]
    · rw [if_neg (by decide)]

/-- Without room for the first piece the loops fail, and have done nothing. -/
theorem mapArea_exhausted {size : Nat} (some_ : 0 < size) (exhausted : Exhausted s.map size pid) :
    mapArea hat pid size s = .error (.failed s.map s.hat) := by
  have full : ∀ p ∈ s.map.pages, ¬Room pid (firstUnits size) p := fun p member room =>
    exhausted p member ((serves_iff size).2 room)
  rw [mapArea]
  by_cases pages : 0x100000 < size
  · have units : firstUnits size = 256 := if_pos pages
    rw [units] at full
    have failed : mapPieces hat pid mappingPagesize mappingPagesize (by decide) size s =
        .error (.failed s.map s.hat) := mapPieces_full (.inr (.inr rfl)) (by decide) pages full
    rw [failed]
    rfl
  · have passed : mapPieces hat pid mappingPagesize mappingPagesize (by decide) size s =
        .ok (size, s) := mapPieces_stop (by decide) (Nat.le_of_not_lt pages)
    rw [passed]
    by_cases blocks : 0x10000 < size
    · have units : firstUnits size = 16 := by rw [firstUnits, if_neg pages, if_pos blocks]
      rw [units] at full
      have failed : mapPieces hat pid 0x10000 0x10000 (by decide) size s =
          .error (.failed s.map s.hat) := mapPieces_full (.inr (.inl rfl)) (by decide) blocks full
      simp only [bind, Except.bind, failed]
    · have units : firstUnits size = 1 := by rw [firstUnits, if_neg pages, if_neg blocks]
      rw [units] at full
      have passed : mapPieces hat pid 0x10000 0x10000 (by decide) size s = .ok (size, s) :=
        mapPieces_stop (by decide) (Nat.le_of_not_lt blocks)
      have failed : mapPieces hat pid 0x1000 0 (by decide) size s =
          .error (.failed s.map s.hat) := mapPieces_full (.inl rfl) (by decide) some_ full
      simp only [bind, Except.bind, passed, failed]

theorem not_serves {size units : Nat} (first : firstUnits size = units)
    (full : ∀ p ∈ m.pages, ¬Room pid units p) : Exhausted m size pid := fun p member serves =>
  full p member (by rw [← first]; exact (serves_iff size).1 serves)

/-- The loops are where they began, or have used more. -/
def Onward (s t : Request layout σ) : Prop := t = s ∨ uses s.map < uses t.map

theorem Onward.used (onward : Onward s t) (more : uses t.map < uses m) : uses s.map < uses m := by
  rcases onward with start | used
  · rw [← start]
    exact more
  · exact used.trans more

theorem Onward.trans {r : Request layout σ} (first : Onward s t) (second : Onward t r) :
    Onward s r := by
  rcases second with start | used
  · rw [start]
    exact first
  · exact .inr (first.used used)

theorem mapPieces_onward {bound size left : Nat} (real : pid ≠ 255)
    (units : n = 1 ∨ n = 16 ∨ n = 256)
    (positive : 0 < n * 4096)
    (result : mapPieces hat pid (n * 4096) bound positive size s = .ok (left, t)) : Onward s t :=
  (mapPieces_ok real units positive result).imp (fun start => start.2.2) And.right

/-- The failure of a loop in the middle: what came before has used something, or this is the first
piece. -/
theorem failed_later {s s' : Request layout σ} {first : Prop} (began : Onward s s')
    (failed : (s' = s → first) ∧ m' = s'.map ∨ uses s'.map < uses m') :
    first ∨ uses s.map < uses m' := by
  rcases failed with ⟨here, same⟩ | more
  · rcases began with start | used
    · exact .inl (here start)
    · rw [same]
      exact .inr used
  · exact .inr (began.used more)

/-- Where the loops fail they have used more, but if there was no room for the first piece. -/
theorem mapArea_failed {size : Nat} (real : pid ≠ 255)
    (result : mapArea hat pid size s = .error (.failed m' h')) :
    Exhausted s.map size pid ∨ uses s.map < uses m' := by
  rw [mapArea] at result
  cases pages : mapPieces hat pid mappingPagesize mappingPagesize (by decide) size s with
  | error failure =>
    rw [pages] at result
    cases result
    rcases mapPieces_failed (n := 256) real (.inr (.inr rfl)) (by decide) pages with
      ⟨large, full, _⟩ | used
    · exact .inl (not_serves (if_pos large) full)
    · exact .inr used
  | ok r =>
    obtain ⟨left₁, s₁⟩ := r
    simp only [pages, bind, Except.bind] at result
    have first := mapPieces_ok (n := 256) real (.inr (.inr rfl)) (by decide) pages
    have began := mapPieces_onward (n := 256) real (.inr (.inr rfl)) (by decide) pages
    cases blocks : mapPieces hat pid 0x10000 0x10000 (by decide) left₁ s₁ with
    | error failure =>
      rw [blocks] at result
      cases result
      apply failed_later began
      rcases mapPieces_failed (n := 16) real (.inr (.inl rfl)) (by decide) blocks with
        ⟨large, full, same⟩ | more
      · refine .inl ⟨fun start => ?_, same⟩
        rcases first with ⟨small, rfl, _⟩ | ⟨_, used⟩
        · rw [start] at full
          exact not_serves (by rw [firstUnits, if_neg (Nat.not_lt_of_le small), if_pos large]) full
        · rw [start] at used
          exact absurd used (lt_irrefl _)
      · exact .inr more
    | ok r =>
      obtain ⟨left₂, s₂⟩ := r
      rw [blocks] at result
      have second := mapPieces_ok (n := 16) real (.inr (.inl rfl)) (by decide) blocks
      apply failed_later
        (began.trans (mapPieces_onward (n := 16) real (.inr (.inl rfl)) (by decide) blocks))
      rcases mapPieces_failed (n := 1) real (.inl rfl) (by decide) result with
        ⟨_, full, same⟩ | more
      · refine .inl ⟨fun start => ?_, same⟩
        rw [start] at full
        rcases second with ⟨few, _, rfl⟩ | ⟨_, used⟩
        · rcases first with ⟨small, rfl, _⟩ | ⟨_, used⟩
          · exact not_serves (by rw [firstUnits, if_neg (Nat.not_lt_of_le small),
              if_neg (Nat.not_lt_of_le few)]) full
          · rw [start] at used
            exact absurd used (lt_irrefl _)
        · rw [start] at used
          exact absurd (began.used used) (lt_irrefl _)
      · exact .inr more

/-- An area with a byte uses something. -/
theorem mapArea_ok {size left : Nat} (real : pid ≠ 255) (some_ : 0 < size)
    (result : mapArea hat pid size s = .ok (left, t)) : uses s.map < uses t.map := by
  rw [mapArea] at result
  cases pages : mapPieces hat pid mappingPagesize mappingPagesize (by decide) size s with
  | error failure =>
    rw [pages] at result
    cases result
  | ok r =>
    obtain ⟨left₁, s₁⟩ := r
    simp only [pages, bind, Except.bind] at result
    cases blocks : mapPieces hat pid 0x10000 0x10000 (by decide) left₁ s₁ with
    | error failure =>
      rw [blocks] at result
      cases result
    | ok r =>
      obtain ⟨left₂, s₂⟩ := r
      rw [blocks] at result
      have began := mapPieces_onward (n := 256) real (.inr (.inr rfl)) (by decide) pages
      have went := mapPieces_onward (n := 16) real (.inr (.inl rfl)) (by decide) blocks
      rcases mapPieces_ok (n := 1) real (.inl rfl) (by decide) result with
        ⟨none_, _, rfl⟩ | ⟨_, used⟩
      · -- nothing is left for the last loop, so one of the others has had a piece
        rcases mapPieces_ok (n := 16) real (.inr (.inl rfl)) (by decide) blocks with
          ⟨_, rfl, rfl⟩ | ⟨_, used⟩
        · rcases mapPieces_ok (n := 256) real (.inr (.inr rfl)) (by decide) pages with
            ⟨_, rfl, _⟩ | ⟨_, used⟩
          · omega
          · exact used
        · exact began.used used
      · exact (began.trans went).used used

variable {size logicalAddress : Nat}

/-- Nothing to allocate, or no room for the first piece: all is as it was. -/
theorem unchanged_of_exhausted
    (failed : allocLogical hat m h size pid logicalAddress = some (m', h', 0))
    (nothing : size = 0 ∨ Exhausted m size pid) : Unchanged hat m m' h h' := by
  rw [allocLogical] at failed
  rcases Nat.eq_zero_or_pos size with empty | some_
  · have stops : mapArea hat pid size ⟨m, h, logicalAddress, logicalAddress⟩ =
        .ok (0, ⟨m, h, logicalAddress, logicalAddress⟩) := by
      rw [mapArea, empty, mapPieces_stop (by decide) (Nat.zero_le _)]
      simp only [bind, Except.bind]
      rw [mapPieces_stop (by decide) (Nat.zero_le _)]
      exact mapPieces_stop (by decide) (Nat.le_refl 0)
    rw [stops] at failed
    cases failed
    exact ⟨rfl, fun _ => rfl⟩
  · have exhausted : Exhausted m size pid := nothing.resolve_left (Nat.ne_of_gt some_)
    rw [mapArea_exhausted (s := ⟨m, h, logicalAddress, logicalAddress⟩) some_ exhausted] at failed
    cases failed
    exact ⟨rfl, fun _ => rfl⟩

/-- A failed call for a process has left the page map alone exactly when it got nothing. -/
theorem exhausted_of_unchanged (real : pid ≠ 255)
    (failed : allocLogical hat m h size pid logicalAddress = some (m', h', 0))
    (unchanged : Unchanged hat m m' h h') : size = 0 ∨ Exhausted m size pid := by
  rcases Nat.eq_zero_or_pos size with empty | some_
  · exact .inl empty
  · right
    rw [allocLogical] at failed
    split at failed
    · next left t result =>
      obtain ⟨same, _⟩ := Prod.mk.inj (Option.some.inj failed)
      have used := mapArea_ok real some_ result
      rw [same, unchanged.1] at used
      exact absurd used (lt_irrefl _)
    · next map translation result =>
      cases failed
      rcases mapArea_failed real result with exhausted | used
      · exact exhausted
      · rw [unchanged.1] at used
        exact absurd used (lt_irrefl _)
    · cases failed

/-- When the call fails and the process is one (255 stands for none), all is as it was exactly when
there was no room for the first piece. -/
theorem failure_unchanged_iff
    (failed : allocLogical hat m h size pid logicalAddress = some (m', h', 0)) :
    (size = 0 ∨ Exhausted m size pid → Unchanged hat m m' h h') ∧
      (pid ≠ 255 → (Unchanged hat m m' h h' ↔ size = 0 ∨ Exhausted m size pid)) :=
  ⟨unchanged_of_exhausted failed, fun real =>
    ⟨exhausted_of_unchanged real failed, unchanged_of_exhausted failed⟩⟩

theorem failure_unchanged_iff_two_megabytes :
    ∃ m' h', allocLogical tableHat (PageMap.allFree .onePage) [] 0x200000 7 0 = some (m', h', 0) ∧
      (0x200000 = 0 ∨ Exhausted (PageMap.allFree .onePage) 0x200000 7 →
        Unchanged tableHat (PageMap.allFree .onePage) m' [] h') ∧
      (7 ≠ 255 → (Unchanged tableHat (PageMap.allFree .onePage) m' [] h' ↔
        0x200000 = 0 ∨ Exhausted (PageMap.allFree .onePage) 0x200000 7)) := by
  have answered : (allocLogical tableHat (PageMap.allFree .onePage) [] 0x200000 7 0).any
      (fun answer => answer.2.2 = 0) = true := by decide +kernel
  obtain ⟨⟨m', h', r⟩, result, zero⟩ := (Option.any_eq_true _ _).mp answered
  obtain rfl : r = 0 := of_decide_eq_true zero
  exact ⟨m', h', result, failure_unchanged_iff result⟩

/-- 2 MB of a memory of 1 MB: the page that was got stays with the process. -/
theorem first_page_kept : ¬ ∀ (m m' : PageMap .onePage) (h h' : List Mapping)
    (size pid logicalAddress : Nat),
    allocLogical tableHat m h size pid logicalAddress = some (m', h', 0) →
      Unchanged tableHat m m' h h' := by
  intro all
  have answered : (allocLogical tableHat (PageMap.allFree .onePage) [] 0x200000 7 0).any
      (fun answer => answer.2.2 = 0 ∧ answer.1 ≠ PageMap.allFree .onePage) = true := by
    decide +kernel
  obtain ⟨⟨m', h', r⟩, result, stays⟩ := (Option.any_eq_true _ _).mp answered
  obtain ⟨zero, changed⟩ := of_decide_eq_true stays
  dsimp only at zero
  subst zero
  exact changed (all _ _ _ _ _ _ _ result).1

end Orcos.Guarantees.FailedAreas
