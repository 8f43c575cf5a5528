import Mathlib.Logic.Function.Basic
import Orcos.Source.Hal.HatMapping
import Orcos.Lib.Runs

/-!
# The search for free addresses

Source: src/source/arch/ARM/ARMv4T/ARMv7/ARMv7HatLayer.cc, `map` without a logical address.

The first-level entries 1024 to 2047 are the addresses of tasks. From 1 MB on a run of free
entries is looked for; below, a free entry, or free entries of a second-level table.
-/
namespace Orcos.Source.Hal.HatLayer
open Orcos.Lib.Remapping

variable {s : HatLayer} {pid phys size t start table areaSize : Nat} {areaStart : Option Nat}

/-- First-level entries that are free. -/
def FreeRun (s : HatLayer) (pid t count : Nat) : Prop :=
  ∀ j, t ≤ j → j < t + count → s.first pid j = 0

/-- Second-level tables in front of the first free entry have no free entry. -/
def TablesFull (s : HatLayer) (pid : Nat) : Prop :=
  ∀ t, 1024 ≤ t → t < 2048 → (∀ j, 1024 ≤ j → j ≤ t → s.first pid j ≠ 0) →
    typeOf (s.first pid t) ≠ 2 → ∀ i < 256, s.second (tableOf (s.first pid t)) i ≠ 0

/-- What the search of a size finds is what the size needs, if it finds anything. -/
def Suits (s : HatLayer) (pid size : Nat) : Prop :=
  if size ≥ 0x100000 then
    s.first pid 2047 ≠ 0 ∨
      ∃ t count, 1024 ≤ t ∧ t + count ≤ 2048 ∧ size ≤ count * 0x100000 ∧ s.FreeRun pid t count
  else size ≤ 0x1000 ∨ s.TablesFull pid

/-- Addresses of tasks for a size, free and where a page may start. -/
structure Found (s : HatLayer) (pid size start : Nat) : Prop where
  aligned : start % pageSize size = 0
  above : 0x40000000 ≤ start
  below : start + size ≤ 0x80000000
  unmapped : ∀ x, start ≤ x → x < start + size → s.translate pid x = none

/-- Free first-level entries are not translated. -/
theorem found_of_freeRun {count : Nat} (free : s.FreeRun pid t count)
    (enough : size ≤ count * 0x100000)
    (above : 1024 ≤ t) (below : t + count ≤ 2048) : s.Found pid size (t * 0x100000) where
  aligned := aligned_pageSize (Nat.mul_mod_left _ _) size
  above := by omega
  below := by omega
  unmapped x lower upper := translate_fault (free _ (by omega) (by omega))

/-- The state of the search over first-level entries, before entry `t`. -/
structure Area (s : HatLayer) (pid size t : Nat) (areaStart : Option Nat) (areaSize : Nat) :
    Prop where
  area : ∀ start, areaStart = some start → ∃ count, 0 < count ∧ 1024 + count ≤ t ∧
    start = (t - count) * 0x100000 ∧ areaSize = count * 0x100000 ∧ s.FreeRun pid (t - count) count
  longest : ∀ count, 1024 + count ≤ t → s.FreeRun pid (t - count) count →
    count = 0 ∨ areaStart.isSome ∧ count * 0x100000 ≤ areaSize
  short : ∀ j count, 0 < count → 1024 ≤ j → j + count ≤ t → s.FreeRun pid j count →
    count * 0x100000 < size

theorem Area.used (area : s.Area pid size t areaStart areaSize) (used : s.first pid t ≠ 0) :
    s.Area pid size (t + 1) none 0 where
  area _ none_ := nomatch none_
  longest count room free := by
    by_contra more
    exact used (free t (by omega) (by omega))
  short j count positive above room free := by
    by_cases last : j + count ≤ t
    · exact area.short j count positive above last free
    · exact absurd (free t (by omega) (by omega)) used

/-- A free entry continues the area, or starts one. -/
theorem Area.free (area : s.Area pid size t areaStart areaSize) (above : 1024 ≤ t)
    (free : s.first pid t = 0) {start' areaSize' : Nat}
    (next : areaWith t areaStart areaSize = (start', areaSize')) :
    ∃ count, 0 < count ∧ 1024 + count ≤ t + 1 ∧ start' = (t + 1 - count) * 0x100000 ∧
      areaSize' = count * 0x100000 ∧ s.FreeRun pid (t + 1 - count) count ∧
      ∀ more, 1024 + more ≤ t + 1 → s.FreeRun pid (t + 1 - more) more → more ≤ count := by
  have shorter {more : Nat} (run : s.FreeRun pid (t + 1 - more) more) (positive : 0 < more) :
      s.FreeRun pid (t - (more - 1)) (more - 1) := fun j lower upper => run j (by omega) (by omega)
  cases areaStart with
  | none =>
    obtain ⟨rfl, rfl⟩ := Prod.mk.inj next
    refine ⟨1, by decide, by omega, rfl, rfl, fun j lower upper => ?_, fun more room run => ?_⟩
    · have here : j = t := by omega
      rw [here, free]
    · by_contra long
      rcases area.longest (more - 1) (by omega) (shorter run (by omega)) with none_ | ⟨some_, -⟩
      · omega
      · cases some_
  | some start =>
    obtain ⟨rfl, rfl⟩ := Prod.mk.inj next
    obtain ⟨count, positive, room, place, length, run⟩ := area.area _ rfl
    refine ⟨count + 1, by omega, by omega, ?_, ?_, fun j lower upper => ?_,
      fun more room' run' => ?_⟩
    · rw [place, Nat.add_sub_add_right]
    · rw [length, Nat.succ_mul]
    · by_cases here : j = t
      · rw [here, free]
      · exact run j (by omega) (by omega)
    · by_cases none_ : more = 0
      · omega
      · rcases area.longest (more - 1) (by omega) (shorter run' (by omega)) with one | ⟨-, less⟩
        · omega
        · omega

/-- The search over first-level entries finds a run, or there is none that is long enough. -/
theorem findSections_spec (count : Nat) (above : 1024 ≤ t)
    (area : s.Area pid size t areaStart areaSize) :
    (∃ start, s.findSections pid size count t areaStart areaSize = some start ∧
      ∃ j more, start = j * 0x100000 ∧ 1024 ≤ j ∧ j + more ≤ t + count ∧ size ≤ more * 0x100000 ∧
        s.FreeRun pid j more) ∨
    ∃ rest, s.Area pid size (t + count)
      (s.findSections pid size count t areaStart areaSize) rest := by
  induction count generalizing t areaStart areaSize with
  | zero => exact Or.inr ⟨areaSize, area⟩
  | succ count ih =>
    unfold findSections
    by_cases used : s.first pid t ≠ 0
    · rw [if_pos used]
      have rest := ih (Nat.le_succ_of_le above) (area.used used)
      rw [Nat.succ_add] at rest
      exact rest
    · rw [if_neg used]
      obtain ⟨⟨start', areaSize'⟩, next⟩ : ∃ pair, areaWith t areaStart areaSize = pair := ⟨_, rfl⟩
      rw [next]
      obtain ⟨length, positive, room, place, whole, run, longest⟩ :=
        area.free above (not_not.mp used) next
      dsimp only
      by_cases done : areaSize' ≥ size
      · rw [if_pos done]
        exact Or.inl ⟨start', rfl, t + 1 - length, length, place, by omega, by omega, by omega, run⟩
      · rw [if_neg done]
        have area' : s.Area pid size (t + 1) (some start') areaSize' := by
          refine ⟨fun start same => ?_, fun more room' run' => ?_,
            fun j more positive' above' room' run' => ?_⟩
          · cases same
            exact ⟨length, positive, room, place, whole, run⟩
          · have less := longest more room' run'
            exact Or.inr ⟨rfl, by omega⟩
          · by_cases last : j + more ≤ t
            · exact area.short j more positive' above' last run'
            · have less := longest more (by omega) (by
                have same : t + 1 - more = j := by omega
                rw [same]
                exact run')
              omega
        have rest := ih (Nat.le_succ_of_le above) area'
        rw [Nat.succ_add] at rest
        exact rest

theorem area_start (s : HatLayer) (pid size : Nat) : s.Area pid size 1024 none 0 where
  area _ none_ := nomatch none_
  longest count room _ := Or.inl (by omega)
  short j count positive above room _ := by omega

/-- From 1 MB on, what is found is free and long enough, or all of it is too short. -/
theorem findSections_found (large : size ≥ 0x100000) (suits : s.Suits pid size)
    (found : s.findSections pid size 1024 1024 none 0 = some start) : s.Found pid size start := by
  unfold Suits at suits
  rw [if_pos large] at suits
  rcases findSections_spec 1024 (Nat.le_refl _) (area_start s pid size) with
    ⟨start', same, j, count, rfl, above, below, enough, free⟩ | ⟨rest, area⟩
  · rw [found] at same
    cases same
    exact found_of_freeRun free enough above below
  · exfalso
    rcases suits with used | ⟨t, count, above, below, enough, free⟩
    · rw [found] at area
      obtain ⟨count, positive, -, -, -, free⟩ := area.area start rfl
      exact used (free 2047 (by omega) (by omega))
    · have short := area.short t count (by omega) above below free
      omega

theorem findSections_lt (found : s.findSections pid size 1024 1024 none 0 = some start)
    (large : size ≥ 0x100000) : start < 0x80000000 := by
  rcases findSections_spec 1024 (Nat.le_refl _) (area_start s pid size) with
    ⟨start', same, j, count, rfl, above, below, enough, free⟩ | ⟨rest, area⟩
  · rw [found] at same
    cases same
    omega
  · rw [found] at area
    obtain ⟨count, positive, room, rfl, -, -⟩ := area.area start rfl
    omega

theorem findPages_end {i : Nat} (outside : ¬ i < 256) (areaSize : Nat) :
    s.findPages table t phys size i areaStart areaSize = (false, areaStart, areaSize) := by
  rw [findPages, if_neg outside]

/-- A used entry ends the area, and can move the search on. -/
theorem findPages_used {i : Nat} (inside : i < 256) (used : s.second table i ≠ 0) (areaSize : Nat) :
    s.findPages table t phys size i areaStart areaSize =
      if size = 0 then (true, none, 0)
      else s.findPages table t phys size
        ((if size > 0x1000 ∧ phys < 0x10000 then (i + 16) / 16 * 16 else i) + 1) none 0 := by
  rw [findPages, if_pos inside]
  simp only [used, ne_eq, not_false_eq_true, if_true, true_and, ge_iff_le, Nat.le_zero]

/-- A free entry continues the area, or starts one. -/
theorem findPages_free {i : Nat} (inside : i < 256) (free : s.second table i = 0) (areaSize : Nat) :
    s.findPages table t phys size i areaStart areaSize =
      if areaSize + 0x1000 ≥ size then
        (true, some (areaStart.getD (t * 0x100000 + i * 0x1000)), areaSize + 0x1000)
      else s.findPages table t phys size (i + 1)
        (some (areaStart.getD (t * 0x100000 + i * 0x1000))) (areaSize + 0x1000) := by
  rw [findPages, if_pos inside]
  simp only [free, ne_eq, not_true_eq_false, if_false, false_and, Option.or_some]

/-- A search in a second-level table stays in the 1 MB of the table. -/
theorem findPages_lt (below : t < 2048) {i : Nat} {areaStart : Option Nat} {areaSize a : Nat}
    (before : ∀ a, areaStart = some a → a < 0x80000000)
    (found : (s.findPages table t phys size i areaStart areaSize).2.1 = some a) :
    a < 0x80000000 := by
  induction gap : 256 - i using Nat.strong_induction_on generalizing i areaStart areaSize with
  | _ gap ih =>
    by_cases inside : i < 256
    · by_cases free : s.second table i = 0
      · have start : ∀ a, some (areaStart.getD (t * 0x100000 + i * 0x1000)) = some a →
            a < 0x80000000 := by
          rintro a same
          cases areaStart with
          | none =>
            cases same
            simp only [Option.getD_none]
            omega
          | some a => exact before _ same
        rw [findPages_free inside free] at found
        split at found
        · exact start a found
        · exact ih _ (by omega) start found rfl
      · rw [findPages_used inside free] at found
        have nowhere : ∀ a, (none : Option Nat) = some a → a < 0x80000000 := nofun
        split at found
        · cases found
        · refine ih _ ?_ nowhere found rfl
          split <;> omega
    · rw [findPages_end inside] at found
      exact before a found

/-- For a page of 4 KB the first free entry of a table will do. -/
theorem findPages_small (tiny : size ≤ 0x1000) {i : Nat} (areaSize : Nat) :
    (∃ j, j < 256 ∧ s.second table j = 0 ∧ ∃ length,
      s.findPages table t phys size i none areaSize =
        (true, some (t * 0x100000 + j * 0x1000), length)) ∨
    ∃ done length, s.findPages table t phys size i none areaSize = (done, none, length) := by
  induction gap : 256 - i using Nat.strong_induction_on generalizing i areaSize with
  | _ gap ih =>
    by_cases inside : i < 256
    · by_cases free : s.second table i = 0
      · rw [findPages_free inside free, if_pos (by omega)]
        exact Or.inl ⟨i, inside, free, _, rfl⟩
      · rw [findPages_used inside free, if_neg fun both : size > 0x1000 ∧ _ => by omega]
        split
        · exact Or.inr ⟨_, _, rfl⟩
        · exact ih _ (by omega) 0 rfl
    · rw [findPages_end inside]
      exact Or.inr ⟨_, _, rfl⟩

/-- A full table has no area for a page that is larger. -/
theorem findPages_full (full : ∀ i < 256, s.second table i ≠ 0) (larger : size > 0x1000) {i : Nat}
    (areaSize : Nat) :
    ∃ length, s.findPages table t phys size i none areaSize = (false, none, length) := by
  induction gap : 256 - i using Nat.strong_induction_on generalizing i areaSize with
  | _ gap ih =>
    by_cases inside : i < 256
    · rw [findPages_used inside (full i inside), if_neg (by omega)]
      refine ih _ ?_ 0 rfl
      split <;> omega
    · rw [findPages_end inside]
      exact ⟨_, rfl⟩

/-- One step of the search below 1 MB. -/
theorem Sound.findSmall_succ (sound : s.Sound) (count t : Nat) (areaStart : Option Nat) :
    s.findSmall pid phys size (count + 1) t areaStart =
      if s.first pid t = 0 then some (some (t * 0x100000))
      else if typeOf (s.first pid t) = 2 then s.findSmall pid phys size count (t + 1) areaStart
      else
        match s.findPages (tableOf (s.first pid t)) t phys size 0 areaStart 0 with
        | (true, areaStart, _) => some areaStart
        | (false, areaStart, _) => s.findSmall pid phys size count (t + 1) areaStart := by
  rw [findSmall]
  cases sound.entries pid t with
  | fault none_ => simp only [none_, if_true]
  | section_ type looks => simp only [type, looks, if_true]
  | table k known taken memory refers =>
    refine if_congr Iff.rfl rfl (if_congr Iff.rfl rfl ?_)
    exact if_neg (sound.looks_refers refers).2

theorem Sound.findSmall_lt (sound : s.Sound) {count t : Nat} (room : t + count ≤ 2048)
    {areaStart : Option Nat} (before : ∀ a, areaStart = some a → a < 0x80000000)
    (found : s.findSmall pid phys size count t areaStart = some (some start)) :
    start < 0x80000000 := by
  induction count generalizing t areaStart with
  | zero => exact before start (Option.some.inj found)
  | succ count ih =>
    rw [sound.findSmall_succ] at found
    split at found
    · cases found
      omega
    · split at found
      · exact ih (by omega) before found
      · have inside : ∀ a, (s.findPages (tableOf (s.first pid t)) t phys size 0 areaStart 0).2.1 =
            some a → a < 0x80000000 := fun a => findPages_lt (by omega) before
        split at found
        · next result =>
          rw [result] at inside
          exact inside start (Option.some.inj found)
        · next result =>
          rw [result] at inside
          exact ih (by omega) inside found

theorem found_of_entry (above : 1024 ≤ t) (below : t < 2048) (none_ : s.first pid t = 0)
    (small : size ≤ 0x100000) : s.Found pid size (t * 0x100000) := by
  have free : s.FreeRun pid t 1 := fun j lower upper => by
    have here : j = t := by omega
    rw [here, none_]
  exact found_of_freeRun free (by omega) above (by omega)

/-- A free entry of a second-level table is room for 4 KB. -/
theorem Sound.found_of_page (sound : s.Sound) (above : 1024 ≤ t) (below : t < 2048)
    (tiny : size ≤ 0x1000) (used : s.first pid t ≠ 0) (type : typeOf (s.first pid t) ≠ 2) {i : Nat}
    (inside : i < 256) (free : s.second (tableOf (s.first pid t)) i = 0) :
    s.Found pid size (t * 0x100000 + i * 0x1000) where
  aligned := by
    rw [pageSize, if_pos tiny]
    omega
  above := by omega
  below := by omega
  unmapped x lower upper := by
    have entry : x / 0x100000 = t := by omega
    have slot : x / 0x1000 % 256 = i := by omega
    cases sound.entries pid t with
    | fault none_ => exact absurd none_ used
    | section_ other => exact absurd other type
    | table k known taken memory refers =>
      rw [sound.tableOf_refers refers] at free
      rw [sound.translate_inside refers rfl entry, slot, free, pageAddress_zero]

theorem Sound.findSmall_tiny (sound : s.Sound) (tiny : size ≤ 0x1000) {count t : Nat}
    (above : 1024 ≤ t) (room : t + count ≤ 2048)
    (found : s.findSmall pid phys size count t none = some (some start)) :
    s.Found pid size start := by
  induction count generalizing t with
  | zero => cases found
  | succ count ih =>
    rw [sound.findSmall_succ] at found
    by_cases used : s.first pid t = 0
    · rw [if_pos used] at found
      cases found
      exact found_of_entry above (by omega) used (by omega)
    · rw [if_neg used] at found
      by_cases type : typeOf (s.first pid t) = 2
      · rw [if_pos type] at found
        exact ih (by omega) (by omega) found
      · rw [if_neg type] at found
        rcases findPages_small (t := t) tiny
          (i := 0) 0 with ⟨j, inside, free, length, result⟩ | ⟨done, length, result⟩
        · rw [result] at found
          cases found
          exact sound.found_of_page above (by omega) tiny used type inside free
        · rw [result] at found
          cases done with
          | true => cases found
          | false => exact ih (by omega) (by omega) found

theorem Sound.findSmall_full (sound : s.Sound) (larger : size > 0x1000) (small : size ≤ 0x100000)
    (full : s.TablesFull pid) {count t : Nat} (above : 1024 ≤ t) (room : t + count ≤ 2048)
    (before : ∀ j, 1024 ≤ j → j < t → s.first pid j ≠ 0)
    (found : s.findSmall pid phys size count t none = some (some start)) :
    s.Found pid size start := by
  induction count generalizing t with
  | zero => cases found
  | succ count ih =>
    rw [sound.findSmall_succ] at found
    by_cases used : s.first pid t = 0
    · rw [if_pos used] at found
      cases found
      exact found_of_entry above (by omega) used small
    · rw [if_neg used] at found
      have upTo : ∀ j, 1024 ≤ j → j < t + 1 → s.first pid j ≠ 0 := by
        intro j lower upper
        by_cases here : j = t
        · rw [here]
          exact used
        · exact before j lower (by omega)
      by_cases type : typeOf (s.first pid t) = 2
      · rw [if_pos type] at found
        exact ih (by omega) (by omega) upTo found
      · rw [if_neg type] at found
        have entries := full t above (by omega) (fun j lower upper => upTo j lower (by omega)) type
        obtain ⟨length, result⟩ := findPages_full (t := t) entries larger (i := 0) 0
        rw [result] at found
        exact ih (by omega) (by omega) upTo found

/-- What is chosen for a size that suits is free and a place for its pages. -/
theorem Sound.choose_found (sound : s.Sound) (suits : s.Suits pid size)
    (found : s.choose pid phys size = some (some start)) : s.Found pid size start := by
  unfold choose at found
  split at found
  · next large => exact findSections_found large suits (Option.some.inj found)
  · next small =>
    rw [Suits, if_neg small] at suits
    by_cases tiny : size ≤ 0x1000
    · exact sound.findSmall_tiny tiny (Nat.le_refl _) (Nat.le_refl _) found
    · exact sound.findSmall_full (by omega) (by omega) (suits.resolve_left tiny) (Nat.le_refl _)
        (Nat.le_refl _) (fun j lower upper => by omega) found

/-- What is chosen is an address of a task. -/
theorem Sound.choose_lt (sound : s.Sound) (found : s.choose pid phys size = some (some start)) :
    start < 0x80000000 := by
  unfold choose at found
  split at found
  · next large => exact findSections_lt (Option.some.inj found) large
  · have nowhere : ∀ a, (none : Option Nat) = some a → a < 0x80000000 := nofun
    exact sound.findSmall_lt (Nat.le_refl _) nowhere found

end Orcos.Source.Hal.HatLayer

/-! ## Runs of calls

Source: src/source/arch/ARM/ARMv4T/ARMv7/ARMv7HatLayer.cc, `map`, `unmap`, `unmapAll`,
`mapKernel` and the constructor.

An address space is one of the `n` first-level tables that the linker script places.
-/
namespace Orcos.Source.Hal

/-- A call, with the address space it works on. -/
inductive HatCall (n : Nat)
  | map (log phys size : BitVec 32) (rights : Rights) (pid : Fin n)
  | unmap (log : BitVec 32) (pid : Fin n)
  | unmapAll (pid : Fin n)

/-- A mapping that starts on a page of its size. -/
structure Mapping.Placed (m : Mapping) : Prop where
  logical : m.virAddr < 2 ^ 32
  physical : m.phyAddr < 2 ^ 32
  bounded : m.size < 2 ^ 32
  alignedLog : m.virAddr % HatLayer.pageSize m.size = 0
  alignedPhys : m.phyAddr % HatLayer.pageSize m.size = 0

/-- Kernel, RAM and the mappings of the board start on pages. -/
structure Platform.Placed (platform : Platform) : Prop where
  load : platform.loadAddress < 2 ^ 32 ∧ platform.loadAddress % 0x100000 = 0
  inhibit : ∀ start ∈ platform.cacheInhibitStart, start < 2 ^ 32 ∧ start % 0x100000 = 0
  arch : ∀ m ∈ platform.archKernelmappings, m.Placed
  ram : platform.memStart % 0x100000 = 0 ∧
    platform.memStart + platform.numPages * 0x100000 ≤ 2 ^ 32

namespace HatLayer
open Orcos.Lib.Remapping
open Orcos.Lib.WordBits

variable {n : Nat} {platform : Platform} {s s' : HatLayer} {pid q log phys size index : Nat}
  {rights : Rights} {a : Attributes}

/-- The tables after a call; one that waits for the lock changes nothing. -/
def step (platform : Platform) (s : HatLayer) : HatCall n → HatLayer
  | .map log phys size rights pid =>
    ((s.map platform log.toNat phys.toNat size.toNat rights pid).map Prod.fst).getD s
  | .unmap log pid => (s.unmap log.toNat pid).1
  | .unmapAll pid => s.unmapAll platform pid

/-- What no mapping changes. -/
structure SameRest (s s' : HatLayer) : Prop where
  pageTables : s'.pageTables = s.pageTables
  usage : s'.usage = s.usage
  locked : s'.locked = s.locked

theorem SameRest.refl (s : HatLayer) : SameRest s s := ⟨rfl, rfl, rfl⟩

theorem SameRest.trans {s s' s'' : HatLayer} (first : SameRest s s') (second : SameRest s' s'') :
    SameRest s s'' :=
  ⟨second.pageTables.trans first.pageTables, second.usage.trans first.usage,
    second.locked.trans first.locked⟩

theorem sameRest_fill (table entry count : Nat) : SameRest s (s.fill table index entry count) := by
  induction count with
  | zero => exact .refl s
  | succ n ih => exact ih.trans ⟨rfl, rfl, rfl⟩

theorem sameRest_writePage (table : Nat) : SameRest s (s.writePage table log phys size a) := by
  unfold writePage
  split
  · exact ⟨rfl, rfl, rfl⟩
  · exact sameRest_fill _ _ _

theorem sameRest_pageTableFor {table : Nat} (found : s.pageTableFor pid index = some (s', table)) :
    SameRest s s' := by
  unfold pageTableFor at found
  dsimp only at found
  split at found
  · cases found
  · split at found
    · split at found
      · cases found
      · cases found
        exact ⟨rfl, rfl, rfl⟩
    · split at found
      · cases found
      · cases found
        exact .refl s

theorem sameRest_createPT (s : HatLayer) (platform : Platform) (log phys size : Nat)
    (rights : Rights) (pid : Nat) :
    SameRest s (s.createPT platform log phys size rights pid).1 := by
  refine createPT_induct platform (motive := fun s _ _ _ after => SameRest s after)
    ?_ ?_ ?_ ?_ s log phys size
  · intro s log phys size small found
    exact .refl s
  · intro s after table log phys size small found
    exact (sameRest_pageTableFor found).trans (sameRest_writePage table)
  · intro s log phys size large one
    exact ⟨rfl, rfl, rfl⟩
  · intro s after log phys size several behind
    have first : SameRest s (s.setFirst pid (log / 0x100000)
        (sectionEntry (attributes platform.dcacheEnable rights) phys)) := ⟨rfl, rfl, rfl⟩
    exact first.trans behind

theorem pageTableFor_other {table : Nat} (found : s.pageTableFor pid index = some (s', table))
    (other : q ≠ pid) : s'.first q = s.first q := by
  unfold pageTableFor at found
  dsimp only at found
  split at found
  · cases found
  · split at found
    · split at found
      · cases found
      · cases found
        funext j
        rw [setFirst_first, if_neg fun both => other both.1]
    · split at found
      · cases found
      · cases found
        rfl

/-- Other address spaces keep their first-level tables. -/
theorem createPT_first_other (s : HatLayer) (platform : Platform) (log phys size : Nat)
    (rights : Rights) (other : q ≠ pid) :
    (s.createPT platform log phys size rights pid).1.first q = s.first q := by
  have sections (s : HatLayer) (index entry : Nat) : (s.setFirst pid index entry).first q =
      s.first q := by
    funext j
    rw [setFirst_first, if_neg fun both => other both.1]
  apply createPT_induct platform (motive := fun s _ _ _ after => after.first q = s.first q)
  · intro s log phys size small found
    rfl
  · intro s after table log phys size small found
    rw [(writePage_constants table).1, pageTableFor_other found other]
  · intro s log phys size large one
    rw [sections]
  · intro s after log phys size several behind
    rw [behind, sections]

/-- The search always comes to its end. -/
theorem Sound.findSmall_ne_none (sound : s.Sound) (count t : Nat) (areaStart : Option Nat) :
    s.findSmall pid phys size count t areaStart ≠ none := by
  induction count generalizing t areaStart with
  | zero => exact Option.some_ne_none _
  | succ count ih =>
    rw [findSmall]
    cases sound.entries pid t with
    | fault none_ => simp [none_]
    | section_ type looks =>
      have used : s.first pid t ≠ 0 := by
        intro none_
        rw [none_] at type
        cases type
      simp only [used, type, if_false, if_true]
      exact ih _ _
    | table k known taken memory refers =>
      have used : s.first pid t ≠ 0 := by omega
      obtain ⟨type, looks⟩ := sound.looks_refers refers
      simp only [used, looks, type, if_false]
      split
      · exact Option.some_ne_none _
      · exact ih _ _

theorem Sound.choose_ne_none (sound : s.Sound) : s.choose pid phys size ≠ none := by
  unfold choose
  split
  · exact Option.some_ne_none _
  · exact sound.findSmall_ne_none _ _ _

/-- A choosing call with a free lock finds nothing, or maps what it found. -/
theorem Sound.mapAnywhere_eq (sound : s.Sound) (unlocked : s.locked = false) (phys : Nat) :
    (s.choose pid phys size = some none ∧
      s.mapAnywhere platform phys size rights pid = some (s, 0)) ∨
    ∃ areaStart, s.choose pid phys size = some (some areaStart) ∧
      s.mapAnywhere platform phys size rights pid =
        some (s.createPT platform areaStart phys size rights pid) := by
  unfold mapAnywhere
  rw [unlocked]
  cases found : s.choose pid phys size with
  | none => exact absurd found sound.choose_ne_none
  | some area =>
    cases area with
    | none => exact Or.inl ⟨rfl, rfl⟩
    | some areaStart => exact Or.inr ⟨areaStart, rfl, rfl⟩

theorem sameRest_unmap (log pid : Nat) : SameRest s (s.unmap log pid).1 := by
  unfold unmap
  dsimp only
  split
  · exact ⟨rfl, rfl, rfl⟩
  · split
    · exact .refl s
    · split
      · exact sameRest_fill _ _ _
      · exact ⟨rfl, rfl, rfl⟩

theorem unmap_ids (log pid : Nat) : (s.unmap log pid).1.freeSubPages = s.freeSubPages := by
  unfold unmap
  dsimp only
  split
  · rfl
  · split
    · rfl
    · split
      · exact (fill_constants _ _).2
      · rfl

section Kernel

variable {mappings : List Mapping}

theorem mapAll_cons (m : Mapping) (mappings : List Mapping) :
    s.mapAll platform (m :: mappings) pid =
      (s.createPT platform m.virAddr m.phyAddr m.size
        ⟨m.protection, m.cacheMode, false⟩ pid).1.mapAll
        platform mappings pid := rfl

theorem sameRest_mapAll : SameRest s (s.mapAll platform mappings pid) := by
  induction mappings generalizing s with
  | nil => exact .refl s
  | cons m mappings ih => exact (sameRest_createPT s platform _ _ _ _ pid).trans ih

theorem Sound.mapAll (sound : s.Sound) : (s.mapAll platform mappings pid).Sound := by
  induction mappings generalizing s with
  | nil => exact sound
  | cons m mappings ih => exact ih (sound.createPT _ _)

theorem Sound.mapAll_other (sound : s.Sound) (other : q ≠ pid) :
    (s.mapAll platform mappings pid).translate q = s.translate q := by
  induction mappings generalizing s with
  | nil => rfl
  | cons m mappings ih =>
    rw [mapAll_cons, ih (sound.createPT _ _), sound.createPT_other _ _ other]

theorem mapAll_first_other (other : q ≠ pid) :
    (s.mapAll platform mappings pid).first q = s.first q := by
  induction mappings generalizing s with
  | nil => rfl
  | cons m mappings ih => rw [mapAll_cons, ih, createPT_first_other _ _ _ _ _ _ other]

/-- What an address is translated to comes from a mapping, or was there. -/
theorem Sound.mapAll_origin (sound : s.Sound) (placed : ∀ m ∈ mappings, m.Placed) {x y : Nat}
    (inside : x < 2 ^ 32) (mapped : (s.mapAll platform mappings pid).translate pid x = some y) :
    (∃ m ∈ mappings, ∃ k < extent m.size, x = (m.virAddr + k) % 2 ^ 32 ∧
      y = (m.phyAddr + k) % 2 ^ 32) ∨ s.translate pid x = some y := by
  induction mappings generalizing s with
  | nil => exact Or.inr mapped
  | cons m mappings ih =>
    rw [mapAll_cons] at mapped
    rcases ih (sound.createPT _ _)
      (fun m later => placed m (List.mem_cons_of_mem _ later)) mapped with
      ⟨m', later, found⟩ | before
    · exact Or.inl ⟨m', List.mem_cons_of_mem _ later, found⟩
    · have here := placed m List.mem_cons_self
      have remaps := sound.createPT_remaps here.logical here.physical here.bounded
        here.alignedLog here.alignedPhys platform ⟨m.protection, m.cacheMode, false⟩ pid
      rcases remaps.origin inside before with ⟨k, below, found⟩ | before
      · refine Or.inl ⟨m, List.mem_cons_self, k, Nat.lt_of_lt_of_le below ?_, found⟩
        split
        · exact Nat.le_refl _
        · exact Nat.le_add_right _ _
      · exact Or.inr before

/-- Besides the mappings of the board, the kernel maps sections to themselves. -/
theorem kernelMappings_cases {m : Mapping} (member : m ∈ s.kernelMappings platform) :
    m ∈ platform.archKernelmappings ∨ ∃ start protection cacheMode,
      m = ⟨start, start, 0x100000, protection, cacheMode⟩ ∧
        (start = platform.loadAddress ∨ start ∈ platform.cacheInhibitStart ∨
          start = s.pageTables ∨
          ∃ i < platform.numPages, start = platform.memStart + i * 0x100000) := by
  simp only [kernelMappings, List.cons_append, List.mem_cons, List.mem_append, List.mem_map,
    Option.mem_toList, List.mem_range] at member
  rcases member with rfl | (((⟨start, given, rfl⟩ | remap) | arch) | ⟨i, page, rfl⟩) | remap
  · exact .inr ⟨_, _, _, rfl, .inl rfl⟩
  · exact .inr ⟨_, _, _, rfl, .inr (.inl given)⟩
  · split at remap
    · rw [List.mem_singleton.mp remap]
      exact .inr ⟨_, _, _, rfl, .inr (.inr (.inl rfl))⟩
    · cases remap
  · exact .inl arch
  · exact .inr ⟨_, _, _, rfl, .inr (.inr (.inr ⟨i, page, rfl⟩))⟩
  · split at remap
    · rw [List.mem_singleton.mp remap]
      exact .inr ⟨_, _, _, rfl, .inr (.inr (.inl rfl))⟩
    · cases remap

/-- The kernel's own mappings start on pages. -/
theorem Sound.kernelMappings_placed (sound : s.Sound) (below : s.pageTables < 2 ^ 32)
    (placed : platform.Placed) : ∀ m ∈ s.kernelMappings platform, m.Placed := by
  intro m member
  rcases kernelMappings_cases member with arch | ⟨start, protection, cacheMode, rfl, which⟩
  · exact placed.arch m arch
  · have page : start < 2 ^ 32 ∧ start % 0x100000 = 0 := by
      rcases which with rfl | given | rfl | ⟨i, page, rfl⟩
      · exact placed.load
      · exact placed.inhibit start given
      · exact ⟨below, sound.aligned⟩
      · have ram := placed.ram
        omega
    exact ⟨page.1, page.1, (by decide : 0x100000 < 2 ^ 32), aligned_pageSize page.2 _,
      aligned_pageSize page.2 _⟩

theorem Sound.clearFirst (sound : s.Sound) (pid : Nat) : (s.clearFirst pid).Sound where
  aligned := sound.aligned
  ids := sound.ids
  known := sound.known
  entries q j := by
    by_cases cleared : q = pid ∧ j < 4096
    · exact .fault (if_pos cleared)
    · have same : (s.clearFirst pid).first q j = s.first q j := if_neg cleared
      rw [same]
      cases sound.entries q j with
      | fault none_ => exact .fault none_
      | section_ type looks => exact .section_ type looks
      | table k known taken memory refers => exact .table k known taken memory refers
  alone p i q j k refers same := by
    have entry {q j : Nat} (refers : (s.clearFirst pid).first q j = s.tableAt k + 1) :
        s.first q j = s.tableAt k + 1 := by
      simp only [HatLayer.clearFirst] at refers
      split at refers
      · cases refers
      · exact refers
    exact sound.alone p i q j k (entry refers) (entry same)
  fresh := sound.fresh

theorem clearFirst_translate {x : Nat} (inside : x < 2 ^ 32) :
    (s.clearFirst pid).translate pid x = none :=
  translate_fault (if_pos ⟨rfl, by omega⟩)

theorem clearFirst_other (other : q ≠ pid) : (s.clearFirst pid).translate q = s.translate q := by
  funext x
  exact translate_congr (if_neg fun both => other both.1) fun _ => rfl

/-- Nothing is freed while the usage table gives no table to the address space. -/
theorem freeTables_eq {count : Nat} (none_ : ∀ i < count, s.usage i ≠ pid) :
    s.freeTables pid count = s := by
  induction count with
  | zero => rfl
  | succ n ih =>
    rw [freeTables, ih fun i less => none_ i (Nat.lt_succ_of_lt less)]
    exact if_neg (none_ n (Nat.lt_succ_self n))

/-- While the usage table is blank, `unmapAll` clears the first-level table only. -/
theorem unmapAll_eq (unattributed : ∀ i < 1023, s.usage i = 255) (space : pid < 255) :
    s.unmapAll platform pid =
      (s.clearFirst pid).mapAll platform (s.kernelMappings platform) pid := by
  have none_ : ∀ i < 1023, (s.clearFirst pid).usage i ≠ pid := by
    intro i below
    have usage : (s.clearFirst pid).usage i = 255 := unattributed i below
    omega
  rw [unmapAll, freeTables_eq none_, ite_self]
  rfl

end Kernel

/-- Every state between calls: nobody holds the lock, and the usage table is as the constructor
left it. -/
structure Between (s : HatLayer) : Prop where
  sound : s.Sound
  unlocked : s.locked = false
  unattributed : ∀ i < 1023, s.usage i = 255

theorem Between.of_sameRest (between : s.Between) (same : SameRest s s') (sound : s'.Sound) :
    s'.Between :=
  ⟨sound, same.locked.trans between.unlocked, fun i below => by
    rw [same.usage, between.unattributed i below]⟩

theorem Between.createPT (between : s.Between) (platform : Platform) (log phys size : Nat)
    (rights : Rights) (pid : Nat) :
    (s.createPT platform log phys size rights pid).1.Between :=
  between.of_sameRest (sameRest_createPT s platform _ _ _ _ pid) (between.sound.createPT _ _)

theorem Between.unmap (between : s.Between) (log pid : Nat) : (s.unmap log pid).1.Between :=
  between.of_sameRest (sameRest_unmap _ _) (between.sound.unmap _ _)

theorem Between.unmapAll (between : s.Between) (platform : Platform) (space : pid < 255) :
    (s.unmapAll platform pid).Between := by
  have cleared : (s.clearFirst pid).Between :=
    ⟨between.sound.clearFirst pid, between.unlocked, between.unattributed⟩
  rw [unmapAll_eq between.unattributed space]
  exact cleared.of_sameRest sameRest_mapAll cleared.sound.mapAll

/-- `map` finds nothing, or maps at the address that it was given or found. -/
theorem Between.map_cases (between : s.Between) (log phys size : Nat) (rights : Rights)
    (pid : Nat) :
    (s.map platform log phys size rights pid = some (s, 0) ∧ log = 0 ∧
      s.choose pid phys size = some none) ∨
    ∃ start, s.map platform log phys size rights pid =
        some (s.createPT platform start phys size rights pid) ∧
      (log ≠ 0 ∧ start = log ∨ log = 0 ∧ s.choose pid phys size = some (some start)) := by
  unfold map
  by_cases given : log = 0
  · rw [if_neg (not_not.mpr given)]
    rcases between.sound.mapAnywhere_eq between.unlocked phys with ⟨none_, eq⟩ | ⟨start, found, eq⟩
    · exact Or.inl ⟨eq, given, none_⟩
    · exact Or.inr ⟨start, eq, Or.inr ⟨given, found⟩⟩
  · exact Or.inr ⟨log, if_pos given, Or.inl ⟨given, rfl⟩⟩

theorem Between.step (between : s.Between) (spaces : n ≤ 255) (call : HatCall n) :
    (s.step platform call).Between := by
  cases call with
  | map log phys size rights pid =>
    simp only [HatLayer.step]
    rcases between.map_cases log.toNat phys.toNat size.toNat rights pid with
      ⟨eq, -⟩ | ⟨start, eq, -⟩
    · rw [eq]
      exact between
    · rw [eq]
      exact between.createPT _ _ _ _ _ _
  | unmap log pid => exact between.unmap _ _
  | unmapAll pid => exact between.unmapAll platform (by omega)

theorem between_construct (platform : Platform) (beyond : BitVec 32) {pageTables : Nat}
    (aligned : pageTables % 0x100000 = 0) (spaces : Nat) :
    (construct platform beyond pageTables spaces).Between := by
  unfold construct
  induction spaces with
  | zero =>
    exact ⟨sound_blank beyond aligned, rfl, fun i below => if_pos below⟩
  | succ pid ih => exact ih.of_sameRest sameRest_mapAll ih.sound.mapAll

end HatLayer

end Orcos.Source.Hal

/-! ## Several callers of the choosing `map`

Source: src/source/arch/ARM/ARMv4T/ARMv7/ARMv7HatLayer.cc, `map` without a logical address.

The lock is held during the search. It is released before `createPT` is entered, which takes
no lock, as the other calls do not. A step is one of these parts, or a whole other call.
-/
namespace Orcos.Source.Hal
open HatLayer

structure Request (n : Nat) where
  phys : BitVec 32
  size : BitVec 32
  rights : Rights
  pid : Fin n

/-- Where a caller is. -/
inductive MapPhase (n : Nat)
  | away
  | waiting (request : Request n)
  | searching (request : Request n)
  | chosen (request : Request n) (areaStart : Nat)

/-- What a call returned, with the tables before and after its last part. -/
structure Answer (n : Nat) where
  request : Request n
  result : Nat
  before : HatLayer
  after : HatLayer

structure MapCallers (τ : Type) (n : Nat) where
  layer : HatLayer
  phase : τ → MapPhase n
  answers : List (Answer n)

inductive MapStep (τ : Type) (n : Nat)
  | call (caller : τ) (request : Request n)
  | acquire (caller : τ)
  | search (caller : τ)
  | create (caller : τ)
  | other (call : HatCall n)

namespace MapCallers

variable {τ : Type} [DecidableEq τ] {n : Nat} (platform : Platform) (s : MapCallers τ n)

def setPhase (caller : τ) (phase : MapPhase n) : MapCallers τ n :=
  { s with phase := Function.update s.phase caller phase }

def setLayer (layer : HatLayer) : MapCallers τ n := { s with layer := layer }

/-- Nobody has called yet. -/
def start (layer : HatLayer) : MapCallers τ n := ⟨layer, fun _ => .away, []⟩

/-- A call returns. -/
def answer (caller : τ) (request : Request n) (result : Nat) (layer : HatLayer) : MapCallers τ n :=
  { (s.setPhase caller .away).setLayer layer with
    answers := ⟨request, result, s.layer, layer⟩ :: s.answers }

/-- The search, and the release of the lock behind it. -/
def search (caller : τ) (request : Request n) : MapCallers τ n :=
  match s.layer.choose request.pid request.phys.toNat request.size.toNat with
  | none => s.answer caller request 0 s.layer
  | some none => s.answer caller request 0 { s.layer with locked := false }
  | some (some areaStart) =>
    (s.setLayer { s.layer with locked := false }).setPhase caller (.chosen request areaStart)

def create (caller : τ) (request : Request n) (areaStart : Nat) : MapCallers τ n :=
  let after := s.layer.createPT platform areaStart request.phys.toNat request.size.toNat
    request.rights request.pid
  s.answer caller request after.2 after.1

/-- A whole call; one without a logical address goes through the parts instead. -/
def other : HatCall n → MapCallers τ n
  | .map log phys size rights pid =>
    if log.toNat = 0 then s
    else s.setLayer (s.layer.step platform (.map log phys size rights pid))
  | .unmap log pid => s.setLayer (s.layer.step platform (.unmap log pid))
  | .unmapAll pid => s.setLayer (s.layer.step platform (.unmapAll pid))

def step (platform : Platform) (s : MapCallers τ n) : MapStep τ n → MapCallers τ n
  | .call caller request =>
    match s.phase caller with
    | .away => s.setPhase caller (.waiting request)
    | _ => s
  | .acquire caller =>
    match s.phase caller with
    | .waiting request =>
      if s.layer.locked then s
      else (s.setLayer { s.layer with locked := true }).setPhase caller (.searching request)
    | _ => s
  | .search caller =>
    match s.phase caller with
    | .searching request => s.search caller request
    | _ => s
  | .create caller =>
    match s.phase caller with
    | .chosen request areaStart => s.create platform caller request areaStart
    | _ => s
  | .other call => s.other platform call

end MapCallers

end Orcos.Source.Hal
