import Orcos.Source.Hal.HatLayer

/-!
# First-level entries and the tables they refer to

Source: src/source/arch/ARM/ARMv4T/ARMv7/ARMv7HatLayer.cc, `createPT`, `unmap`.

The second-level tables lie behind each other in the block from `alloc_physical`, a free ID
stands for one that no entry refers to and that holds nothing.
-/
namespace Orcos.Source.Hal.HatLayer
open Orcos.Lib.Remapping
open Orcos.Lib.WordBits

/-- What a first-level entry can be. -/
inductive Entry (s : HatLayer) (entry : Nat) : Prop
  | fault (none_ : entry = 0)
  | section_ (type : typeOf entry = 2) (looks : tableOf entry ≠ 0)
  | table (k : Nat) (known : k < 1023) (taken : bit s.freeSubPages.map k = false)
      (memory : s.pageTables ≠ 0) (refers : entry = s.tableAt k + 1)

/-- The invariant of the tables, between calls. -/
structure Sound (s : HatLayer) : Prop where
  aligned : s.pageTables % 0x100000 = 0
  ids : s.freeSubPages.ids = 1023
  known : ∀ k, bit s.freeSubPages.map k = true → k < 1023
  entries : ∀ pid index, s.Entry (s.first pid index)
  alone : ∀ pid index q j k, s.first pid index = s.tableAt k + 1 → s.first q j = s.tableAt k + 1 →
    q = pid ∧ j = index
  fresh : ∀ k, bit s.freeSubPages.map k = true → ∀ j, s.second (s.tableAt k) j = 0

/-- A page below 1 MB finds a second-level table. -/
def Room (s : HatLayer) (pid index : Nat) : Prop :=
  s.pageTables ≠ 0 ∧ typeOf (s.first pid index) ≠ 2 ∧
    (s.first pid index ≠ 0 ∨ (firstSet s.freeSubPages.map).isSome)

instance (s : HatLayer) (pid index : Nat) : Decidable (s.Room pid index) :=
  inferInstanceAs (Decidable (_ ∧ _))

/-- The size of the page that `createPT` takes for a size. -/
def pageSize (size : Nat) : Nat :=
  if size ≤ 0x1000 then 0x1000 else if size ≤ 0x10000 then 0x10000 else 0x100000

variable {s s' : HatLayer} {pid q index table k j log phys size x : Nat} {a : Attributes}

theorem tableAt_injective (same : s.tableAt j = s.tableAt k) : j = k := by
  simp only [tableAt] at same
  omega

theorem Sound.tableOf_tableAt (sound : s.Sound) (k : Nat) :
    tableOf (s.tableAt k) = s.tableAt k := by
  have aligned := sound.aligned
  simp only [tableOf, tableAt]
  omega

theorem Sound.tableOf_refers (sound : s.Sound) (refers : s.first pid index = s.tableAt k + 1) :
    tableOf (s.first pid index) = s.tableAt k := by
  have aligned := sound.aligned
  rw [refers]
  simp only [tableOf, tableAt]
  omega

theorem Sound.typeOf_refers (sound : s.Sound) (refers : s.first pid index = s.tableAt k + 1) :
    typeOf (s.first pid index) = 1 := by
  have aligned := sound.aligned
  rw [refers]
  simp only [typeOf, tableAt]
  omega

/-- The entry of a table is neither a section nor without an address. -/
theorem Sound.looks_refers (sound : s.Sound) (refers : s.first pid index = s.tableAt k + 1) :
    typeOf (s.first pid index) ≠ 2 ∧ tableOf (s.first pid index) ≠ 0 := by
  rw [sound.typeOf_refers refers, sound.tableOf_refers refers, tableAt]
  omega

/-- An entry of type 1 refers to a table. -/
theorem Sound.refers_of_type (sound : s.Sound) (type : typeOf (s.first pid index) = 1) :
    ∃ k, s.first pid index = s.tableAt k + 1 := by
  cases sound.entries pid index with
  | fault none_ =>
    rw [none_, typeOf_zero] at type
    cases type
  | section_ other =>
    rw [other] at type
    cases type
  | table k _ _ _ refers => exact ⟨k, refers⟩

/-- The table of an entry is not free. -/
theorem Sound.taken (sound : s.Sound) (refers : s.first pid index = s.tableAt k + 1) :
    bit s.freeSubPages.map k = false := by
  cases sound.entries pid index with
  | fault none_ =>
    rw [none_] at refers
    cases refers
  | section_ other =>
    rw [sound.typeOf_refers refers] at other
    cases other
  | table j _ taken _ same =>
    rw [tableAt_injective (s := s) (Nat.succ.inj (same.symm.trans refers))] at taken
    exact taken

/-- The search for a table finds one where there is room. -/
theorem Sound.pageTableFor_isSome (sound : s.Sound) :
    (s.pageTableFor pid index).isSome ↔ s.Room pid index := by
  unfold pageTableFor Room
  by_cases memory : s.pageTables = 0
  · simp [memory]
  · cases sound.entries pid index with
    | fault none_ =>
      cases first : firstSet s.freeSubPages.map with
      | none => simp [memory, none_, IDMap.getNextID_none first]
      | some k =>
        have found : ((k : Int) = -1) = False := by
          rw [eq_iff_iff, iff_false]
          omega
        simp [memory, none_, IDMap.getNextID_some first, found]
    | section_ type looks => simp [memory, type, looks]
    | table k _ _ _ refers =>
      obtain ⟨type, looks⟩ := sound.looks_refers refers
      have used : s.first pid index ≠ 0 := by omega
      simp [memory, type, looks, used]

theorem Sound.setSecond (sound : s.Sound) (taken : bit s.freeSubPages.map k = false)
    (j entry : Nat) : (s.setSecond (s.tableAt k) j entry).Sound where
  aligned := sound.aligned
  ids := sound.ids
  known := sound.known
  entries pid index := by
    cases sound.entries pid index with
    | fault none_ => exact .fault none_
    | section_ type looks => exact .section_ type looks
    | table k known taken memory refers => exact .table k known taken memory refers
  alone := sound.alone
  fresh i free index := by
    have other : i ≠ k := by
      rintro rfl
      exact Bool.false_ne_true (taken.symm.trans free)
    rw [setSecond_second, if_neg fun both => other (tableAt_injective both.1)]
    exact sound.fresh i free index

theorem fill_constants (entry count : Nat) :
    (s.fill table index entry count).pageTables = s.pageTables ∧
      (s.fill table index entry count).freeSubPages = s.freeSubPages := by
  induction count with
  | zero => exact ⟨rfl, rfl⟩
  | succ n ih => exact ih

theorem Sound.fill (sound : s.Sound) (taken : bit s.freeSubPages.map k = false)
    (index entry count : Nat) : (s.fill (s.tableAt k) index entry count).Sound := by
  induction count with
  | zero => exact sound
  | succ n ih =>
    obtain ⟨memory, ids⟩ := fill_constants (s := s) entry n
    have place : s.tableAt k = (s.fill (s.tableAt k) index entry n).tableAt k :=
      congrArg (· + 1024 * (k + 1)) memory.symm
    have step := ih.setSecond (k := k) (by rw [ids, taken]) (index + n) entry
    rw [← place] at step
    exact step

/-- A first-level entry that refers to no table. -/
theorem Sound.setFirst (sound : s.Sound) {entry : Nat}
    (plain : entry = 0 ∨ typeOf entry = 2 ∧ tableOf entry ≠ 0) :
    (s.setFirst pid index entry).Sound where
  aligned := sound.aligned
  ids := sound.ids
  known := sound.known
  entries q j := by
    rw [setFirst_first]
    split
    · rcases plain with none_ | ⟨type, looks⟩
      · exact .fault none_
      · exact .section_ type looks
    · cases sound.entries q j with
      | fault none_ => exact .fault none_
      | section_ type looks => exact .section_ type looks
      | table k known taken memory refers => exact .table k known taken memory refers
  alone p i q j k refers same := by
    have aligned := sound.aligned
    have other : entry ≠ s.tableAt k + 1 := by
      intro equal
      rw [equal] at plain
      simp only [typeOf, tableAt] at plain
      omega
    rw [setFirst_first] at refers same
    split at refers
    · exact absurd refers other
    · split at same
      · exact absurd same other
      · exact sound.alone p i q j k refers same
  fresh := sound.fresh

/-- A free table, taken for an entry. -/
def take (s : HatLayer) (pid index k : Nat) : HatLayer :=
  { s with freeSubPages := { s.freeSubPages with map := clearBit s.freeSubPages.map k } }.setFirst
    pid index (s.tableAt k + 1)

section Take

variable (sound : s.Sound) (none_ : s.first pid index = 0) (free : bit s.freeSubPages.map k = true)

theorem take_first (q j : Nat) : (s.take pid index k).first q j =
    if q = pid ∧ j = index then s.tableAt k + 1 else s.first q j := rfl

include free in
theorem take_bit (i : Nat) :
    bit (s.take pid index k).freeSubPages.map i = (!decide (i = k) && bit s.freeSubPages.map i) :=
  bit_clearBit (inside_of_bit free) i

include sound free in
/-- No entry refers to a free table. -/
theorem Sound.not_refers (q j : Nat) : s.first q j ≠ s.tableAt k + 1 :=
  fun refers => Bool.false_ne_true ((sound.taken refers).symm.trans free)

include sound free in
theorem Sound.take (memory : s.pageTables ≠ 0) : (s.take pid index k).Sound where
  aligned := sound.aligned
  ids := sound.ids
  known i set := by
    rw [take_bit free, Bool.and_eq_true] at set
    exact sound.known i set.2
  entries q j := by
    rw [take_first]
    split
    · exact .table k (sound.known k free) (by simp [take_bit free]) memory rfl
    · cases sound.entries q j with
      | fault none_ => exact .fault none_
      | section_ type looks => exact .section_ type looks
      | table i known taken memory refers =>
        exact .table i known (by simp [take_bit free, taken]) memory refers
  alone p i q j l refers same := by
    change _ = s.tableAt l + 1 at refers same
    rw [take_first] at refers same
    split at refers
    · next here =>
      have table : k = l := tableAt_injective (Nat.succ.inj refers)
      subst table
      split at same
      · next there => exact ⟨there.1.trans here.1.symm, there.2.trans here.2.symm⟩
      · exact absurd same (sound.not_refers free q j)
    · split at same
      · have table : k = l := tableAt_injective (Nat.succ.inj same)
        subst table
        exact absurd refers (sound.not_refers free p i)
      · exact sound.alone p i q j l refers same
  fresh i set := by
    rw [take_bit free, Bool.and_eq_true] at set
    exact sound.fresh i set.2

include sound none_ free in
/-- An empty table translates nothing. -/
theorem Sound.take_translate (q : Nat) : (s.take pid index k).translate q = s.translate q := by
  funext x
  by_cases here : q = pid ∧ x / 0x100000 = index
  · obtain ⟨rfl, rfl⟩ := here
    have aligned := sound.aligned
    have entry : (s.take q (x / 0x100000) k).first q (x / 0x100000) = s.tableAt k + 1 := by
      rw [take_first, if_pos ⟨rfl, rfl⟩]
    have type : typeOf (s.tableAt k + 1) = 1 := by
      simp only [typeOf, tableAt]
      omega
    have table : tableOf (s.tableAt k + 1) = s.tableAt k := by
      simp only [tableOf, tableAt]
      omega
    have blank : (s.take q (x / 0x100000) k).second (s.tableAt k) (x / 0x1000 % 256) = 0 :=
      sound.fresh k free _
    rw [translate_fault none_, translate_table (by rw [entry, type]), entry, table, blank,
      pageAddress_zero]
  · refine translate_congr ?_ fun _ => rfl
    rw [take_first, if_neg here]

end Take

/-- A first-level entry has its table, or gets one; nothing is translated differently. -/
theorem Sound.pageTableFor_spec (sound : s.Sound)
    (found : s.pageTableFor pid index = some (s', table)) :
    s'.Sound ∧ s'.translate = s.translate ∧
      ∃ k, table = s'.tableAt k ∧ s'.first pid index = s'.tableAt k + 1 := by
  have room := sound.pageTableFor_isSome.mp (Option.isSome_of_mem found)
  have memory := room.1
  unfold pageTableFor at found
  rw [if_neg memory] at found
  cases sound.entries pid index with
  | fault none_ =>
    cases first : firstSet s.freeSubPages.map with
    | none => simp [none_, IDMap.getNextID_none first] at found
    | some k =>
      have free := (firstSet_eq_some first).1
      have given : ¬ (k : Int) = -1 := by omega
      simp only [none_, tableOf_zero, IDMap.getNextID_some first, if_true, given, if_false,
        Int.toNat_natCast, sound.tableOf_tableAt] at found
      cases found
      refine ⟨sound.take free memory, funext fun q => sound.take_translate none_ free q, k, rfl, ?_⟩
      exact if_pos ⟨rfl, rfl⟩
  | section_ type looks => simp [type, looks] at found
  | table k known taken memory refers =>
    obtain ⟨type, looks⟩ := sound.looks_refers refers
    simp only [looks, type, if_false] at found
    cases found
    exact ⟨sound, rfl, k, sound.tableOf_refers refers, refers⟩

section Table

variable (sound : s.Sound) (refers : s.first pid index = s.tableAt k + 1)
  (first : s'.first = s.first)

include sound refers first in
/-- An address below the entry of a table is translated by that table. -/
theorem Sound.translate_inside (here : x / 0x100000 = index) :
    s'.translate pid x = pageAddress (s'.second (s.tableAt k) (x / 0x1000 % 256)) x := by
  subst here
  have entry : s'.first pid (x / 0x100000) = s.first pid (x / 0x100000) := by rw [first]
  rw [translate_table (by rw [entry, sound.typeOf_refers refers]), entry,
    sound.tableOf_refers refers]

include sound refers first in
/-- What changes in one table changes no translation elsewhere. -/
theorem Sound.translate_elsewhere
    (second : ∀ t j, t ≠ s.tableAt k → s'.second t j = s.second t j)
    (elsewhere : ¬ (q = pid ∧ x / 0x100000 = index)) : s'.translate q x = s.translate q x := by
  refine translate_congr (by rw [first]) fun type => second _ _ fun same => elsewhere ?_
  obtain ⟨i, other⟩ := sound.refers_of_type type
  rw [sound.tableOf_refers other] at same
  rw [same] at other
  exact sound.alone pid index q _ k refers other

end Table

section Page

variable {entry size : Nat} {slot : Nat → Prop} [DecidablePred slot] (sound : s.Sound)
  (refers : s.first pid (log / 0x100000) = s.tableAt k + 1) (first : s'.first = s.first)
  (second : ∀ t j, s'.second t j = if t = s.tableAt k ∧ slot j then entry else s.second t j)

include sound refers first second in
/-- Entries for one page change what its addresses are translated to. -/
theorem Sound.translate_page
    (slots : ∀ x, x / size = log / size ↔
      x / 0x100000 = log / 0x100000 ∧ slot (x / 0x1000 % 256)) (x : Nat) :
    s'.translate pid x =
      if x / size = log / size then pageAddress entry x else s.translate pid x := by
  by_cases here : x / 0x100000 = log / 0x100000
  · rw [sound.translate_inside refers first here, second]
    by_cases inside : slot (x / 0x1000 % 256)
    · rw [if_pos ⟨rfl, inside⟩, if_pos ((slots x).mpr ⟨here, inside⟩)]
    · rw [if_neg fun both => inside both.2, if_neg fun same => inside ((slots x).mp same).2,
        sound.translate_inside refers rfl here]
  · rw [if_neg fun same => here ((slots x).mp same).1]
    refine sound.translate_elsewhere refers first (fun t j away => ?_) fun both => here both.2
    rw [second, if_neg fun both => away both.1]

include sound refers first second in
theorem Sound.translate_page_other (other : q ≠ pid) : s'.translate q = s.translate q := by
  funext x
  refine sound.translate_elsewhere refers first (fun t j away => ?_) fun both => other both.1
  rw [second, if_neg fun both => away both.1]

end Page

theorem small_slots (log x : Nat) : x / 0x1000 = log / 0x1000 ↔
    x / 0x100000 = log / 0x100000 ∧ x / 0x1000 % 256 = log / 0x1000 % 256 := by
  omega

theorem large_slots (log x : Nat) : x / 0x10000 = log / 0x10000 ↔
    x / 0x100000 = log / 0x100000 ∧ (log / 0x1000 / 16 * 16 % 256 ≤ x / 0x1000 % 256 ∧
      x / 0x1000 % 256 < log / 0x1000 / 16 * 16 % 256 + 16) := by
  omega

/-- A page in a table takes its addresses, whatever was there. -/
theorem Sound.writePage_remaps (sound : s.Sound)
    (refers : s.first pid (log / 0x100000) = s.tableAt k + 1) (small : size ≤ 0x10000)
    (logical : log < 2 ^ 32) (physical : phys < 2 ^ 32) (alignedLog : log % pageSize size = 0)
    (alignedPhys : phys % pageSize size = 0) :
    Remaps (2 ^ 32) (s.translate pid) ((s.writePage (s.tableAt k) log phys size a).translate pid)
      log phys (pageSize size) := by
  unfold writePage
  by_cases tiny : size ≤ 0x1000
  · have page : pageSize size = 0x1000 := if_pos tiny
    rw [page] at alignedLog alignedPhys ⊢
    rw [if_pos tiny]
    refine Remaps.of_page (by decide) (by decide) logical physical alignedLog alignedPhys
      fun x => ?_
    rw [sound.translate_page refers setSecond_first (fun t j => setSecond_second t j)
      (small_slots log), pageAddress_small a alignedPhys]
  · have page : pageSize size = 0x10000 := by rw [pageSize, if_neg tiny, if_pos small]
    rw [page] at alignedLog alignedPhys ⊢
    rw [if_neg tiny]
    refine Remaps.of_page (by decide) (by decide) logical physical alignedLog alignedPhys
      fun x => ?_
    rw [sound.translate_page refers (fill_first _) (fun t j => fill_second 16 t j)
      (large_slots log), pageAddress_large a alignedPhys]

end Orcos.Source.Hal.HatLayer

/-! ## Mapping and unmapping

Source: src/source/arch/ARM/ARMv4T/ARMv7/ARMv7HatLayer.cc, `createPT`, `unmap`.

A size is taken in sections, and what is left of it in one page at the end.
-/
namespace Orcos.Source.Hal.HatLayer
open Orcos.Lib.Remapping
open Orcos.Lib.WordBits

/-- Where the last page of a mapping starts. -/
def lastOffset (size : Nat) : Nat := (size - 1) / 0x100000 * 0x100000

/-- The last page of a mapping: its size, and the whole with it. -/
def lastSize (size : Nat) : Nat := size - lastOffset size
def extent (size : Nat) : Nat := lastOffset size + pageSize (lastSize size)

/-- The first-level index of the last page. -/
def lastIndex (log size : Nat) : Nat := (log + lastOffset size) % 2 ^ 32 / 0x100000

/-- The last page is a section, or finds a second-level table. -/
def Fits (s : HatLayer) (pid log size : Nat) : Prop :=
  0x10000 < lastSize size ∨ s.Room pid (lastIndex log size)

instance (s : HatLayer) (pid log size : Nat) : Decidable (s.Fits pid log size) :=
  inferInstanceAs (Decidable (_ ∨ _))

variable {platform : Platform} {s s' : HatLayer} {pid q index log phys size x : Nat}
  {rights : Rights} {a : Attributes}

theorem lastOffset_page (small : size ≤ 0x100000) : lastOffset size = 0 := by
  unfold lastOffset
  omega

theorem lastOffset_sections (several : 0x100000 < size) :
    lastOffset size = lastOffset (size - 0x100000) + 0x100000 := by
  unfold lastOffset
  omega

theorem lastSize_sections (several : 0x100000 < size) :
    lastSize size = lastSize (size - 0x100000) := by
  unfold lastSize
  rw [lastOffset_sections several]
  omega

theorem extent_sections (several : 0x100000 < size) :
    extent size = 0x100000 + extent (size - 0x100000) := by
  unfold extent
  rw [lastOffset_sections several, lastSize_sections several]
  omega

theorem extent_page (small : size ≤ 0x100000) : extent size = pageSize size := by
  rw [extent, lastSize, lastOffset_page small, Nat.sub_zero, Nat.zero_add]

theorem lastIndex_sections (several : 0x100000 < size) :
    lastIndex log size = lastIndex ((log + 0x100000) % 2 ^ 32) (size - 0x100000) := by
  unfold lastIndex
  rw [lastOffset_sections several, Nat.mod_add_mod]
  omega

theorem le_extent (size : Nat) : size ≤ extent size := by
  unfold extent pageSize lastSize lastOffset
  split
  · omega
  · split <;> omega

theorem extent_le (bounded : size < 2 ^ 32) : extent size ≤ 2 ^ 32 := by
  unfold extent pageSize lastSize lastOffset
  split
  · omega
  · split <;> omega

theorem aligned_pageSize (aligned : log % 0x100000 = 0) (size : Nat) : log % pageSize size = 0 := by
  unfold pageSize
  split
  · omega
  · split <;> omega

theorem pageSize_large (large : 0x10000 < size) : pageSize size = 0x100000 := by
  unfold pageSize
  rw [if_neg (by omega), if_neg (by omega)]

theorem Sound.setFirst_section (sound : s.Sound) (dcacheEnable : Bool) :
    (s.setFirst pid index (sectionEntry (attributes dcacheEnable rights) phys)).Sound :=
  sound.setFirst (Or.inr ⟨typeOf_sectionEntry _,
    tableOf_sectionEntry _ (by rw [attributes_ap1Bits]; exact accessBits_pos rights)⟩)

theorem writePage_constants (table : Nat) :
    (s.writePage table log phys size a).first = s.first ∧
      (s.writePage table log phys size a).pageTables = s.pageTables ∧
        (s.writePage table log phys size a).freeSubPages = s.freeSubPages := by
  unfold writePage
  split
  · exact ⟨rfl, rfl, rfl⟩
  · exact ⟨fill_first _, fill_constants _ _⟩

/-- A page changes only its own table. -/
theorem writePage_second {table t : Nat} (other : t ≠ table) (j : Nat) :
    (s.writePage table log phys size a).second t j = s.second t j := by
  unfold writePage
  split
  · rw [setSecond_second, if_neg fun both => other both.1]
  · rw [fill_second, if_neg fun both => other both.1]

theorem Sound.writePage (sound : s.Sound) {k : Nat} (taken : bit s.freeSubPages.map k = false) :
    (s.writePage (s.tableAt k) log phys size a).Sound := by
  unfold HatLayer.writePage
  split
  · exact sound.setSecond taken _ _
  · exact sound.fill taken _ _ _

/-- Before any mapping all IDs are free. -/
theorem blank_bit (beyond : BitVec 32) (pageTables k : Nat) :
    bit (blank beyond pageTables).freeSubPages.map k = decide (k < 1023) :=
  IDMap.fresh_bit_remainder beyond (by decide) (by decide) k

theorem sound_blank (beyond : BitVec 32) {pageTables : Nat} (aligned : pageTables % 0x100000 = 0) :
    (blank beyond pageTables).Sound where
  aligned := aligned
  ids := rfl
  known k free := by
    rw [blank_bit] at free
    exact of_decide_eq_true free
  entries _ _ := .fault rfl
  alone _ _ _ _ _ refers := nomatch refers
  fresh _ _ _ := rfl

/-- `createPT` keeps the invariant, whatever it is asked for. -/
theorem Sound.createPT (sound : s.Sound) (log phys : Nat) :
    (s.createPT platform log phys size rights pid).1.Sound := by
  refine createPT_induct platform (motive := fun s _ _ _ after => s.Sound → after.Sound)
    ?_ ?_ ?_ ?_ s log phys size sound
  · intro s log phys size small found sound
    exact sound
  · intro s after table log phys size small found sound
    obtain ⟨sound, -, k, rfl, refers⟩ := sound.pageTableFor_spec found
    exact sound.writePage (sound.taken refers)
  · intro s log phys size large one sound
    exact sound.setFirst_section _
  · intro s after log phys size several behind sound
    exact behind (sound.setFirst_section _)

/-- Other address spaces keep their translations. -/
theorem Sound.createPT_other (sound : s.Sound) (log phys : Nat) (other : q ≠ pid) :
    (s.createPT platform log phys size rights pid).1.translate q = s.translate q := by
  refine createPT_induct platform
    (motive := fun s _ _ _ after => s.Sound → after.translate q = s.translate q)
    ?_ ?_ ?_ ?_ s log phys size sound
  · intro s log phys size small found sound
    rfl
  · intro s after table log phys size small found sound
    obtain ⟨sound, same, k, rfl, refers⟩ := sound.pageTableFor_spec found
    rw [← same]
    funext x
    exact sound.translate_elsewhere refers (writePage_constants _).1
      (fun t j away => writePage_second away j) fun both => other both.1
  · intro s log phys size large one sound
    exact setFirst_other other
  · intro s after log phys size several behind sound
    rw [behind (sound.setFirst_section _), setFirst_other other]

/-- What `createPT` returns. -/
theorem Sound.createPT_result (sound : s.Sound) :
    (s.createPT platform log phys size rights pid).2 =
      if size ≤ 0x10000 ∧ ¬ s.Room pid (log / 0x100000) then 0 else log := by
  by_cases small : size ≤ 0x10000
  · rw [createPT_page platform small]
    cases found : s.pageTableFor pid (log / 0x100000) with
    | none =>
      have full : ¬ s.Room pid (log / 0x100000) := by
        rw [← sound.pageTableFor_isSome, found]
        decide
      rw [if_pos ⟨small, full⟩]
    | some result =>
      have room := sound.pageTableFor_isSome.mp (Option.isSome_of_mem found)
      rw [if_neg fun both => both.2 room]
  · rw [if_neg fun both => small both.1]
    exact createPT_large platform (by omega)

/-- A single page below 1 MB fits where there is room for its table. -/
theorem fits_page (small : size ≤ 0x10000) (logical : log < 2 ^ 32) :
    s.Fits pid log size ↔ s.Room pid (log / 0x100000) := by
  rw [Fits, lastSize, lastIndex, lastOffset_page (by omega), Nat.add_zero,
    Nat.mod_eq_of_lt logical]
  exact or_iff_right (by omega)

/-- A section changes nothing about the room for the last page of the sections behind it. -/
theorem fits_behind (several : 0x100000 < size) (bounded : size < 2 ^ 32)
    (entry : Nat) : (s.setFirst pid (log / 0x100000) entry).Fits pid ((log + 0x100000) % 2 ^ 32)
      (size - 0x100000) ↔ s.Fits pid log size := by
  have other : lastIndex log size ≠ log / 0x100000 := by
    unfold lastIndex lastOffset
    omega
  have same : (s.setFirst pid (log / 0x100000) entry).first pid (lastIndex log size) =
      s.first pid (lastIndex log size) := by
    rw [setFirst_first, if_neg fun both => other both.2]
  rw [Fits, Fits, ← lastIndex_sections several, ← lastSize_sections several, Room, Room, same]
  rfl

/-- The mapping by `createPT`: all of it, or only its sections. -/
theorem Sound.createPT_remaps (sound : s.Sound) (logical : log < 2 ^ 32) (physical : phys < 2 ^ 32)
    (bounded : size < 2 ^ 32) (alignedLog : log % pageSize size = 0)
    (alignedPhys : phys % pageSize size = 0) (platform : Platform) (rights : Rights) (pid : Nat) :
    Remaps (2 ^ 32) (s.translate pid)
      ((s.createPT platform log phys size rights pid).1.translate pid) log phys
      (if s.Fits pid log size then extent size else lastOffset size) := by
  refine createPT_induct platform (motive := fun s log phys size after => s.Sound → log < 2 ^ 32 →
      phys < 2 ^ 32 → size < 2 ^ 32 → log % pageSize size = 0 → phys % pageSize size = 0 →
      Remaps (2 ^ 32) (s.translate pid) (after.translate pid) log phys
        (if s.Fits pid log size then extent size else lastOffset size))
    ?_ ?_ ?_ ?_ s log phys size sound logical physical bounded alignedLog alignedPhys
  · intro s log phys size small found sound logical physical bounded alignedLog alignedPhys
    have full : ¬ s.Fits pid log size := by
      rw [fits_page small logical, ← sound.pageTableFor_isSome, found]
      decide
    rw [if_neg full, lastOffset_page (by omega)]
    exact Remaps.nothing _ _ _
  · intro s after table log phys size small found sound logical physical bounded alignedLog
      alignedPhys
    have room := sound.pageTableFor_isSome.mp (Option.isSome_of_mem found)
    obtain ⟨sound, same, k, rfl, refers⟩ := sound.pageTableFor_spec found
    rw [if_pos ((fits_page small logical).mpr room), extent_page (by omega), ← same]
    exact sound.writePage_remaps refers small logical physical alignedLog alignedPhys
  · intro s log phys size large one sound logical physical bounded alignedLog alignedPhys
    have fits : s.Fits pid log size := by
      left
      rw [lastSize, lastOffset_page one]
      omega
    rw [pageSize_large large] at alignedLog alignedPhys
    rw [if_pos fits, extent_page one, pageSize_large large]
    exact setFirst_remaps logical physical alignedLog alignedPhys
  · intro s after log phys size several behind sound logical physical bounded alignedLog alignedPhys
    rw [pageSize_large (by omega)] at alignedLog alignedPhys
    have first : Remaps (2 ^ 32) (s.translate pid) ((s.setFirst pid (log / 0x100000)
        (sectionEntry (attributes platform.dcacheEnable rights) phys)).translate pid) log phys
        0x100000 := setFirst_remaps logical physical alignedLog alignedPhys
    have offset := lastOffset_sections several
    have whole := extent_sections several
    have turn := extent_le bounded
    have behind := behind (sound.setFirst_section _) (Nat.mod_lt _ (by decide))
      (Nat.mod_lt _ (by decide)) (by omega) (aligned_pageSize (by omega) _)
      (aligned_pageSize (by omega) _)
    simp only [fits_behind several bounded] at behind
    by_cases room : s.Fits pid log size
    · rw [if_pos room] at behind ⊢
      rw [whole] at turn ⊢
      exact first.append behind turn
    · rw [if_neg room] at behind ⊢
      rw [offset, Nat.add_comm (lastOffset _)]
      exact first.append behind (by unfold extent at turn; omega)

/-- `unmap` keeps the invariant. -/
theorem Sound.unmap (sound : s.Sound) (log pid : Nat) : (s.unmap log pid).1.Sound := by
  unfold HatLayer.unmap
  cases sound.entries pid (log / 0x100000) with
  | fault none_ => simpa [none_] using sound
  | section_ type looks =>
    rw [if_pos type]
    exact sound.setFirst (Or.inl rfl)
  | table k known taken memory refers =>
    obtain ⟨type, looks⟩ := sound.looks_refers refers
    simp only [type, looks, if_false]
    rw [sound.tableOf_refers refers]
    split
    · exact sound.fill taken _ _ _
    · exact sound.setSecond taken _ _

/-- What `unmap` does with an address that a table translates. -/
theorem Sound.unmap_table (sound : s.Sound) {k : Nat}
    (refers : s.first pid (log / 0x100000) = s.tableAt k + 1) :
    (s.unmap log pid).1 =
      if typeOf (s.second (s.tableAt k) (log / 0x1000 % 256)) = 1 then
        s.fill (s.tableAt k) (log / 0x1000 / 16 * 16 % 256) 0 16
      else s.setSecond (s.tableAt k) (log / 0x1000 % 256) 0 := by
  obtain ⟨type, looks⟩ := sound.looks_refers refers
  simp only [HatLayer.unmap, type, looks, if_false]
  rw [sound.tableOf_refers refers]
  split <;> rfl

theorem unmap_section (type : typeOf (s.first pid (log / 0x100000)) = 2) :
    (s.unmap log pid).1 = s.setFirst pid (log / 0x100000) 0 := by
  rw [unmap]
  simp only [type, if_true]

theorem unmap_fault (none_ : s.first pid (log / 0x100000) = 0) : (s.unmap log pid).1 = s := by
  rw [unmap]
  simp [none_]

/-- Other address spaces keep their translations. -/
theorem Sound.unmap_other (sound : s.Sound) (other : q ≠ pid) :
    (s.unmap log pid).1.translate q = s.translate q := by
  cases sound.entries pid (log / 0x100000) with
  | fault none_ => rw [unmap_fault none_]
  | section_ type looks => rw [unmap_section type, setFirst_other other]
  | table k known taken memory refers =>
    rw [sound.unmap_table refers]
    split
    · exact sound.translate_page_other refers (fill_first _) (fun t j => fill_second 16 t j) other
    · exact sound.translate_page_other refers setSecond_first
        (fun t j => setSecond_second t j) other

/-- `unmap` takes away the page of its address, and nothing else. -/
theorem Sound.unmap_unmaps (sound : s.Sound) (log pid : Nat) :
    Unmaps (s.translate pid) ((s.unmap log pid).1.translate pid) (s.InPage pid log) := by
  cases sound.entries pid (log / 0x100000) with
  | fault none_ =>
    rw [unmap_fault none_]
    refine ⟨fun x inside => ?_, fun _ _ => rfl⟩
    have same : x / 0x100000 = log / 0x100000 := by
      simp only [InPage, none_] at inside
      split at inside
      · omega
      · split at inside <;> omega
    rw [translate_fault (by rw [same, none_])]
  | section_ type looks =>
    have page (x : Nat) : s.InPage pid log x ↔ x / 0x100000 = log / 0x100000 := by
      simp only [InPage, type, if_true]
    rw [unmap_section type]
    refine ⟨fun x inside => translate_fault ?_, fun x outside => translate_congr ?_ fun _ => rfl⟩
    · rw [setFirst_first, if_pos ⟨rfl, (page x).mp inside⟩]
    · rw [setFirst_first, if_neg fun both => outside ((page x).mpr both.2)]
  | table k known taken memory refers =>
    have type := (sound.looks_refers refers).1
    rw [sound.unmap_table refers]
    by_cases large : typeOf (s.second (s.tableAt k) (log / 0x1000 % 256)) = 1
    · have page (x : Nat) : s.InPage pid log x ↔ x / 0x10000 = log / 0x10000 := by
        simp only [InPage, type, if_false, sound.tableOf_refers refers, large, if_true]
      have after (x : Nat) : (s.fill (s.tableAt k) (log / 0x1000 / 16 * 16 % 256) 0 16).translate
          pid x = if x / 0x10000 = log / 0x10000 then pageAddress 0 x else s.translate pid x :=
        sound.translate_page refers (fill_first 16) (fun t j => fill_second 16 t j)
          (large_slots log) x
      rw [if_pos large]
      refine ⟨fun x inside => ?_, fun x outside => ?_⟩
      · rw [after, if_pos ((page x).mp inside), pageAddress_zero]
      · rw [after, if_neg fun same => outside ((page x).mpr same)]
    · have page (x : Nat) : s.InPage pid log x ↔ x / 0x1000 = log / 0x1000 := by
        simp only [InPage, type, if_false, sound.tableOf_refers refers, large]
      have after (x : Nat) : (s.setSecond (s.tableAt k) (log / 0x1000 % 256) 0).translate pid x =
          if x / 0x1000 = log / 0x1000 then pageAddress 0 x else s.translate pid x :=
        sound.translate_page refers setSecond_first (fun t j => setSecond_second t j)
          (small_slots log) x
      rw [if_neg large]
      refine ⟨fun x inside => ?_, fun x outside => ?_⟩
      · rw [after, if_pos ((page x).mp inside), pageAddress_zero]
      · rw [after, if_neg fun same => outside ((page x).mpr same)]

end Orcos.Source.Hal.HatLayer
