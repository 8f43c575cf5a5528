import Mathlib.Data.Nat.Bitwise
import Mathlib.Data.List.GetD
import Orcos.Lib.WordBits
import Orcos.Source.Alignment

/-!
# One entry of the page map

Source: src/source/mem/PagedRamMemManager.cc, `page_map`, `allocSubPages` and
the sub-page part of `free_physical`.

A page of 1 MB is free (`pid` 255), owned as a whole, or split into 256
micropages of 4 KB whose use is recorded twice, in a bitmap and in a counter.
Leading zeros are counted as on ARM, where a zero word has 32 of them.
-/
namespace Orcos.Source.PagedRam
open Orcos.Lib.WordBits

abbrev mappingPagesize : Nat := 0x100000

/-- `page_map`; the field `reserved` is never used. -/
structure Page where
  pid : Nat
  usesMicropages : Nat
  usedMicropages : Nat
  micropages : List (BitVec 32)
  words : micropages.length = 8
  deriving DecidableEq

namespace Page

/-- A page nobody uses. -/
def unused : Page := ⟨255, 0, 0, List.replicate 8 0#32, rfl⟩

/-- The page used as a whole by `pid`, or about to be subdivided for it; the
bitmap is left as it is. -/
def markUsed (p : Page) (pid : Nat) : Page :=
  { p with pid := pid, usesMicropages := 0, usedMicropages := 0 }

/-- The loop over the words that finds the first free micropage. -/
def firstFreeFrom (i : Nat) : List (BitVec 32) → Option Nat
  | [] => none
  | word :: rest =>
    let freeindex := (~~~word).clz.toNat
    if freeindex < 32 then some (freeindex + i * 32) else firstFreeFrom (i + 1) rest

/-- The half of a word that stands for the 16 micropages from `index` on. -/
def halfMask (index : Nat) : BitVec 32 :=
  if index &&& 0x10 ≠ 0 then 0xffff#32 else 0xffff0000#32

/-- The search for 16 consecutive free micropages, at most `rounds` rounds. -/
def searchBlock (words : List (BitVec 32)) : Nat → Nat → Option Nat
  | 0, _ => none
  | rounds + 1, index =>
    if index < 256 then
      if words.getD (index / 32) 0#32 &&& halfMask index = 0#32 then some index
      else searchBlock words rounds (index + 16)
    else none

/-- `allocSubPages` on page number `page` of the map; the answer is an address,
zero on failure. -/
def allocSubPages (memStart page : Nat) (p : Page) (size : Nat) : Page × Nat :=
  if size ≠ 0x1000 ∧ size ≠ 0x10000 then (p, 0)
  else
    let numpages := size / 4096
    if p.usedMicropages < 256 - numpages then
      match firstFreeFrom 0 p.micropages with
      | none => (p, 0)
      | some index =>
        if size = 0x1000 then
          let indexentry := index / 32
          let indexbit := index - indexentry * 32
          ({ p with
              usedMicropages := p.usedMicropages + numpages
              usesMicropages := 1
              micropages := p.micropages.modify indexentry (· ||| (1#32 <<< (31 - indexbit)))
              words := (List.length_modify _ _ _).trans p.words },
            memStart + page * mappingPagesize + index * 4096)
        else
          -- index += 15; index &= ~15
          match searchBlock p.micropages 17 ((index + 15) / 16 * 16) with
          | none => (p, 0)
          | some index =>
            ({ p with
                usedMicropages := p.usedMicropages + numpages
                usesMicropages := 1
                micropages := p.micropages.modify (index / 32) (· ||| halfMask index)
                words := (List.length_modify _ _ _).trans p.words },
              memStart + page * mappingPagesize + index * 4096)
    else (p, 0)

/-- The sub-page part of `free_physical`, once its checks have passed. -/
def freeSubPages (p : Page) (pageOffset numPages : Nat) : Page :=
  let used := p.usedMicropages - numPages
  if used = 0 then unused
  else
    { p with
      usedMicropages := used
      micropages := clearRange p.micropages pageOffset numPages
      words := (clearRange_length _ _ _).trans p.words }

/-- Who owns a micropage of the page. -/
def owner (p : Page) (k : Nat) : Option Nat :=
  if p.pid = 255 then none
  else if p.usesMicropages = 0 then some p.pid
  else if bit p.micropages k then some p.pid else none

variable {p : Page} {memStart page : Nat}

theorem firstFreeFrom_eq (i : Nat) (words : List (BitVec 32)) :
    firstFreeFrom i words = (firstSet (words.map (~~~·))).map (· + i * 32) := by
  induction words generalizing i with
  | nil => rfl
  | cons word rest ih =>
    by_cases found : (~~~word).clz.toNat < 32
    · simp [firstFreeFrom, firstSet, found]
    · rw [firstFreeFrom, if_neg found, ih, List.map_cons, firstSet, if_neg found]
      cases firstSet (rest.map (~~~·)) with
      | none => rfl
      | some k =>
        simp only [Option.map_some, Option.some.injEq]
        omega

/-- A bit of the complemented words. -/
theorem bit_map_not (words : List (BitVec 32)) {k : Nat} (inside : k / 32 < words.length) :
    bit (words.map (~~~·)) k = !bit words k := by
  have width : k % 32 < 32 := Nat.mod_lt k (by decide)
  simp [bit, List.getD_eq_getElem?_getD, List.getElem?_eq_getElem inside, width]

theorem bit_map_not_outside (words : List (BitVec 32)) {k : Nat} (outside : words.length ≤ k / 32) :
    bit (words.map (~~~·)) k = false := by
  simp [bit, List.getD_eq_getElem?_getD, outside]

/-- The first free micropage, if there is one. -/
theorem firstFree_some {index : Nat}
    (found : firstFreeFrom 0 p.micropages = some index) :
    index < 256 ∧ bit p.micropages index = false ∧
      ∀ k < index, bit p.micropages k = true := by
  have words := p.words
  rw [firstFreeFrom_eq] at found
  obtain ⟨k, first, rfl⟩ := Option.map_eq_some_iff.mp found
  obtain ⟨set, clear⟩ := firstSet_eq_some first
  have inside : k / 32 < p.micropages.length := by
    by_contra outside
    rw [bit_map_not_outside _ (Nat.le_of_not_lt outside)] at set
    exact Bool.false_ne_true set
  refine ⟨by omega, ?_, fun j before => ?_⟩
  · rw [bit_map_not _ inside] at set
    simpa using set
  · have := clear j (by omega)
    rw [bit_map_not _ (by omega)] at this
    simpa using this

theorem firstFree_none (full : firstFreeFrom 0 p.micropages = none) :
    ∀ k < 256, bit p.micropages k = true := by
  have words := p.words
  rw [firstFreeFrom_eq, Option.map_eq_none_iff] at full
  intro k small
  have := firstSet_eq_none full k
  rw [bit_map_not _ (by omega)] at this
  simpa using this

/-- The bits of the mask are those of the 16 micropages from `index` on. -/
theorem halfMask_getMsbD {index : Nat} (isAligned : index % 16 = 0) {j : Nat} (small : j < 32) :
    (halfMask index).getMsbD j = decide (index % 32 ≤ j ∧ j < index % 32 + 16) := by
  have half : index &&& 0x10 = index % 32 := by
    change index &&& 2 ^ 4 = index % 32
    rw [Nat.and_two_pow, Nat.toNat_testBit]
    omega
  have high : ∀ j < 32, (0xffff#32).getMsbD j = decide (16 ≤ j) := by decide
  have low : ∀ j < 32, (0xffff0000#32).getMsbD j = decide (j < 16) := by decide
  rw [halfMask, half]
  by_cases upper : index % 32 = 0
  · simp [upper, low j small]
  · have isUpper : index % 32 = 16 := by omega
    rw [if_pos upper, high j small, isUpper]
    simp only [decide_eq_decide]
    omega

/-- A block of micropages nobody uses. -/
def BlockFree (p : Page) (n index : Nat) : Prop :=
  n ∣ index ∧ index + n ≤ 256 ∧ ∀ k, index ≤ k → k < index + n → bit p.micropages k = false

theorem half_eq_zero_iff {index : Nat}
    (isAligned : index % 16 = 0) (inside : index < 256) :
    p.micropages.getD (index / 32) 0#32 &&& halfMask index = 0#32 ↔ BlockFree p 16 index := by
  have positions : ∀ k, index ≤ k → k < index + 16 → k / 32 = index / 32 ∧
      (index % 32 ≤ k % 32 ∧ k % 32 < index % 32 + 16) := by omega
  constructor
  · intro zero
    refine ⟨Nat.dvd_of_mod_eq_zero isAligned, by omega, fun k low high => ?_⟩
    obtain ⟨sameWord, within⟩ := positions k low high
    have width : k % 32 < 32 := Nat.mod_lt k (by decide)
    have clear := congrArg (fun word => word.getMsbD (k % 32)) zero
    simp only [BitVec.getMsbD_and, halfMask_getMsbD isAligned width, within, and_self, decide_true,
      Bool.and_true, BitVec.getMsbD_zero] at clear
    rw [bit, sameWord, clear]
  · rintro ⟨_, _, free⟩
    refine BitVec.eq_of_getMsbD_eq fun j small => ?_
    rw [BitVec.getMsbD_and, halfMask_getMsbD isAligned small, BitVec.getMsbD_zero]
    by_cases within : index % 32 ≤ j ∧ j < index % 32 + 16
    · have position : (index / 32 * 32 + j) / 32 = index / 32 := by omega
      have offset : (index / 32 * 32 + j) % 32 = j := by omega
      have clear := free (index / 32 * 32 + j) (by omega) (by omega)
      rw [bit, position, offset] at clear
      rw [clear, Bool.false_and]
    · simp [within]

/-- The search takes the first free block from its start on. -/
theorem searchBlock_some {rounds index found : Nat}
    (isAligned : index % 16 = 0) (result : searchBlock p.micropages rounds index = some found) :
    BlockFree p 16 found ∧ ∀ block, index ≤ block → BlockFree p 16 block → found ≤ block := by
  induction rounds generalizing index with
  | zero => simp [searchBlock] at result
  | succ rounds ih =>
    rw [searchBlock] at result
    by_cases inside : index < 256
    · rw [if_pos inside] at result
      by_cases free : p.micropages.getD (index / 32) 0#32 &&& halfMask index = 0#32
      · rw [if_pos free] at result
        rw [← Option.some.inj result]
        exact ⟨(half_eq_zero_iff isAligned inside).mp free, fun block later _ => later⟩
      · rw [if_neg free] at result
        obtain ⟨isFree, first⟩ := ih (by omega) result
        refine ⟨isFree, fun block later blockFree => ?_⟩
        have multiple : block % 16 = 0 := Nat.mod_eq_zero_of_dvd blockFree.1
        have other : block ≠ index := by
          rintro rfl
          exact free ((half_eq_zero_iff isAligned inside).mpr blockFree)
        exact first block (by omega) blockFree
    · simp [inside] at result

theorem searchBlock_none {rounds index : Nat}
    (isAligned : index % 16 = 0) (enough : 256 < index + 16 * rounds)
    (result : searchBlock p.micropages rounds index = none) :
    ∀ found, index ≤ found → ¬ BlockFree p 16 found := by
  induction rounds generalizing index with
  | zero =>
    rintro found _ ⟨_, _, _⟩
    omega
  | succ rounds ih =>
    rintro found later ⟨multiple, fits, free⟩
    have inside : index < 256 := by omega
    rw [searchBlock, if_pos inside] at result
    by_cases here : p.micropages.getD (index / 32) 0#32 &&& halfMask index = 0#32
    · rw [if_pos here] at result
      cases result
    · rw [if_neg here] at result
      by_cases same : found = index
      · subst same
        exact here ((half_eq_zero_iff isAligned inside).mpr ⟨multiple, fits, free⟩)
      · have aligned16 : found % 16 = 0 := Nat.mod_eq_zero_of_dvd multiple
        exact ih (by omega) (by omega) result found (by omega) ⟨multiple, fits, free⟩

/-- `allocSubPages` can serve a block of `n` micropages. -/
def Fits (p : Page) (n : Nat) : Prop := p.usedMicropages < 256 - n ∧ ∃ index, BlockFree p n index

/-- The page after a block of `n` micropages was taken out of it. -/
structure Taken (p p' : Page) (n index : Nat) : Prop where
  room : p.usedMicropages < 256 - n
  block : BlockFree p n index
  pid : p'.pid = p.pid
  uses : p'.usesMicropages = 1
  used : p'.usedMicropages = p.usedMicropages + n
  bits : ∀ k, bit p'.micropages k =
    (bit p.micropages k || decide (index ≤ k ∧ k < index + n))

/-- What `allocSubPages` does: it takes the first free block if the counter and
the bitmap leave one, and else changes nothing. -/
theorem allocSubPages_cases (memStart page : Nat) (p : Page) {n : Nat} (size : n = 1 ∨ n = 16) :
    (allocSubPages memStart page p (n * 4096) = (p, 0) ∧ ¬ Fits p n) ∨
      ∃ p' index, allocSubPages memStart page p (n * 4096) =
        (p', memStart + page * mappingPagesize + index * 4096) ∧ Taken p p' n index ∧
        ∀ block, BlockFree p n block → index ≤ block := by
  have words := p.words
  have supported : ¬ (n * 4096 ≠ 0x1000 ∧ n * 4096 ≠ 0x10000) := by omega
  have numpages : n * 4096 / 4096 = n := Nat.mul_div_cancel n (by decide)
  rw [allocSubPages, if_neg supported]
  simp only [numpages]
  by_cases room : p.usedMicropages < 256 - n
  · rw [if_pos room]
    cases first : firstFreeFrom 0 p.micropages with
    | none =>
      refine .inl ⟨rfl, ?_⟩
      rintro ⟨_, index, _, fits, free⟩
      have := firstFree_none first index (by omega)
      rw [free index (by omega) (by omega)] at this
      exact Bool.false_ne_true this
    | some start =>
      obtain ⟨inside, clear, before⟩ := firstFree_some first
      -- the first free micropage is not behind a free block
      have reached {block : Nat} (free : BlockFree p n block) : start ≤ block := by
        by_contra later
        have := before block (by omega)
        rw [free.2.2 block (Nat.le_refl block) (by omega)] at this
        exact Bool.false_ne_true this
      rcases size with rfl | rfl
      · refine .inr ⟨_, start, rfl, ⟨room, ⟨Nat.one_dvd start, inside, ?_⟩, rfl, rfl, rfl, ?_⟩,
          fun block => reached⟩
        · intro k low high
          have same : k = start := by omega
          rw [same, clear]
        · intro k
          have indexbit : start - start / 32 * 32 = start % 32 := by omega
          have within : start / 32 < p.micropages.length := by omega
          have shape := bit_setBit within k
          rw [setBit] at shape
          simp only [indexbit]
          change bit (p.micropages.modify (start / 32) (· ||| mask (start % 32))) k = _
          rw [shape, Bool.or_comm]
          congr 1
          simp only [decide_eq_decide]
          omega
      · dsimp only
        rw [if_neg (show ¬ 16 * 4096 = 0x1000 by decide)]
        have isAligned : (start + 15) / 16 * 16 % 16 = 0 := Nat.mul_mod_left _ _
        have rounded {block : Nat} (free : BlockFree p 16 block) :
            (start + 15) / 16 * 16 ≤ block := by
          have multiple : block % 16 = 0 := Nat.mod_eq_zero_of_dvd free.1
          have := reached free
          omega
        cases search : searchBlock p.micropages 17 ((start + 15) / 16 * 16) with
        | none =>
          refine .inl ⟨rfl, ?_⟩
          rintro ⟨_, block, free⟩
          exact searchBlock_none isAligned (by omega) search block (rounded free) free
        | some index =>
          obtain ⟨free, least⟩ := searchBlock_some isAligned search
          have aligned16 : index % 16 = 0 := Nat.mod_eq_zero_of_dvd free.1
          have inWord := free.2.1
          refine .inr ⟨_, index, rfl, ⟨room, free, rfl, rfl, rfl, fun k => ?_⟩,
            fun block isFree => least block (rounded isFree) isFree⟩
          have width : k % 32 < 32 := Nat.mod_lt k (by decide)
          rw [bit_modify_or _ _ (by omega), halfMask_getMsbD aligned16 width]
          congr 1
          rw [← Bool.decide_and, decide_eq_decide]
          omega
  · rw [if_neg room]
    exact .inl ⟨rfl, fun fits => room fits.1⟩

end Page

end Orcos.Source.PagedRam

/-! ## The manager of physical pages

Source: src/source/mem/PagedRamMemManager.cc, `markAsUsed`, `free_physical`,
`freeAll` and `alloc_physical`.

Addresses and sizes are unsigned 32-bit words (`intptr_t` and `size_t` on ARM),
held as numbers. The spin lock and the
log messages are left out. The file-wide variables `MemStart` and `NumPages`
are set by the constructor and never change: they are the `Layout`.
-/
namespace Orcos.Source.PagedRam

/-- Where the managed memory lies: behind the kernel, and below the last
address. -/
structure Layout where
  memStart : Nat
  numPages : Nat
  isAligned : mappingPagesize ∣ memStart
  positive : 0 < memStart
  fits : memStart + numPages * mappingPagesize < 2 ^ 32

/-- Managed memory of one page, and of two, from 1 MB on. -/
def Layout.onePage : Layout := ⟨0x100000, 1, Nat.dvd_refl _, by decide, by decide⟩

def Layout.twoPages : Layout := ⟨0x100000, 2, Nat.dvd_refl _, by decide, by decide⟩

/-- The page map. -/
structure PageMap (layout : Layout) where
  pages : List Page
  complete : pages.length = layout.numPages
  deriving DecidableEq

variable {layout : Layout}

namespace PageMap

/-- The map in which every page is free, as the constructor leaves it. -/
def allFree (layout : Layout) : PageMap layout :=
  ⟨List.replicate layout.numPages Page.unused, List.length_replicate⟩

/-- One loop over the map that changes each entry by itself. -/
def update (m : PageMap layout) (f : Nat → Page → Page) : PageMap layout :=
  ⟨m.pages.mapIdx f, List.length_mapIdx.trans m.complete⟩

theorem eq_of_pages {m m' : PageMap layout} (same : m.pages = m'.pages) : m = m' := by
  obtain ⟨_, _⟩ := m
  obtain ⟨_, _⟩ := m'
  cases same
  rfl

/-- A loop that changes no entry changes nothing. -/
theorem update_eq_self {m : PageMap layout} {f : Nat → Page → Page}
    (same : ∀ i p, m.pages[i]? = some p → f i p = p) : m.update f = m := by
  apply eq_of_pages
  apply List.ext_getElem?
  intro i
  unfold update
  rw [List.getElem?_mapIdx]
  cases entry : m.pages[i]? with
  | none => rfl
  | some p => rw [Option.map_some, same i p entry]

def setPage (m : PageMap layout) (page : Nat) (p : Page) : PageMap layout :=
  ⟨m.pages.set page p, List.length_set.trans m.complete⟩

/-- Who owns the 4 KB unit number `u` of the managed memory. -/
def owner (m : PageMap layout) (u : Nat) : Option Nat :=
  (m.pages[u / 256]?).bind fun p => p.owner (u % 256)

end PageMap

/-- The number of the page an address lies in. -/
def pageEntry (memStart address : Nat) : Nat :=
  wordSub (alignFloor address mappingPagesize) memStart / mappingPagesize

/-- `markAsUsed`; a region outside the map stops the kernel (`none`). -/
def markAsUsed (m : PageMap layout) (start stop pid : Nat) : Option (PageMap layout) :=
  let peStart := pageEntry layout.memStart start
  let peEnd := pageEntry layout.memStart (wordSub stop 1)
  if layout.numPages ≤ peEnd ∨ layout.numPages ≤ peStart then none
  else some (m.update fun i p => if peStart ≤ i ∧ i ≤ peEnd then p.markUsed pid else p)

/-- The part of `free_physical` for a range inside one page, with its checks. -/
def freeMicropages (m : PageMap layout) (page pageOffset numPages : Nat) :
    PageMap layout × ErrorT :=
  match m.pages[page]? with
  | none => (m, cInvalidArgument)
  | some p =>
    if p.usesMicropages ≠ 1 then (m, cInvalidArgument)
    else if p.usedMicropages < numPages then (m, cInvalidArgument)
    else (m.setPage page (p.freeSubPages pageOffset numPages), cOk)

/-- `free_physical`. -/
def freePhysical (m : PageMap layout) (start stop : Nat) : PageMap layout × ErrorT :=
  let start := alignFloor start 4096
  let stop := alignCeil stop 4096
  let startPage := alignFloor start mappingPagesize
  let peStart := pageEntry layout.memStart start
  let peEnd := pageEntry layout.memStart (wordSub stop 1)
  if stop ≤ start ∨ start < layout.memStart ∨ layout.numPages ≤ peEnd ∨
      layout.numPages ≤ peStart then (m, cInvalidArgument)
  else if mappingPagesize ≤ stop - start then
    (m.update fun i p => if peStart ≤ i ∧ i ≤ peEnd then Page.unused else p, cOk)
  else if peStart ≠ peEnd then (m, cInvalidArgument)
  else
    freeMicropages m peStart ((start - startPage) / 4096) ((stop - start) / 4096)

/-- `freeAll`. -/
def freeAll (m : PageMap layout) (pid : Nat) : PageMap layout :=
  m.update fun _ p => if p.pid = pid then Page.unused else p

/-- The loop for sizes below 1 MB: the page that is changed, its new content
and the address (zero when a free page could not be used). -/
def searchSmall (memStart pid size : Nat) : Nat → List Page → Option (Nat × Page × Nat)
  | _, [] => none
  | page, p :: rest =>
    if p.pid = 255 then
      let (p', addr) := (p.markUsed pid).allocSubPages memStart page size
      some (page, p', addr)
    else if p.pid = pid ∧ p.usesMicropages ≠ 0 then
      let (p', addr) := p.allocSubPages memStart page size
      if addr ≠ 0 then some (page, p', addr) else searchSmall memStart pid size (page + 1) rest
    else searchSmall memStart pid size (page + 1) rest

/-- The current area with free page number `i` added, begun there if there is
none (-1). -/
def extendArea (memStart i : Nat) : Option Nat → Nat → Nat × Nat
  | none, _ => (memStart + i * mappingPagesize, mappingPagesize)
  | some areaStart, areaSize => (areaStart, areaSize + mappingPagesize)

/-- The loop for sizes from 1 MB on: the start and the size of the area it
ends with. -/
def searchArea (memStart size : Nat) : Nat → List Page → Option Nat → Nat → Option Nat × Nat
  | _, [], areaStart, areaSize => (areaStart, areaSize)
  | i, p :: rest, areaStart, areaSize =>
    if p.pid ≠ 255 then searchArea memStart size (i + 1) rest none 0
    else
      let (areaStart, areaSize) := extendArea memStart i areaStart areaSize
      if size ≤ areaSize then (some areaStart, areaSize)
      else searchArea memStart size (i + 1) rest (some areaStart) areaSize

/-- The size an allocation is rounded up to. -/
def roundSize (size : Nat) : Nat :=
  if size < 0x100000 then if size ≤ 0x1000 then 0x1000 else 0x10000 else size

/-- `alloc_physical`; zero on failure, `none` when `markAsUsed` stops. -/
def allocPhysical (m : PageMap layout) (size pid : Nat) : Option (PageMap layout × Nat) :=
  let size := roundSize size
  if 0x100000 ≤ size then
    match searchArea layout.memStart size 0 m.pages none 0 with
    | (none, _) => some (m, 0)
    | (some areaStart, areaSize) =>
      (markAsUsed m areaStart (areaStart + areaSize) pid).map fun m' => (m', areaStart)
  else
    match searchSmall layout.memStart pid size 0 m.pages with
    | none => some (m, 0)
    | some (page, p', addr) => some (m.setPage page p', addr)

end Orcos.Source.PagedRam

/-! ## Logical areas

Source: src/source/mem/PagedRamMemManager.cc, `alloc_logical` and
`free_logical`; src/source/hal/HatLayer.hh.

An area is put together from pieces of 1 MB, 64 KB and 4 KB of physical memory,
mapped one behind the other. The address translation is a parameter, with the
translation of the executing task as `getPhysicalAddress`. The protection,
domain and cache mode it is given are constants and left out.
-/
namespace Orcos.Source.PagedRam

/-- The address translation as the manager uses it: `map` is given a logical
address (or zero), a physical one, a size and the process, and answers the
logical address of the mapping, zero on failure. -/
structure HatLayer (σ : Type) where
  map : σ → Nat → Nat → Nat → Nat → σ × Nat
  getPhysicalAddress : σ → Nat → Nat

namespace HatLayer

variable {σ : Type}

/-- The pages from logical address `a` on are mapped to `phys`, and no others
have changed. The address behind them is an address, too. -/
structure Mapped (hat : HatLayer σ) (h h' : σ) (a phys size : Nat) : Prop where
  page : 4096 ∣ a
  fits : a + size < 2 ^ 32
  inside : ∀ x, a ≤ x → x < a + size → hat.getPhysicalAddress h' x = phys + (x - a)
  outside : ∀ x, ¬ (a ≤ x ∧ x < a + size) →
    hat.getPhysicalAddress h' x = hat.getPhysicalAddress h x

/-- `map` maps exactly what it is asked to, or fails. -/
def MapsExactly (hat : HatLayer σ) : Prop :=
  ∀ h logical phys size pid h' a, hat.map h logical phys size pid = (h', a) → a ≠ 0 →
    (logical ≠ 0 → a = logical) ∧ hat.Mapped h h' a phys size

end HatLayer

variable {layout : Layout} {σ : Type}

/-- The variables of `alloc_logical`, but for the size left. -/
structure Request (layout : Layout) (σ : Type) where
  map : PageMap layout
  hat : σ
  logicalAddress : Nat
  retAddress : Nat

/-- How `alloc_logical` ends before its end: the kernel stops, or zero is
returned and what was allocated stays so. -/
inductive Failure (layout : Layout) (σ : Type) where
  | stopped
  | failed (map : PageMap layout) (hat : σ)

/-- One piece of the area is allocated and mapped. -/
def mapPiece (hat : HatLayer σ) (pid piece : Nat) (s : Request layout σ) :
    Except (Failure layout σ) (Request layout σ) :=
  match allocPhysical s.map piece pid with
  | none => .error .stopped
  | some (map, physAddr) =>
    if physAddr = 0 then .error (.failed map s.hat)
    else
      let (translation, mappedAddress) := hat.map s.hat s.logicalAddress physAddr piece pid
      if mappedAddress = 0 then .error (.failed map translation)
      else
        let first := s.logicalAddress = 0
        .ok {
          map := map
          hat := translation
          logicalAddress := wordAdd (if first then mappedAddress else s.logicalAddress) piece
          retAddress := if first then mappedAddress else s.retAddress }

/-- `while (size > bound)`, with pieces of one size; what is left of the size
afterwards. The last piece may exceed it. -/
def mapPieces (hat : HatLayer σ) (pid piece bound : Nat) (positive : 0 < piece) (size : Nat)
    (s : Request layout σ) : Except (Failure layout σ) (Nat × Request layout σ) :=
  if bound < size then
    match mapPiece hat pid piece s with
    | .error failure => .error failure
    | .ok s => mapPieces hat pid piece bound positive (size - piece) s
  else .ok (size, s)
termination_by size

/-- The loops of `alloc_logical`. The loop around the last two ends after one
round, for the last one leaves no size. -/
def mapArea (hat : HatLayer σ) (pid size : Nat) (s : Request layout σ) :
    Except (Failure layout σ) (Nat × Request layout σ) := do
  let (size, s) ← mapPieces hat pid mappingPagesize mappingPagesize (by decide) size s
  let (size, s) ← mapPieces hat pid 0x10000 0x10000 (by decide) size s
  mapPieces hat pid 0x1000 0 (by decide) size s

/-- `alloc_logical`; `none` when the kernel stops. -/
def allocLogical (hat : HatLayer σ) (m : PageMap layout) (h : σ) (size pid logicalAddress : Nat) :
    Option (PageMap layout × σ × Nat) :=
  match mapArea hat pid size ⟨m, h, logicalAddress, logicalAddress⟩ with
  | .ok (_, s) => some (s.map, s.hat, s.retAddress)
  | .error (.failed map h) => some (map, h, 0)
  | .error .stopped => none

/-- `while (length >= mappingSize)`; the map, the address and the length it
ends with. -/
def freePieces (translate : Nat → Nat) (mappingSize : Nat) (positive : 0 < mappingSize)
    (length : Nat) (m : PageMap layout) (address : Nat) :
    Except (PageMap layout) (PageMap layout × Nat × Nat) :=
  if mappingSize ≤ length then
    let phyAddress := translate address
    if phyAddress = 0 then .error m
    else
      let (m, error) := freePhysical m phyAddress (wordAdd phyAddress mappingSize)
      if isError error then .error m
      else freePieces translate mappingSize positive (length - mappingSize) m
        (wordAdd address mappingSize)
  else .ok (m, address, length)
termination_by length

/-- The loops of `free_logical` with the mapping sizes of their rounds. No
length is left after pieces of 4 KB. -/
def freeRounds (translate : Nat → Nat) (m : PageMap layout) (address length : Nat) :
    Except (PageMap layout) (PageMap layout × Nat × Nat) := do
  let (m, address, length) ←
    freePieces translate mappingPagesize (by decide) length m address
  let (m, address, length) ← freePieces translate 0x10000 (by decide) length m address
  freePieces translate 0x1000 (by decide) length m address

/-- A word as a signed number (`int4`). -/
def int4 (word : Nat) : Int := (BitVec.ofNat 32 word).toInt

/-- `free_logical`; no round is made for a negative length. -/
def freeLogical (translate : Nat → Nat) (m : PageMap layout) (start stop : Nat) :
    PageMap layout × ErrorT :=
  if stop ≤ start then (m, cInvalidArgument)
  else
    let start := alignFloor start 4096
    let stop := alignCeil stop 4096
    let length := int4 (wordSub stop start)
    match freeRounds translate m start length.toNat with
    | .ok (m, _, _) => (m, cOk)
    | .error m => (m, cError)

end Orcos.Source.PagedRam
