import Mathlib.Algebra.Order.Ring.Int
import Orcos.Source.Alignment
import Orcos.Source.IDMap
import Orcos.Lib.Remapping

/-!
# Entries of the ARMv7 page tables

Source: src/source/arch/ARM/ARMv4T/ARMv7/ARMv7PtEntry.hh; src/source/hal/HatLayer.hh,
protection flags and cache modes; src/source/arch/ARM/ARMv4T/ARMv7/ARMv7HatLayer.cc,
`createPT`.

Words and addresses are natural numbers below 2 ^ 32. The fields that no function sets
stay 0.
-/
namespace Orcos.Source.Hal

def hatCacheWriteBack : Nat := 0
def hatCacheWriteThrough : Nat := 1
def hatCacheInhibit : Nat := 2
def hatCacheMMIO : Nat := 3

/-- `protection`, `cacheMode` and `nonGlobal` of a mapping. -/
structure Rights where
  protection : Nat
  cacheMode : Nat
  nonGlobal : Bool
  deriving DecidableEq

namespace Rights

def read (r : Rights) : Bool := r.protection.testBit 0
def write (r : Rights) : Bool := r.protection.testBit 1
def execute (r : Rights) : Bool := r.protection.testBit 2

end Rights

/-- The fields that entries of every size have. -/
structure Attributes where
  xnBit : Fin 2
  ap1Bits : Fin 4
  texBits : Fin 8
  cBit : Fin 2
  bBit : Fin 2
  nGBit : Fin 2
  deriving DecidableEq

/-- The access bits. No complement of a protection flag is 0, so the first test for user
mode always holds. -/
def accessBits (r : Rights) : Fin 4 :=
  if r.nonGlobal = false then 1
  else if r.read && r.write then 3
  else if r.read then 2
  else 1

/-- The bits TEX, C and B. -/
def cacheBits (r : Rights) : Fin 8 × Fin 2 × Fin 2 :=
  if r.cacheMode = hatCacheWriteBack then (5, 0, 1)
  else if r.cacheMode = hatCacheWriteThrough then (6, 1, 0)
  else if r.cacheMode = hatCacheMMIO then (0, 0, 1)
  else if r.nonGlobal then (6, 1, 0)
  else (0, 0, 0)

/-- What `createPT` writes into the fields; without `DCACHE_ENABLE` caches are inhibited. -/
def attributes (dcacheEnable : Bool) (r : Rights) : Attributes :=
  let (tex, c, b) := cacheBits (if dcacheEnable then r else { r with cacheMode := hatCacheInhibit })
  { xnBit := if r.execute then 0 else 1
    ap1Bits := accessBits r
    texBits := tex
    cBit := c
    bBit := b
    nGBit := if r.nonGlobal then 1 else 0 }

/-- `ARMv7PtEntry_Section_t`: type 2, domain 0. -/
def sectionEntry (a : Attributes) (physBaseAddr : Nat) : Nat :=
  2 + 4 * a.bBit + 8 * a.cBit + 16 * a.xnBit + 1024 * a.ap1Bits + 0x1000 * a.texBits +
    0x20000 * a.nGBit + 0x100000 * (physBaseAddr / 0x100000)

/-- `ARMv7PtEntry_LargePage_t`: type 1. -/
def largePageEntry (a : Attributes) (physBaseAddr : Nat) : Nat :=
  1 + 4 * a.bBit + 8 * a.cBit + 16 * a.ap1Bits + 0x800 * a.nGBit + 0x1000 * a.texBits +
    0x8000 * a.xnBit + 0x10000 * (physBaseAddr / 0x10000)

/-- `ARMv7PtEntry_SmallPage_t`: bit 1 set, bit 0 is XN. -/
def smallPageEntry (a : Attributes) (physBaseAddr : Nat) : Nat :=
  a.xnBit + 2 + 4 * a.bBit + 8 * a.cBit + 16 * a.ap1Bits + 64 * a.texBits + 0x800 * a.nGBit +
    0x1000 * (physBaseAddr / 0x1000)

/-- `entry & 0x3`. -/
def typeOf (entry : Nat) : Nat := entry % 4

/-- `entry & 0xFFFFFC00`. -/
def tableOf (entry : Nat) : Nat := entry / 1024 * 1024

/-- The address that a first-level section and an offset make. -/
def sectionAddress (entry address : Nat) : Nat := entry / 0x100000 * 0x100000 + address % 0x100000

/-- The address that an entry of a second-level table makes; type 0 is a fault. -/
def pageAddress (entry address : Nat) : Option Nat :=
  if typeOf entry = 0 then none
  else if typeOf entry = 1 then some (entry / 0x10000 * 0x10000 + address % 0x10000)
  else some (entry / 0x1000 * 0x1000 + address % 0x1000)

variable (a : Attributes) {phys log : Nat}

@[simp] theorem typeOf_zero : typeOf 0 = 0 := rfl

@[simp] theorem tableOf_zero : tableOf 0 = 0 := rfl

theorem accessBits_pos (r : Rights) : 1 ≤ (accessBits r).val := by
  unfold accessBits
  split
  · decide
  · split
    · decide
    · split <;> decide

theorem attributes_ap1Bits (dcacheEnable : Bool) (r : Rights) :
    (attributes dcacheEnable r).ap1Bits = accessBits r := rfl

theorem typeOf_sectionEntry : typeOf (sectionEntry a phys) = 2 := by
  unfold typeOf sectionEntry
  omega

/-- Access bits are set, so a section looks like an entry with a table. -/
theorem tableOf_sectionEntry (access : 1 ≤ a.ap1Bits.val) : tableOf (sectionEntry a phys) ≠ 0 := by
  unfold tableOf sectionEntry
  omega

theorem sectionAddress_eq (aligned : phys % 0x100000 = 0) (k : Nat) :
    sectionAddress (sectionEntry a phys) k = phys + k % 0x100000 := by
  have xn := a.xnBit.isLt
  have ap1 := a.ap1Bits.isLt
  have tex := a.texBits.isLt
  have c := a.cBit.isLt
  have b := a.bBit.isLt
  have nG := a.nGBit.isLt
  unfold sectionAddress sectionEntry
  omega

theorem pageAddress_zero (address : Nat) : pageAddress 0 address = none := rfl

theorem typeOf_largePageEntry : typeOf (largePageEntry a phys) = 1 := by
  unfold typeOf largePageEntry
  omega

theorem pageAddress_large (aligned : phys % 0x10000 = 0) (k : Nat) :
    pageAddress (largePageEntry a phys) k = some (phys + k % 0x10000) := by
  have xn := a.xnBit.isLt
  have ap1 := a.ap1Bits.isLt
  have tex := a.texBits.isLt
  have c := a.cBit.isLt
  have b := a.bBit.isLt
  have nG := a.nGBit.isLt
  have base : largePageEntry a phys / 0x10000 * 0x10000 = phys := by
    unfold largePageEntry
    omega
  rw [pageAddress, if_neg (by rw [typeOf_largePageEntry]; decide),
    if_pos (typeOf_largePageEntry a), base]

theorem pageAddress_small (aligned : phys % 0x1000 = 0) (k : Nat) :
    pageAddress (smallPageEntry a phys) k = some (phys + k % 0x1000) := by
  have xn := a.xnBit.isLt
  have ap1 := a.ap1Bits.isLt
  have tex := a.texBits.isLt
  have c := a.cBit.isLt
  have b := a.bBit.isLt
  have nG := a.nGBit.isLt
  have type : 2 ≤ typeOf (smallPageEntry a phys) := by
    unfold typeOf smallPageEntry
    omega
  have base : smallPageEntry a phys / 0x1000 * 0x1000 = phys := by
    unfold smallPageEntry
    omega
  rw [pageAddress, if_neg (by omega), if_neg (by omega), base]

end Orcos.Source.Hal

/-! ## Page tables of the ARMv7

Source: src/source/arch/ARM/ARMv4T/ARMv7/ARMv7HatLayer.cc, `map`, `createPT`, `unmap`,
`unmapAll`, `mapKernel`, `initialize` and the constructor; src/source/mem/PagedRamMemManager.cc,
`mapRAM`.

`first` is the table that the linker script places for an address space, by the index
`log >> 20`; `second` is the memory of the second-level tables, by the address of the table
and the index of the entry. The translation lookaside buffers are left out.
-/
namespace Orcos.Source.Hal

/-- `t_mapping`. -/
structure Mapping where
  virAddr : Nat
  phyAddr : Nat
  size : Nat
  protection : Nat
  cacheMode : Nat

/-- The configuration: `DCACHE_ENABLE`, `__LOADADDRESS`, `__cache_inihibit_start` with
`MEM_CACHE_INHIBIT`, `arch_kernelmappings`, and `MemStart` and `NumPages` of the RAM manager. -/
structure Platform where
  dcacheEnable : Bool
  loadAddress : Nat
  cacheInhibitStart : Option Nat
  archKernelmappings : List Mapping
  memStart : Nat
  numPages : Nat

/-- `pageTables` is 0 if the constructor got no memory; `locked` is `myMutex`. -/
structure HatLayer where
  pageTables : Nat
  usage : Nat → Nat
  freeSubPages : IDMap
  first : Nat → Nat → Nat
  second : Nat → Nat → Nat
  locked : Bool

namespace HatLayer

variable (platform : Platform) (s : HatLayer)

def setFirst (pid index entry : Nat) : HatLayer :=
  { s with first := fun q j => if q = pid ∧ j = index then entry else s.first q j }

def setSecond (table index entry : Nat) : HatLayer :=
  { s with second := fun t j => if t = table ∧ j = index then entry else s.second t j }

/-- `count` entries from `index` on. -/
def fill (table index entry : Nat) : Nat → HatLayer
  | 0 => s
  | n + 1 => (fill table index entry n).setSecond table (index + n) entry

/-- Address of the second-level table with an ID. -/
def tableAt (id : Nat) : Nat := s.pageTables + 1024 * (id + 1)

/-- The second-level table for a first-level entry, taken from the free ones if there is none. -/
def pageTableFor (pid index : Nat) : Option (HatLayer × Nat) :=
  if s.pageTables = 0 then none
  else
    let l1entry := s.first pid index
    if tableOf l1entry = 0 then
      let (ids, freePageIndex) := s.freeSubPages.getNextID
      if freePageIndex = -1 then none
      else
        let pageTable := s.tableAt freePageIndex.toNat
        some ({ s with freeSubPages := ids }.setFirst pid index (tableOf pageTable + 1), pageTable)
    else if typeOf l1entry = 2 then none
    else some (s, tableOf l1entry)

/-- The entry of a small page, or the 16 entries of a large page. -/
def writePage (pageTable log phys size : Nat) (a : Attributes) : HatLayer :=
  if size ≤ 0x1000 then s.setSecond pageTable (log / 0x1000 % 256) (smallPageEntry a phys)
  else s.fill pageTable (log / 0x1000 / 16 * 16 % 256) (largePageEntry a phys) 16

/-- `createPT` for as many sections as `fuel`; what the recursive call returns is not looked
at. -/
def createFrom (rights : Rights) (pid : Nat) :
    Nat → HatLayer → Nat → Nat → Nat → HatLayer × Nat
  | 0, s, _, _, _ => (s, 0)
  | fuel + 1, s, log, phys, size =>
    let a := attributes platform.dcacheEnable rights
    if size ≤ 0x10000 then
      match s.pageTableFor pid (log / 0x100000) with
      | none => (s, 0)
      | some (s, pageTable) => (s.writePage pageTable log phys size a, log)
    else
      let s := s.setFirst pid (log / 0x100000) (sectionEntry a phys)
      if size > 0x100000 then
        let s := (createFrom rights pid fuel s ((log + 0x100000) % 2 ^ 32)
          ((phys + 0x100000) % 2 ^ 32) (size - 0x100000)).1
        (s, log)
      else (s, log)

def createPT (log phys size : Nat) (rights : Rights) (pid : Nat) : HatLayer × Nat :=
  createFrom platform rights pid (size / 0x100000 + 1) s log phys size

theorem createFrom_fuel (rights : Rights) (pid : Nat) {fuel more size : Nat} (s : HatLayer)
    (log phys : Nat) (enough : size / 0x100000 < fuel) (enoughToo : size / 0x100000 < more) :
    createFrom platform rights pid fuel s log phys size =
      createFrom platform rights pid more s log phys size := by
  induction fuel generalizing more size s log phys with
  | zero => exact absurd enough (Nat.not_lt_zero _)
  | succ fuel ih =>
    obtain ⟨more, rfl⟩ := Nat.exists_eq_succ_of_ne_zero (Nat.ne_zero_of_lt enoughToo)
    simp only [createFrom]
    by_cases larger : size > 0x100000
    · have one : size = size - 0x100000 + 0x100000 :=
        (Nat.sub_add_cancel (Nat.le_of_lt larger)).symm
      have quotient : size / 0x100000 = (size - 0x100000) / 0x100000 + 1 := by
        rw [one, Nat.add_div_right _ (by decide), Nat.add_sub_cancel]
      rw [ih _ _ _ (show (size - 0x100000) / 0x100000 < fuel by omega)
        (show (size - 0x100000) / 0x100000 < more by omega)]
    · simp only [larger, if_false]

variable {s} {log phys size pid : Nat} {rights : Rights}

theorem createPT_page (small : size ≤ 0x10000) :
    s.createPT platform log phys size rights pid =
      match s.pageTableFor pid (log / 0x100000) with
      | none => (s, 0)
      | some (s, pageTable) =>
        (s.writePage pageTable log phys size (attributes platform.dcacheEnable rights), log) := by
  simp only [createPT, createFrom, small, if_true]

theorem createPT_section (large : 0x10000 < size) (single : size ≤ 0x100000) :
    (s.createPT platform log phys size rights pid).1 =
      s.setFirst pid (log / 0x100000)
        (sectionEntry (attributes platform.dcacheEnable rights) phys) := by
  simp only [createPT, createFrom, Nat.not_le.mpr large, Nat.not_lt.mpr single, if_false]

theorem createPT_sections (several : 0x100000 < size) :
    (s.createPT platform log phys size rights pid).1 =
      ((s.setFirst pid (log / 0x100000)
          (sectionEntry (attributes platform.dcacheEnable rights) phys)).createPT platform
        ((log + 0x100000) % 2 ^ 32) ((phys + 0x100000) % 2 ^ 32) (size - 0x100000) rights
        pid).1 := by
  have large : ¬ size ≤ 0x10000 := by omega
  have quotient : (size - 0x100000) / 0x100000 < size / 0x100000 := by omega
  rw [createPT, createFrom]
  simp only [large, several, if_false, if_true]
  rw [createPT, createFrom_fuel platform rights pid _ _ _ quotient (Nat.lt_succ_self _)]

/-- `createPT` by its branches: nothing for lack of a table, a page, a section, and a section
with the rest behind it. -/
theorem createPT_induct {motive : HatLayer → Nat → Nat → Nat → HatLayer → Prop}
    (refused : ∀ s log phys size, size ≤ 0x10000 →
      s.pageTableFor pid (log / 0x100000) = none → motive s log phys size s)
    (page : ∀ s s' table log phys size, size ≤ 0x10000 →
      s.pageTableFor pid (log / 0x100000) = some (s', table) →
      motive s log phys size
        (s'.writePage table log phys size (attributes platform.dcacheEnable rights)))
    (single : ∀ s log phys size, 0x10000 < size → size ≤ 0x100000 →
      motive s log phys size (s.setFirst pid (log / 0x100000)
        (sectionEntry (attributes platform.dcacheEnable rights) phys)))
    (several : ∀ s after log phys size, 0x100000 < size →
      motive (s.setFirst pid (log / 0x100000)
          (sectionEntry (attributes platform.dcacheEnable rights) phys))
        ((log + 0x100000) % 2 ^ 32) ((phys + 0x100000) % 2 ^ 32) (size - 0x100000) after →
      motive s log phys size after)
    (s : HatLayer) (log phys size : Nat) :
    motive s log phys size (s.createPT platform log phys size rights pid).1 := by
  induction size using Nat.strongRecOn generalizing s log phys with
  | _ size ih =>
    by_cases small : size ≤ 0x10000
    · rw [createPT_page platform small]
      cases found : s.pageTableFor pid (log / 0x100000) with
      | none => exact refused s log phys size small found
      | some result => exact page s result.1 result.2 log phys size small found
    · by_cases one : size ≤ 0x100000
      · rw [createPT_section platform (by omega) one]
        exact single s log phys size (by omega) one
      · have less : size - 0x100000 < size := by omega
        rw [createPT_sections platform (by omega)]
        exact several s _ log phys size (by omega) (ih (size - 0x100000) less _ _ _)

theorem createPT_large (large : 0x10000 < size) :
    (s.createPT platform log phys size rights pid).2 = log := by
  rw [createPT, createFrom]
  simp only [Nat.not_le.mpr large, if_false]
  split <;> rfl

variable (s)

/-- The area with a free first-level entry, a new one if none is open. -/
def areaWith (t : Nat) (areaStart : Option Nat) (areaSize : Nat) : Nat × Nat :=
  match areaStart with
  | none => (t * 0x100000, 0x100000)
  | some start => (start, areaSize + 0x100000)

/-- The search over first-level entries, `count` of them from `t` on. -/
def findSections (pid size : Nat) : Nat → Nat → Option Nat → Nat → Option Nat
  | 0, _, areaStart, _ => areaStart
  | count + 1, t, areaStart, areaSize =>
    if s.first pid t ≠ 0 then findSections pid size count (t + 1) none 0
    else
      let (start, areaSize) := areaWith t areaStart areaSize
      if areaSize ≥ size then some start
      else findSections pid size count (t + 1) (some start) areaSize

/-- The search over the entries of a second-level table from `i` on; the flag says that it
is done. A used entry can move `i` on. -/
def findPages (table t phys size : Nat) (i : Nat) (areaStart : Option Nat) (areaSize : Nat) :
    Bool × Option Nat × Nat :=
  if i < 256 then
    let used := s.second table i ≠ 0
    let start := if used then none else areaStart.or (some (t * 0x100000 + i * 0x1000))
    let areaSize := if used then 0 else areaSize + 0x1000
    let next := if used ∧ size > 0x1000 ∧ phys < 0x10000 then (i + 16) / 16 * 16 else i
    if areaSize ≥ size then (true, start, areaSize)
    else findPages table t phys size (next + 1) start areaSize
  else (false, areaStart, areaSize)
termination_by 256 - i
decreasing_by
  have onward : i ≤ next := by
    simp only [next]
    split <;> omega
  change 256 - (next + 1) < 256 - i
  omega

/-- The search for pages below 1 MB; without an answer the call returns with the lock. -/
def findSmall (pid phys size : Nat) : Nat → Nat → Option Nat → Option (Option Nat)
  | 0, _, areaStart => some areaStart
  | count + 1, t, areaStart =>
    let entry := s.first pid t
    if entry = 0 then some (some (t * 0x100000))
    else if typeOf entry = 2 then findSmall pid phys size count (t + 1) areaStart
    else if tableOf entry = 0 then none
    else
      match s.findPages (tableOf entry) t phys size 0 areaStart 0 with
      | (true, areaStart, _) => some areaStart
      | (false, areaStart, _) => findSmall pid phys size count (t + 1) areaStart

/-- What the choosing `map` does between acquiring its lock and releasing it. -/
def choose (pid phys size : Nat) : Option (Option Nat) :=
  if size ≥ 0x100000 then some (s.findSections pid size 1024 1024 none 0)
  else s.findSmall pid phys size 1024 1024 none

/-- `map` without a logical address; nothing if the lock is never released. -/
def mapAnywhere (phys size : Nat) (rights : Rights) (pid : Nat) : Option (HatLayer × Nat) :=
  if s.locked then none
  else
    match s.choose pid phys size with
    | none => some ({ s with locked := true }, 0)
    | some none => some (s, 0)
    | some (some areaStart) => some (s.createPT platform areaStart phys size rights pid)

/-- `map` with a logical address. -/
def map (log phys size : Nat) (rights : Rights) (pid : Nat) : Option (HatLayer × Nat) :=
  if log ≠ 0 then some (s.createPT platform log phys size rights pid)
  else s.mapAnywhere platform phys size rights pid

/-- The address space that `unmap` works on. -/
def spaceOf (tid : Nat) (currentTask : Option Nat) : Nat :=
  if tid = 0 then currentTask.getD 0 else tid

def unmap (log pid : Nat) : HatLayer × ErrorT :=
  let entry := s.first pid (log / 0x100000)
  if typeOf entry = 2 then (s.setFirst pid (log / 0x100000) 0, cOk)
  else if tableOf entry = 0 then (s, 0)
  else
    let pageTable := tableOf entry
    if typeOf (s.second pageTable (log / 0x1000 % 256)) = 1 then
      (s.fill pageTable (log / 0x1000 / 16 * 16 % 256) 0 16, cOk)
    else (s.setSecond pageTable (log / 0x1000 % 256) 0, cOk)

/-- The mappings of `mapKernel` in their order. -/
def kernelMappings : List Mapping :=
  let remap := if s.pageTables ≠ 0 then
    [⟨s.pageTables, s.pageTables, 0x100000, 3, hatCacheInhibit⟩] else []
  ⟨platform.loadAddress, platform.loadAddress, 0x100000, 7, hatCacheWriteBack⟩ ::
    (platform.cacheInhibitStart.toList.map fun start =>
      ⟨start, start, 0x100000, 3, hatCacheInhibit⟩) ++
    remap ++ platform.archKernelmappings ++
    ((List.range platform.numPages).map fun i =>
      ⟨platform.memStart + i * 0x100000, platform.memStart + i * 0x100000, 0x100000, 7,
        hatCacheWriteBack⟩) ++
    remap

/-- The mappings of a list for the kernel, in an address space. -/
def mapAll (mappings : List Mapping) (pid : Nat) : HatLayer :=
  mappings.foldl (fun s m =>
    (s.createPT platform m.virAddr m.phyAddr m.size ⟨m.protection, m.cacheMode, false⟩ pid).1) s

def mapKernel (pid : Nat) : HatLayer := s.mapAll platform (s.kernelMappings platform) pid

def clearFirst (pid : Nat) : HatLayer :=
  { s with first := fun q j => if q = pid ∧ j < 4096 then 0 else s.first q j }

def clearTable (table : Nat) : HatLayer :=
  { s with second := fun t j => if t = table ∧ j < 256 then 0 else s.second t j }

/-- The second-level tables below an ID that the usage table gives to `pid`. -/
def freeTables (pid : Nat) : Nat → HatLayer
  | 0 => s
  | i + 1 =>
    let s := freeTables pid i
    if s.usage i = pid then
      let s := s.clearTable (s.tableAt i)
      { s with
        usage := fun j => if j = i then 255 else s.usage j
        freeSubPages := (s.freeSubPages.freeID i).getD s.freeSubPages }
    else s

def unmapAll (pid : Nat) : HatLayer :=
  let s := s.clearFirst pid
  let s := if s.pageTables ≠ 0 then s.freeTables pid 1023 else s
  s.mapKernel platform pid

/-- The tables before any mapping. -/
def blank (beyond : BitVec 32) (pageTables : Nat) : HatLayer where
  pageTables := pageTables
  usage i := if i < 1023 then 255 else 0
  freeSubPages := IDMap.fresh beyond 1023
  first _ _ := 0
  second _ _ := 0
  locked := false

/-- `mapKernel` of the constructor for `maxNumPts` address spaces. -/
def mapKernels : Nat → HatLayer
  | 0 => s
  | pid + 1 => (mapKernels pid).mapKernel platform pid

def construct (beyond : BitVec 32) (pageTables maxNumPts : Nat) : HatLayer :=
  (blank beyond pageTables).mapKernels platform maxNumPts

end HatLayer

end Orcos.Source.Hal

/-! ## What the page tables translate

Source: src/source/arch/ARM/ARMv4T/ARMv7/ARMv7HatLayer.cc, `dumpPageTable` and `createPT`.

`translate` is the walk of the translation unit over the two levels, with the fields that
`ARMv7PtEntry.hh` gives to the entries. A first-level entry of type 2 is a section, of
type 1 it has the address of a second-level table.
-/
namespace Orcos.Source.Hal.HatLayer
open Orcos.Lib.Remapping

def translate (s : HatLayer) (pid address : Nat) : Option Nat :=
  let entry := s.first pid (address / 0x100000)
  if typeOf entry = 2 then some (sectionAddress entry address)
  else if typeOf entry = 1 then
    pageAddress (s.second (tableOf entry) (address / 0x1000 % 256)) address
  else none

/-- The addresses of the page of an address, as large as its entry says. -/
def InPage (s : HatLayer) (pid address x : Nat) : Prop :=
  let entry := s.first pid (address / 0x100000)
  if typeOf entry = 2 then x / 0x100000 = address / 0x100000
  else if typeOf (s.second (tableOf entry) (address / 0x1000 % 256)) = 1 then
    x / 0x10000 = address / 0x10000
  else x / 0x1000 = address / 0x1000

variable {s : HatLayer} {pid q index entry table log phys size x : Nat} {a : Attributes}

@[simp] theorem setFirst_first (q j : Nat) : (s.setFirst pid index entry).first q j =
    if q = pid ∧ j = index then entry else s.first q j := rfl

@[simp] theorem setFirst_second : (s.setFirst pid index entry).second = s.second := rfl

@[simp] theorem setSecond_first : (s.setSecond table index entry).first = s.first := rfl

@[simp] theorem setSecond_second (t j : Nat) : (s.setSecond table index entry).second t j =
    if t = table ∧ j = index then entry else s.second t j := rfl

@[simp] theorem fill_first (count : Nat) : (s.fill table index entry count).first = s.first := by
  induction count with
  | zero => rfl
  | succ n ih => rw [fill, setSecond_first, ih]

theorem fill_second (count t j : Nat) : (s.fill table index entry count).second t j =
    if t = table ∧ index ≤ j ∧ j < index + count then entry else s.second t j := by
  induction count with
  | zero =>
    have nowhere : ¬ (t = table ∧ index ≤ j ∧ j < index + 0) := by omega
    rw [fill, if_neg nowhere]
  | succ n ih =>
    rw [fill, setSecond_second, ih]
    by_cases last : t = table ∧ j = index + n
    · rw [if_pos last, if_pos (by omega)]
    · rw [if_neg last]
      have same : (t = table ∧ index ≤ j ∧ j < index + n) ↔
          (t = table ∧ index ≤ j ∧ j < index + (n + 1)) := by omega
      simp only [same]

/-- An address is translated by its first-level entry and the table there. -/
theorem translate_congr {t : HatLayer}
    (first : t.first q (x / 0x100000) = s.first pid (x / 0x100000))
    (second : typeOf (s.first pid (x / 0x100000)) = 1 →
      t.second (tableOf (s.first pid (x / 0x100000))) (x / 0x1000 % 256) =
        s.second (tableOf (s.first pid (x / 0x100000))) (x / 0x1000 % 256)) :
    t.translate q x = s.translate pid x := by
  simp only [translate, first]
  split
  · rfl
  · split
    · next type => rw [second type]
    · rfl

theorem translate_section (type : typeOf (s.first pid (x / 0x100000)) = 2) :
    s.translate pid x = some (sectionAddress (s.first pid (x / 0x100000)) x) := by
  rw [translate]
  exact if_pos type

theorem translate_table (type : typeOf (s.first pid (x / 0x100000)) = 1) :
    s.translate pid x =
      pageAddress (s.second (tableOf (s.first pid (x / 0x100000))) (x / 0x1000 % 256)) x := by
  simp only [translate, type]
  rfl

theorem translate_fault (none_ : s.first pid (x / 0x100000) = 0) : s.translate pid x = none := by
  simp only [translate, none_]
  rfl

/-- A section takes 1 MB, whatever was there. -/
theorem setFirst_remaps (logical : log < 2 ^ 32) (physical : phys < 2 ^ 32)
    (alignedLog : log % 0x100000 = 0) (alignedPhys : phys % 0x100000 = 0) :
    Remaps (2 ^ 32) (s.translate pid)
      ((s.setFirst pid (log / 0x100000) (sectionEntry a phys)).translate pid)
      log phys 0x100000 := by
  refine Remaps.of_page (by decide) (by decide) logical physical alignedLog alignedPhys fun x => ?_
  by_cases same : x / 0x100000 = log / 0x100000
  · have entry : (s.setFirst pid (log / 0x100000) (sectionEntry a phys)).first pid
        (x / 0x100000) = sectionEntry a phys := by
      rw [setFirst_first, if_pos ⟨rfl, same⟩]
    rw [if_pos same, translate_section (by rw [entry, typeOf_sectionEntry]), entry,
      sectionAddress_eq a alignedPhys]
  · rw [if_neg same]
    refine translate_congr ?_ fun _ => rfl
    rw [setFirst_first, if_neg fun both => same both.2]

theorem setFirst_other (other : q ≠ pid) :
    (s.setFirst pid index entry).translate q = s.translate q := by
  funext x
  refine translate_congr ?_ fun _ => rfl
  rw [setFirst_first, if_neg fun both => other both.1]

end Orcos.Source.Hal.HatLayer
