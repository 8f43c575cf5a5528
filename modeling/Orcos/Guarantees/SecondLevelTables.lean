import Orcos.Source.Hal.HatCalls

/-!
# Who uses the second-level tables

Source: src/source/arch/ARM/ARMv4T/ARMv7/ARMv7HatLayer.cc, `createPT`, `unmapAll`, the usage table.

Tables are taken by their ID; the loop that entered them into the usage table is commented
out. So no table that is in use is attributed to anyone, and none is ever given back.
-/
namespace Orcos.Guarantees.SecondLevelTables
open Source Source.Hal Source.Hal.HatLayer Lib.Runs Lib.WordBits

def InUse (s : HatLayer) (k : Nat) : Prop := k < 1023 ∧ bit s.freeSubPages.map k = false

/-- Each table in use has one entry that refers to it, in the address space that the usage table
names. -/
def Accounted (n : Nat) (s : HatLayer) : Prop :=
  ∀ k, InUse s k → ∃ pid < n, ∃ index, s.first pid index = s.tableAt k + 1 ∧
    (∀ q j, s.first q j = s.tableAt k + 1 → q = pid ∧ j = index) ∧ s.usage k = pid

/-- An address space is given up: no table is its own, those it had are free, and only the
kernel is mapped. -/
structure Released (platform : Platform) (s s' : HatLayer) (pid : Nat) : Prop where
  attributed : ∀ k < 1023, s'.usage k ≠ pid
  available : ∀ k < 1023, (∃ index, s.first pid index = s.tableAt k + 1) →
    bit s'.freeSubPages.map k = true
  kernel : ∀ x < 2 ^ 32, ∀ y, s'.translate pid x = some y → ∃ m ∈ s.kernelMappings platform,
    ∃ k < extent m.size, x = (m.virAddr + k) % 2 ^ 32 ∧ y = (m.phyAddr + k) % 2 ^ 32

/-- The last page of a mapping takes no table: there is no memory for tables, it is a section,
or its 1 MB is in use already. -/
def NoTable (s : HatLayer) (pid log size : Nat) : Prop :=
  s.pageTables = 0 ∨ 0x10000 < lastSize size ∨ s.first pid (lastIndex log size) ≠ 0

/-- A call takes no table. -/
def TakesNone {n : Nat} (s : HatLayer) : HatCall n → Prop
  | .map log phys size _ pid =>
    if log.toNat ≠ 0 then NoTable s pid log.toNat size.toNat
    else ∀ start, s.choose pid phys.toNat size.toNat = some (some start) →
      NoTable s pid start size.toNat
  | .unmap _ _ => True
  | .unmapAll _ => True

/-- The mappings of the board take no table. -/
def PlainBoard (platform : Platform) (pageTables : Nat) : Prop :=
  pageTables = 0 ∨ ∀ m ∈ platform.archKernelmappings, 0x10000 < lastSize m.size

variable {n : Nat} {platform : Platform} {s s' : HatLayer} {pid index log phys size : Nat}
  {rights : Rights}

theorem pageTableFor_ids {table : Nat} (sound : s.Sound)
    (found : s.pageTableFor pid index = some (s', table)) :
    s'.freeSubPages =
      if s.first pid index ≠ 0 then s.freeSubPages else s.freeSubPages.getNextID.1 := by
  have room := sound.pageTableFor_isSome.mp (Option.isSome_of_mem found)
  unfold pageTableFor at found
  rw [if_neg room.1] at found
  cases sound.entries pid index with
  | fault none_ =>
    rw [if_neg (not_not.mpr none_)]
    simp only [none_, tableOf_zero, if_true] at found
    split at found
    · cases found
    · cases found
      rfl
  | section_ type looks => exact absurd type room.2.1
  | table k known taken memory refers =>
    have used : s.first pid index ≠ 0 := by omega
    simp only [(sound.looks_refers refers).2, room.2.1, if_false] at found
    cases found
    rw [if_pos used]

instance (s : HatLayer) (pid log size : Nat) : Decidable (NoTable s pid log size) :=
  inferInstanceAs (Decidable (_ ∨ _))

theorem noTable_behind (several : 0x100000 < size) (bounded : size < 2 ^ 32) (entry : Nat) :
    NoTable (s.setFirst pid (log / 0x100000) entry) pid ((log + 0x100000) % 2 ^ 32)
      (size - 0x100000) ↔ NoTable s pid log size := by
  have other : lastIndex log size ≠ log / 0x100000 := by
    unfold lastIndex lastOffset
    omega
  have same : (s.setFirst pid (log / 0x100000) entry).first pid (lastIndex log size) =
      s.first pid (lastIndex log size) := by
    rw [setFirst_first, if_neg fun both => other both.2]
  rw [NoTable, NoTable, ← lastIndex_sections several, ← lastSize_sections several, same]
  rfl

/-- A single page below 1 MB takes a table only for an empty entry. -/
theorem noTable_page (small : size ≤ 0x10000) (logical : log < 2 ^ 32) :
    NoTable s pid log size ↔ s.pageTables = 0 ∨ s.first pid (log / 0x100000) ≠ 0 := by
  have page : ¬ 0x10000 < lastSize size := by
    rw [lastSize, lastOffset_page (by omega)]
    omega
  rw [NoTable, lastIndex, lastOffset_page (by omega), Nat.add_zero, Nat.mod_eq_of_lt logical,
    or_iff_right page]

/-- A page that takes a table finds none only where no ID is free. -/
theorem full_of_refused (sound : s.Sound) (refused : s.pageTableFor pid index = none)
    (memory : s.pageTables ≠ 0) (empty : s.first pid index = 0) :
    firstSet s.freeSubPages.map = none := by
  have full : ¬ s.Room pid index := by
    rw [← sound.pageTableFor_isSome, refused]
    decide
  cases first : firstSet s.freeSubPages.map with
  | none => rfl
  | some k =>
    refine absurd ⟨memory, ?_, Or.inr ?_⟩ full
    · rw [empty, typeOf_zero]
      decide
    · rw [first]
      rfl

/-- A mapping takes an ID exactly where it says so. -/
theorem createPT_ids (sound : s.Sound) (logical : log < 2 ^ 32) (bounded : size < 2 ^ 32) :
    (s.createPT platform log phys size rights pid).1.freeSubPages =
      if NoTable s pid log size then s.freeSubPages else s.freeSubPages.getNextID.1 := by
  refine createPT_induct platform (motive := fun s log _ size after => s.Sound → log < 2 ^ 32 →
      size < 2 ^ 32 → after.freeSubPages =
        if NoTable s pid log size then s.freeSubPages else s.freeSubPages.getNextID.1)
    ?_ ?_ ?_ ?_ s log phys size sound logical bounded
  · intro s log phys size small refused sound logical bounded
    by_cases none_ : NoTable s pid log size
    · rw [if_pos none_]
    · rw [if_neg none_]
      rw [noTable_page small logical, not_or, not_not] at none_
      rw [IDMap.getNextID_none (full_of_refused sound refused none_.1 none_.2)]
  · intro s after table log phys size small found sound logical bounded
    have room := sound.pageTableFor_isSome.mp (Option.isSome_of_mem found)
    rw [(writePage_constants table).2.2, pageTableFor_ids sound found]
    simp only [noTable_page small logical, or_iff_right room.1]
  · intro s log phys size large one sound logical bounded
    have plain : NoTable s pid log size := by
      refine Or.inr (Or.inl ?_)
      rw [lastSize, lastOffset_page one]
      omega
    rw [if_pos plain]
    rfl
  · intro s after log phys size several behind sound logical bounded
    have behind := behind (sound.setFirst_section _) (Nat.mod_lt _ (by decide)) (by omega)
    simp only [noTable_behind several bounded] at behind
    rw [behind]
    rfl

/-- No table is in use. -/
structure Unused (pageTables : Nat) (s : HatLayer) : Prop where
  between : s.Between
  place : s.pageTables = pageTables
  free : ∀ k < 1023, bit s.freeSubPages.map k = true

variable {pageTables : Nat}

theorem Unused.accounted (unused : Unused pageTables s) (n : Nat) : Accounted n s :=
  fun k inUse => absurd ((unused.free k inUse.1).symm.trans inUse.2) (by decide)

theorem Unused.createPT (unused : Unused pageTables s) (logical : log < 2 ^ 32)
    (bounded : size < 2 ^ 32) (none_ : NoTable s pid log size) :
    Unused pageTables (s.createPT platform log phys size rights pid).1 where
  between := unused.between.createPT _ _ _ _ _ _
  place := (sameRest_createPT s _ _ _ _ _ _).pageTables.trans unused.place
  free k below := by
    rw [createPT_ids unused.between.sound logical bounded, if_pos none_]
    exact unused.free k below

/-- A mapping that takes a table leaves one that no usage names. -/
theorem Unused.not_accounted (unused : Unused pageTables s) (spaces : n ≤ 255)
    (logical : log < 2 ^ 32) (bounded : size < 2 ^ 32) (takes : ¬ NoTable s pid log size) :
    ¬ Accounted n (s.createPT platform log phys size rights pid).1 := by
  intro accounted
  cases first : firstSet s.freeSubPages.map with
  | none =>
    have full := firstSet_eq_none first 0
    exact absurd ((unused.free 0 (by decide)).symm.trans full) (by decide)
  | some k =>
    have free := (firstSet_eq_some first).1
    have below := unused.between.sound.known k free
    have inUse : InUse (s.createPT platform log phys size rights pid).1 k := by
      refine ⟨below, ?_⟩
      rw [createPT_ids unused.between.sound logical bounded, if_neg takes,
        IDMap.getNextID_some first, bit_clearBit (inside_of_bit free)]
      simp
    obtain ⟨owner, space, index, -, -, usage⟩ := accounted k inUse
    have blank := (unused.between.createPT platform log phys size rights pid).unattributed k below
    omega

theorem unused_unmap (unused : Unused pageTables s) (log pid : Nat) :
    Unused pageTables (s.unmap log pid).1 where
  between := unused.between.unmap _ _
  place := (sameRest_unmap _ _).pageTables.trans unused.place
  free k below := by
    rw [unmap_ids]
    exact unused.free k below

/-- Mappings that take no table change no ID. -/
theorem mapAll_ids {mappings : List Mapping} (sound : s.Sound) (placed : ∀ m ∈ mappings, m.Placed)
    (plain : s.pageTables = 0 ∨ ∀ m ∈ mappings, 0x10000 < lastSize m.size) :
    (s.mapAll platform mappings pid).freeSubPages = s.freeSubPages := by
  induction mappings generalizing s with
  | nil => rfl
  | cons m mappings ih =>
    have here := placed m List.mem_cons_self
    have none_ : NoTable s pid m.virAddr m.size :=
      plain.imp_right fun all => Or.inl (all m List.mem_cons_self)
    rw [mapAll_cons, ih (sound.createPT _ _)
      (fun m later => placed m (List.mem_cons_of_mem _ later)),
      createPT_ids sound here.logical here.bounded, if_pos none_]
    rw [(sameRest_createPT s _ _ _ _ _ _).pageTables]
    exact plain.imp_right fun all m later => all m (List.mem_cons_of_mem _ later)

theorem Unused.mapAll {mappings : List Mapping} (unused : Unused pageTables s)
    (placed : ∀ m ∈ mappings, m.Placed)
    (plain : pageTables = 0 ∨ ∀ m ∈ mappings, 0x10000 < lastSize m.size) :
    Unused pageTables (s.mapAll platform mappings pid) where
  between := unused.between.of_sameRest sameRest_mapAll unused.between.sound.mapAll
  place := sameRest_mapAll.pageTables.trans unused.place
  free k below := by
    rw [mapAll_ids unused.between.sound placed (by rw [unused.place]; exact plain)]
    exact unused.free k below

/-- The kernel's own mappings are sections. -/
theorem plain_kernelMappings (plain : PlainBoard platform pageTables) :
    pageTables = 0 ∨ ∀ m ∈ s.kernelMappings platform, 0x10000 < lastSize m.size := by
  refine plain.imp_right fun all m member => ?_
  rcases kernelMappings_cases member with arch | ⟨start, protection, cacheMode, rfl, -⟩
  · exact all m arch
  · exact (by decide : 0x10000 < lastSize 0x100000)

/-- Giving up an address space gives no table back. -/
theorem unmapAll_ids (between : s.Between) (placed : platform.Placed)
    (below : s.pageTables < 2 ^ 32)
    (plain : PlainBoard platform s.pageTables) (space : pid < 255) :
    (s.unmapAll platform pid).freeSubPages = s.freeSubPages := by
  rw [unmapAll_eq between.unattributed space]
  exact mapAll_ids (between.sound.clearFirst pid) (between.sound.kernelMappings_placed below placed)
    (plain_kernelMappings plain)

theorem Unused.unmapAll (unused : Unused pageTables s) (placed : platform.Placed)
    (below : pageTables < 2 ^ 32) (plain : PlainBoard platform pageTables) (space : pid < 255) :
    Unused pageTables (s.unmapAll platform pid) := by
  have place := unused.place
  subst place
  refine ⟨unused.between.unmapAll platform space, ?_, fun k inside => ?_⟩
  · rw [unmapAll_eq unused.between.unattributed space]
    exact sameRest_mapAll.pageTables
  · rw [unmapAll_ids unused.between placed below plain space]
    exact unused.free k inside

/-- Giving up an address space while no table is in use. -/
theorem Unused.released (unused : Unused pageTables s) (placed : platform.Placed)
    (below : pageTables < 2 ^ 32) (plain : PlainBoard platform pageTables) (space : pid < 255) :
    Released platform s (s.unmapAll platform pid) pid where
  attributed k inside := by
    have blank := (unused.between.unmapAll platform space).unattributed k inside
    omega
  available k inside _ := (unused.unmapAll placed below plain space).free k inside
  kernel x inside y mapped := by
    rw [unmapAll_eq unused.between.unattributed space] at mapped
    rcases (unused.between.sound.clearFirst pid).mapAll_origin
      (unused.between.sound.kernelMappings_placed (by rw [unused.place]; exact below) placed)
      inside mapped with found | before
    · exact found
    · rw [clearFirst_translate inside] at before
      cases before

/-- The tables of a board with an aligned block for second-level tables. -/
structure Setting (platform : Platform) (pageTables n : Nat) : Prop where
  placed : platform.Placed
  aligned : pageTables % 0x100000 = 0
  below : pageTables < 2 ^ 32
  spaces : n ≤ 255
  plain : PlainBoard platform pageTables

theorem Unused.step (unused : Unused pageTables s) (setting : Setting platform pageTables n)
    (call : HatCall n) (none_ : TakesNone s call) : Unused pageTables (s.step platform call) := by
  cases call with
  | map log phys size rights pid =>
    simp only [TakesNone] at none_
    simp only [HatLayer.step]
    rcases unused.between.map_cases log.toNat phys.toNat size.toNat rights
      pid with ⟨eq, -⟩ | ⟨start, eq, ⟨given, rfl⟩ | ⟨given, found⟩⟩
    · rw [eq]
      exact unused
    · rw [eq]
      rw [if_pos given] at none_
      exact unused.createPT log.isLt size.isLt none_
    · rw [eq]
      rw [if_neg (not_not.mpr given)] at none_
      have below := unused.between.sound.choose_lt found
      exact unused.createPT (by omega) size.isLt (none_ start found)
  | unmap log pid => exact unused_unmap unused _ _
  | unmapAll pid =>
    have spaces := setting.spaces
    exact unused.unmapAll setting.placed setting.below setting.plain (by omega)

/-- While no table is in use, a call keeps all accounted for exactly if it takes none. -/
theorem Unused.takesNone_iff (unused : Unused pageTables s)
    (setting : Setting platform pageTables n)
    (call : HatCall n) : TakesNone s call ↔ Accounted n (s.step platform call) := by
  refine ⟨fun none_ => (unused.step setting call none_).accounted n, fun accounted => ?_⟩
  cases call with
  | map log phys size rights pid =>
    simp only [HatLayer.step] at accounted
    simp only [TakesNone]
    rcases unused.between.map_cases log.toNat phys.toNat size.toNat rights
      pid with ⟨-, given, nothing⟩ | ⟨start, eq, ⟨given, rfl⟩ | ⟨given, found⟩⟩
    · rw [if_neg (not_not.mpr given), nothing]
      intro start none_
      cases none_
    · rw [eq] at accounted
      rw [if_pos given]
      by_contra takes
      exact unused.not_accounted setting.spaces log.isLt size.isLt takes accounted
    · rw [eq] at accounted
      have below := unused.between.sound.choose_lt found
      rw [if_neg (not_not.mpr given), found]
      intro other same
      cases same
      by_contra takes
      exact unused.not_accounted setting.spaces (by omega) size.isLt takes accounted
  | unmap log pid => trivial
  | unmapAll pid => trivial

/-- The constructor's tables. -/
theorem Setting.construct (setting : Setting platform pageTables n) (beyond : BitVec 32) :
    Unused pageTables (construct platform beyond pageTables n) := by
  have start : Unused pageTables (blank beyond pageTables) :=
    ⟨⟨sound_blank beyond setting.aligned, rfl, fun i below => if_pos below⟩, rfl,
      fun k below => by rw [blank_bit]; exact decide_eq_true below⟩
  unfold HatLayer.construct
  generalize n = spaces
  induction spaces with
  | zero => exact start
  | succ pid ih =>
    have below : (mapKernels platform (blank beyond pageTables) pid).pageTables < 2 ^ 32 := by
      rw [ih.place]
      exact setting.below
    exact ih.mapAll (ih.between.sound.kernelMappings_placed below setting.placed)
      (plain_kernelMappings setting.plain)

/-- All tables in use are accounted for throughout a run exactly if no call takes one; and then
every address space can be given up. -/
theorem tables_accounted (setting : Setting platform pageTables n) (beyond : BitVec 32)
    (calls : List (HatCall n)) :
    (Throughout (HatLayer.step platform) (Accounted n)
      (construct platform beyond pageTables n) calls ↔
      Admissible (HatLayer.step platform) TakesNone
        (construct platform beyond pageTables n) calls) ∧
    (Admissible (HatLayer.step platform) TakesNone (construct platform beyond pageTables n) calls →
      ∀ pid : Fin n,
        Released platform (exec (HatLayer.step platform)
          (construct platform beyond pageTables n) calls)
          (HatLayer.step platform
            (exec (HatLayer.step platform) (construct platform beyond pageTables n) calls)
            (.unmapAll pid)) pid) := by
  have start := setting.construct beyond
  constructor
  · exact throughout_iff_admissible (Unused pageTables) (fun s unused => unused.accounted n)
      (fun s call unused => unused.takesNone_iff setting call)
      (fun s call unused accounted =>
        unused.step setting call ((unused.takesNone_iff setting call).mpr accounted)) calls _ start
  · intro admissible pid
    have spaces := setting.spaces
    have unused := exec_invariant (Unused pageTables)
      (fun s call unused none_ => unused.step setting call none_) calls _ start admissible
    exact unused.released setting.placed setting.below setting.plain (by omega)

/-- A board with its kernel at 0x80000000, 4 MB of devices and 4 MB of RAM. -/
def board : Platform where
  dcacheEnable := true
  loadAddress := 0x80000000
  cacheInhibitStart := none
  archKernelmappings := [⟨0x44C00000, 0x44C00000, 0x400000, 3, hatCacheMMIO⟩]
  memStart := 0x80200000
  numPages := 4

theorem setting_board : Setting board 0x80100000 2 where
  placed :=
    { load := by decide
      inhibit := nofun
      arch := by
        intro m member
        rw [List.mem_singleton.mp member]
        constructor <;> decide
      ram := by decide }
  aligned := by decide
  below := by decide
  spaces := by decide
  plain := Or.inr (by decide)

def userRights : Rights := ⟨3, hatCacheWriteBack, true⟩

/-- One call: a mapping of a size. -/
def mapping (size : BitVec 32) : List (HatCall 2) :=
  [.map 0x40000000#32 0x90000000#32 size userRights (Fin.last 1)]

/-- The tables after it. -/
def after (size : BitVec 32) : HatLayer :=
  exec (HatLayer.step board) (construct board 0#32 0x80100000 2) (mapping size)

theorem tables_accounted_section :
    Released board (after 0x100000#32)
      (HatLayer.step board (after 0x100000#32) (.unmapAll (1 : Fin 2))) 1 :=
  (tables_accounted setting_board 0#32 (mapping 0x100000#32)).2
    ⟨by rw [TakesNone, if_pos (by decide)]; exact Or.inr (Or.inl (by decide)), trivial⟩ 1

/-- One page of 4 KB: its table is attributed to nobody, and it is lost when the address space
is given up. -/
theorem tables_lost :
    ¬ Throughout (HatLayer.step board) (Accounted 2) (construct board 0#32 0x80100000 2)
      (mapping 0x1000#32) ∧
    ¬ Released board (after 0x1000#32)
      (HatLayer.step board (after 0x1000#32) (.unmapAll (1 : Fin 2))) 1 := by
  have start := setting_board.construct 0#32
  have mapped : (after 0x1000#32).Between :=
    start.between.step setting_board.spaces
      (.map 0x40000000#32 0x90000000#32 0x1000#32 userRights 1)
  refine ⟨fun throughout => ?_, fun released => ?_⟩
  · have accounted := throughout.2
    have page : ¬ NoTable (construct board 0#32 0x80100000 2) 1 0x40000000 0x1000 := by decide
    exact start.not_accounted (by decide) (by decide) (by decide) page accounted
  · have free := released.available 0 (by decide) ⟨0x400, by decide⟩
    have lost : (HatLayer.step board (after 0x1000#32) (.unmapAll (1 : Fin 2))).freeSubPages =
        (after 0x1000#32).freeSubPages :=
      unmapAll_ids mapped setting_board.placed (by decide) (Or.inr (by decide)) (by decide)
    rw [lost] at free
    revert free
    decide

end Orcos.Guarantees.SecondLevelTables
