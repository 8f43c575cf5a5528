import Orcos.Source.Tasks.FileLoading

/-!
# The area of a task that is loaded

Source: src/source/process/TaskManager.cc, `loadTaskFromFile`.

The image is read to its area, and the arguments to the heap the image names; nothing compares
that place with the size of the area. Each exit takes away one page of the temporary mapping.
-/
namespace Orcos.Guarantees.ImageAreas
open Lib.ByteMemory Lib.Remapping Source Source.Tasks Source.Hal Source.Hal.HatLayer Source.PagedRam

section Specification

variable {layout : Layout} (c : LoadConfig) (r : LoadRequest layout) (rounds : Nat)

/-- The address lies in memory that was given to the task between two page maps. -/
def InArea (before after : PageMap layout) (tid address : Nat) : Prop :=
  ∃ u, layout.memStart + u * 4096 ≤ address ∧ address < layout.memStart + (u + 1) * 4096 ∧
    after.owner u = some tid ∧ before.owner u = none

/-- How much memory that is. -/
def areaBytes (before after : PageMap layout) (tid : Nat) : Nat :=
  ((Finset.range (layout.numPages * 256)).filter fun u =>
    after.owner u = some tid ∧ before.owner u = none).card * 4096

/-- How far the temporary mapping reaches: `map` takes a page for no bytes at all. -/
def temporarySize : Nat := if taskSize r = 0 then 0x1000 else taskSize r

/-- The area that is allocated. -/
def Allocates (pages : PageMap layout) (taskStart : Nat) : Prop :=
  r.tid ≠ 0 ∧ allocPhysical r.pages (taskSize r) r.tid = some (pages, taskStart) ∧ taskStart ≠ 0

/-- Everything is written to the area, and when the call returns no address of the temporary
mapping is mapped. -/
structure Confined : Prop where
  writes : ∀ pages taskStart, Allocates r pages taskStart →
    ∀ w ∈ (loadTaskFromFile c r rounds).writes, ∀ i < w.bytes.length,
      InArea r.pages pages r.tid ((w.address + i) % 2 ^ 32)
  unmapped : ∀ pages taskStart, Allocates r pages taskStart →
    (loadTaskFromFile c r rounds).result ≠ none → ∀ k < temporarySize r,
      (loadTaskFromFile c r rounds).hat.translate r.currentTask ((taskStart + k) % 2 ^ 32) = none

/-- What `checkValidTask` says about the image. -/
def checked (taskStart : Nat) : Option ErrorT :=
  checkValidTask c.image (imageMemory r taskStart) r.taskDatabase taskStart rounds

/-- The image is read, and a valid task. -/
def Valid (taskStart : Nat) : Prop :=
  0 ≤ r.file.readBytes ∧ ∃ error, checked c r rounds taskStart = some error ∧ 0 ≤ error

/-- The image is not read, or its check ends. -/
def Returns (taskStart : Nat) : Prop :=
  r.file.readBytes < 0 ∨ checked c r rounds taskStart ≠ none

/-- The area is as long as the bytes that are read, and reaches 256 bytes behind the start of the
heap when there are arguments; and it is mapped by one page. -/
def Fits : Prop :=
  ∀ pages taskStart, Allocates r pages taskStart →
    (imageBytes r).length ≤ areaBytes r.pages pages r.tid ∧
    (Valid c r rounds taskStart → r.arguments ≠ none →
      heapOffset c r taskStart + 256 ≤ areaBytes r.pages pages r.tid) ∧
    (Returns c r rounds taskStart → taskSize r ≤ 0x100000)

end Specification

section Areas

variable {layout : Layout} {before after : PageMap layout} {tid lo len : Nat}

theorem inArea_iff (granted : Granted before after tid lo len) (address : Nat) :
    InArea before after tid address ↔
      layout.memStart + lo * 4096 ≤ address ∧
      address < layout.memStart + lo * 4096 + len * 4096 := by
  have owned : ∀ u, (after.owner u = some tid ∧ before.owner u = none) ↔
      lo ≤ u ∧ u < lo + len := fun u => by
    rw [granted.after u]
    by_cases inside : lo ≤ u ∧ u < lo + len
    · rw [if_pos inside]
      exact iff_of_true ⟨rfl, granted.before u inside.1 inside.2⟩ inside
    · rw [if_neg inside]
      apply iff_of_false _ inside
      rintro ⟨own, none_⟩
      rw [none_] at own
      cases own
  simp only [InArea, owned]
  constructor
  · rintro ⟨u, low, high, first, last⟩
    omega
  · rintro ⟨low, high⟩
    obtain ⟨offset, rfl⟩ := Nat.exists_eq_add_of_le (le_trans (Nat.le_add_right _ _) low)
    have whole := Nat.div_add_mod offset 4096
    have below := Nat.mod_lt offset (by decide : 0 < 4096)
    generalize offset / 4096 = u at whole
    generalize offset % 4096 = rest at whole below
    subst whole
    have first : layout.memStart + u * 4096 ≤ layout.memStart + (4096 * u + rest) := by
      rw [Nat.mul_comm u]
      exact Nat.add_le_add_left (Nat.le_add_right _ _) _
    have last : layout.memStart + (4096 * u + rest) < layout.memStart + (u + 1) * 4096 := by
      rw [Nat.mul_comm (u + 1), Nat.mul_add]
      exact Nat.add_lt_add_left (Nat.add_lt_add_left below _) _
    exact ⟨u, first, last, by omega, by omega⟩

theorem areaBytes_eq (granted : Granted before after tid lo len) :
    areaBytes before after tid = len * 4096 := by
  have inside := granted.inside
  have units : (Finset.range (layout.numPages * 256)).filter (fun u =>
      after.owner u = some tid ∧ before.owner u = none) = Finset.Ico lo (lo + len) := by
    ext u
    rw [Finset.mem_filter, Finset.mem_range, Finset.mem_Ico, granted.after u]
    by_cases range : lo ≤ u ∧ u < lo + len
    · rw [if_pos range]
      exact iff_of_true ⟨by omega, rfl, granted.before u range.1 range.2⟩ range
    · rw [if_neg range]
      apply iff_of_false _ range
      rintro ⟨-, own, none_⟩
      rw [none_] at own
      cases own
  rw [areaBytes, units, Nat.card_Ico, Nat.add_sub_cancel_left]

/-- A block of bytes from the start of the area on. -/
theorem block_inArea_iff (granted : Granted before after tid lo len) (n : Nat) :
    (∀ i < n, InArea before after tid ((layout.memStart + lo * 4096 + i) % 2 ^ 32)) ↔
      n ≤ len * 4096 := by
  have inside := granted.inside
  have fits := layout.fits
  simp only [mappingPagesize] at fits
  simp only [inArea_iff granted]
  constructor
  · intro all
    by_contra long
    have beyond := all (len * 4096) (by omega)
    omega
  · intro short i below
    omega

end Areas

section Arguments

variable {args argLength : Nat} {name arguments : List (BitVec 8)}

/-- All that is written of the arguments lies in 256 bytes. -/
theorem writeArguments_within {w : Stored}
    (member : w ∈ writeArguments args name arguments argLength) :
    args ≤ w.address ∧ w.address + w.bytes.length ≤ args + 256 := by
  have named : (name.take 255).length ≤ 255 := by
    rw [List.length_take]
    omega
  simp only [writeArguments, List.mem_append, List.mem_cons, List.not_mem_nil, or_false] at member
  rcases member with ((first | middle) | rest) | last
  · rcases first with rfl | rfl | rfl
    · simp
    · simp only [List.length_append, List.length_singleton]
      omega
    · simp
  · split at middle
    case isTrue short =>
      simp only [List.mem_cons, List.not_mem_nil, or_false] at middle
      rcases middle with rfl | rfl
      · simp only [List.length_singleton]
        omega
      · simp only [List.length_singleton]
        omega
    case isFalse => cases middle
  · split at rest
    case isTrue some_ =>
      rw [List.mem_singleton.mp rest]
      have copied := Files.length_strncpy arguments
        (remainingLen (name.take 255).length argLength).toNat
      have bound : remainingLen (name.take 255).length argLength ≤
          255 - ((name.take 255).length : Int) - 1 := by
        unfold remainingLen
        dsimp only
        split <;> omega
      dsimp only
      omega
    case isFalse => cases rest
  · rw [last]
    simp

theorem writeArguments_ends (args argLength : Nat) (name arguments : List (BitVec 8)) :
    ⟨args, [0]⟩ ∈ writeArguments args name arguments argLength ∧
      ⟨args + 255, [0]⟩ ∈ writeArguments args name arguments argLength := by
  simp [writeArguments]

variable {layout : Layout} {before after : PageMap layout} {tid lo len offset : Nat}

/-- The arguments are inside when the 256 bytes are. -/
theorem arguments_inArea_iff (granted : Granted before after tid lo len)
    (word : offset < 2 ^ 32) :
    (∀ w ∈ writeArguments (wordAdd (layout.memStart + lo * 4096) offset) name arguments argLength,
      ∀ i < w.bytes.length, InArea before after tid ((w.address + i) % 2 ^ 32)) ↔
    offset + 256 ≤ len * 4096 := by
  have inside := granted.inside
  have fits := layout.fits
  have positive := layout.positive
  have aligned := Nat.le_of_dvd positive layout.isAligned
  simp only [mappingPagesize] at fits aligned
  simp only [inArea_iff granted]
  constructor
  · intro all
    obtain ⟨first, last⟩ := writeArguments_ends
      (wordAdd (layout.memStart + lo * 4096) offset) argLength name arguments
    have low := all _ first 0 (by simp)
    have high := all _ last 0 (by simp)
    simp only [wordAdd] at low high
    omega
  · intro short w member i below
    obtain ⟨low, high⟩ := writeArguments_within member
    have args : wordAdd (layout.memStart + lo * 4096) offset =
        layout.memStart + lo * 4096 + offset := wordAdd_eq (by omega)
    rw [args] at low high
    omega

end Arguments

section Removal

variable {platform : Platform} {s s' : HatLayer} {start size pid log phys x : Nat}
  {rights : Rights}

theorem inPage_of_small (same : x / 0x1000 = log / 0x1000) : s.InPage pid log x := by
  unfold InPage
  dsimp only
  split
  · omega
  · split
    · omega
    · exact same

/-- The tables of an address space as they were. -/
structure Kept (s s' : HatLayer) (pid : Nat) : Prop where
  sound : s'.Sound
  first : s'.first pid = s.first pid
  translate : s'.translate pid = s.translate pid

theorem Kept.refl (sound : s.Sound) : Kept s s pid := ⟨sound, rfl, rfl⟩

theorem mapTo_eq (real : log ≠ 0) (c : LoadConfig) :
    mapTo c s log phys size rights pid = (s.createPT c.board log phys size rights pid).1 := by
  rw [mapTo, Hal.HatLayer.map, if_pos real]
  rfl

/-- A mapping of whole sections is removed by one `unmap` when it has one section or none. -/
theorem unmapped_iff (sound : s.Sound)
    (kept : Kept (s.createPT platform start start size rights pid).1 s' pid)
    (logical : start < 2 ^ 32) (bounded : size < 2 ^ 32) (sections : size % 0x100000 = 0)
    (page : start % 0x1000 = 0) (aligned : size ≠ 0 → start % 0x100000 = 0) :
    (∀ k < if size = 0 then 0x1000 else size,
      (s'.unmap start pid).1.translate pid ((start + k) % 2 ^ 32) = none) ↔ size ≤ 0x100000 := by
  have unmaps := kept.sound.unmap_unmaps start pid
  constructor
  · intro none_
    by_contra several
    have start_ := aligned (by omega)
    have fits : s.Fits pid start size := by
      left
      rw [lastSize, lastOffset]
      omega
    have remaps := sound.createPT_remaps (by omega) (by omega) (by omega)
      (aligned_pageSize start_ size) (aligned_pageSize start_ size) platform rights pid
    rw [if_pos fits] at remaps
    have second := remaps.maps 0x100000 (Nat.lt_of_lt_of_le (by omega) (le_extent size))
    have gone := none_ 0x100000 (by rw [if_neg (by omega)]; omega)
    have outside : ¬ s'.InPage pid start ((start + 0x100000) % 2 ^ 32) := by
      unfold InPage
      dsimp only
      split
      · omega
      · split <;> omega
    rw [unmaps.frame _ outside, kept.translate, second] at gone
    cases gone
  · intro single k inside
    apply unmaps.gone
    by_cases empty : size = 0
    · rw [if_pos empty] at inside
      exact inPage_of_small (by omega)
    · rw [if_neg empty] at inside
      have start_ := aligned empty
      have one : size = 0x100000 := by omega
      have entry : s'.first pid (start / 0x100000) =
          sectionEntry (attributes platform.dcacheEnable rights) start := by
        rw [kept.first, one, createPT_section platform (by decide) (by decide), setFirst_first,
          if_pos ⟨rfl, rfl⟩]
      unfold InPage
      dsimp only
      rw [entry, typeOf_sectionEntry, if_pos rfl]
      omega

end Removal

section Calls

variable {layout : Layout} {c : LoadConfig} {r : LoadRequest layout} {rounds taskStart : Nat}
  {pages : PageMap layout}

/-- The ways of a call behind the allocation. -/
inductive Course (c : LoadConfig) (r : LoadRequest layout) (rounds taskStart : Nat) :
    Load layout → Prop
  | waits {pages : PageMap layout} {hat : HatLayer} (waits : ¬ Returns c r rounds taskStart) :
      Course c r rounds taskStart ⟨none, pages, hat, [⟨taskStart, imageBytes r⟩]⟩
  | abandons {pages : PageMap layout} {error : ErrorT} (returns : Returns c r rounds taskStart)
      (invalid : ¬ Valid c r rounds taskStart) :
      Course c r rounds taskStart
        (abandonTask r pages (mapTemporarily c r taskStart) taskStart error)
  | prepares {pages : PageMap layout} (valid : Valid c r rounds taskStart) :
      Course c r rounds taskStart (prepareTask c r pages (mapTemporarily c r taskStart) taskStart)

theorem course (allocates : Allocates r pages taskStart) :
    Course c r rounds taskStart (loadTaskFromFile c r rounds) := by
  rw [loadTaskFromFile, if_neg allocates.1, allocates.2.1]
  dsimp only
  rw [if_neg allocates.2.2, loadImage]
  by_cases failed : r.file.readBytes < 0
  · rw [if_pos failed]
    exact .abandons (Or.inl failed) fun valid => Int.not_le.mpr failed valid.1
  · rw [if_neg failed]
    cases check : checked c r rounds taskStart with
    | none =>
      rw [checked] at check
      rw [check]
      apply Course.waits
      rintro (negative | ends)
      · exact failed negative
      · exact ends check
    | some error =>
      have returns : Returns c r rounds taskStart :=
        Or.inr (by rw [check]; exact Option.some_ne_none _)
      by_cases bad : error < 0
      · have invalid : ¬ Valid c r rounds taskStart := by
          rintro ⟨-, error', same, good⟩
          rw [check] at same
          cases same
          exact Int.not_le.mpr bad good
        rw [checked] at check
        rw [check]
        dsimp only
        rw [if_pos bad]
        exact .abandons returns invalid
      · have valid : Valid c r rounds taskStart :=
          ⟨Int.not_lt.mp failed, error, check, Int.not_lt.mp bad⟩
        rw [checked] at check
        rw [check]
        dsimp only
        rw [if_neg bad]
        exact .prepares valid

theorem Valid.returns (valid : Valid c r rounds taskStart) : Returns c r rounds taskStart := by
  obtain ⟨-, error, same, -⟩ := valid
  right
  rw [same]
  exact Option.some_ne_none _

/-- What is written: the image, and the arguments of a valid task. -/
theorem Course.writes {load : Load layout} (course : Course c r rounds taskStart load)
    (w : Stored) :
    w ∈ load.writes ↔ w = ⟨taskStart, imageBytes r⟩ ∨
      Valid c r rounds taskStart ∧ w ∈ argumentWrites c r taskStart := by
  cases course with
  | waits waits =>
    have invalid : ¬ Valid c r rounds taskStart := fun valid => waits valid.returns
    simp [invalid]
  | abandons returns invalid => simp [abandonTask, invalid]
  | prepares valid => simp [prepareTask, valid]

theorem Course.result_ne_none_iff {load : Load layout}
    (course : Course c r rounds taskStart load) :
    load.result ≠ none ↔ Returns c r rounds taskStart := by
  cases course with
  | waits waits => exact iff_of_false (fun some_ => some_ rfl) waits
  | abandons returns invalid => exact iff_of_true (Option.some_ne_none _) returns
  | prepares valid => exact iff_of_true (Option.some_ne_none _) valid.returns

theorem mapTemporarily_eq (real : taskStart ≠ 0) : mapTemporarily c r taskStart =
    ((r.hat.unmapAll c.board r.tid).createPT c.board taskStart taskStart (taskSize r)
      temporaryRights r.currentTask).1 := mapTo_eq real c

/-- The mappings for the new task leave the others alone. -/
theorem kept_mapTask {s : HatLayer} (sound : s.Sound) (other : r.tid ≠ r.currentTask) :
    Kept s (mapTask c r s taskStart) r.currentTask := by
  have mapped : (s.createPT c.board c.logTaskSpaceStart taskStart (taskSize r) taskRights
      r.tid).1.Sound := sound.createPT _ _
  rw [mapTask, mapTo_eq c.real]
  constructor
  · exact mapped.mapAll
  · rw [mapAll_first_other other.symm, createPT_first_other _ _ _ _ _ _ other.symm]
  · rw [mapped.mapAll_other other.symm, sound.createPT_other _ _ other.symm]

/-- An exit is an `unmap` on the tables that the temporary mapping left. -/
theorem Course.hat {load : Load layout} (course : Course c r rounds taskStart load)
    (sound : (mapTemporarily c r taskStart).Sound) (other : r.tid ≠ r.currentTask)
    (returns : Returns c r rounds taskStart) :
    ∃ s', Kept (mapTemporarily c r taskStart) s' r.currentTask ∧
      load.hat = (s'.unmap taskStart r.currentTask).1 := by
  cases course with
  | waits waits => exact absurd returns waits
  | abandons _ invalid => exact ⟨_, .refl sound, rfl⟩
  | prepares valid => exact ⟨_, kept_mapTask sound other, rfl⟩

theorem taskSize_sections (r : LoadRequest layout) : taskSize r % 0x100000 = 0 :=
  Nat.mod_eq_zero_of_dvd (dvd_alignFloor _ (k := 20) (by decide) (by decide))

theorem taskSize_lt (r : LoadRequest layout) : taskSize r < 2 ^ 32 := by
  rw [taskSize, alignCeil, alignFloor]
  exact BitVec.isLt _

/-- The area that the call gets. -/
theorem allocates_granted (consistent : Consistent r.pages) (space : r.tid < 255)
    (allocates : Allocates r pages taskStart) : ∃ lo len, taskStart = layout.memStart + lo * 4096 ∧
      Granted r.pages pages r.tid lo len ∧ Extent layout (taskSize r) lo len := by
  rcases allocPhysical_granted consistent (taskSize r) (Nat.ne_of_lt space) with
    none_ | ⟨m', lo, len, granted, -, area, extent⟩
  · rw [allocates.2.1] at none_
    cases none_
    exact absurd rfl allocates.2.2
  · rw [allocates.2.1] at granted
    cases granted
    exact ⟨lo, len, rfl, area, extent⟩

theorem argumentWrites_none (absent : r.arguments = none) : argumentWrites c r taskStart = [] := by
  rw [argumentWrites, absent]

/-- The arguments of a valid task stay in its area when 256 bytes of it lie behind the heap. -/
theorem argumentWrites_inArea_iff {lo len : Nat} (area : Granted r.pages pages r.tid lo len)
    (start : taskStart = layout.memStart + lo * 4096) :
    (∀ w ∈ argumentWrites c r taskStart, ∀ i < w.bytes.length,
      InArea r.pages pages r.tid ((w.address + i) % 2 ^ 32)) ↔
    (r.arguments ≠ none → heapOffset c r taskStart + 256 ≤ areaBytes r.pages pages r.tid) := by
  cases given : r.arguments with
  | none =>
    rw [argumentWrites_none given]
    exact iff_of_true (fun w member => absurd member List.not_mem_nil) fun some_ => absurd rfl some_
  | some arguments =>
    have word : heapOffset c r taskStart < 2 ^ 32 := Nat.mod_lt _ (by decide)
    rw [areaBytes_eq area, argumentWrites, given]
    dsimp only
    generalize heapOffset c r taskStart = offset at word
    rw [start, arguments_inArea_iff area word]
    exact ⟨fun inside _ => inside, fun inside => inside (Option.some_ne_none _)⟩

/-- All is written to the area when the image and the arguments are as long as it at most. -/
theorem writes_inArea_iff {load : Load layout} (course : Course c r rounds taskStart load)
    {lo len : Nat} (area : Granted r.pages pages r.tid lo len)
    (start : taskStart = layout.memStart + lo * 4096) :
    (∀ w ∈ load.writes, ∀ i < w.bytes.length,
      InArea r.pages pages r.tid ((w.address + i) % 2 ^ 32)) ↔
    (imageBytes r).length ≤ areaBytes r.pages pages r.tid ∧
      (Valid c r rounds taskStart → r.arguments ≠ none →
        heapOffset c r taskStart + 256 ≤ areaBytes r.pages pages r.tid) := by
  have image : (∀ i < (imageBytes r).length,
      InArea r.pages pages r.tid ((taskStart + i) % 2 ^ 32)) ↔
      (imageBytes r).length ≤ areaBytes r.pages pages r.tid := by
    rw [areaBytes_eq area, start]
    exact block_inArea_iff area _
  have arguments := argumentWrites_inArea_iff (c := c) area start
  constructor
  · intro all
    constructor
    · exact image.mp (all _ ((course.writes _).mpr (Or.inl rfl)))
    · intro valid
      apply arguments.mp
      intro w member
      exact all w ((course.writes w).mpr (Or.inr ⟨valid, member⟩))
  · rintro ⟨whole, behind⟩ w member
    rcases (course.writes w).mp member with rfl | ⟨valid, member⟩
    · exact image.mpr whole
    · exact arguments.mpr (behind valid) w member

/-- A call that returns has removed its mapping when that has one section at most. -/
theorem hat_unmapped_iff {load : Load layout} (course : Course c r rounds taskStart load)
    (between : r.hat.Between) (space : r.tid < 255) (other : r.tid ≠ r.currentTask) {lo len : Nat}
    (area : Granted r.pages pages r.tid lo len) (extent : Extent layout (taskSize r) lo len)
    (start : taskStart = layout.memStart + lo * 4096) :
    (load.result ≠ none → ∀ k < temporarySize r,
      load.hat.translate r.currentTask ((taskStart + k) % 2 ^ 32) = none) ↔
    (Returns c r rounds taskStart → taskSize r ≤ 0x100000) := by
  rw [course.result_ne_none_iff]
  apply forall_congr'
  intro returns
  have positive := layout.positive
  have inside := area.inside
  have fits := layout.fits
  have memory := layout.isAligned
  simp only [mappingPagesize] at fits memory
  have logical : taskStart < 2 ^ 32 := by
    have some_ : 0 < len := by
      cases extent with
      | small _ _ => exact smallUnits_pos _
      | whole above _ => exact Nat.mul_pos (wholePages_pos above) (by decide)
      | short _ _ some_ _ _ => exact Nat.mul_pos some_ (by decide)
    omega
  have real : taskStart ≠ 0 := by omega
  have page : taskStart % 0x1000 = 0 := by omega
  have aligned : taskSize r ≠ 0 → taskStart % 0x100000 = 0 := by
    intro some_
    have sections := taskSize_sections r
    have multiple : 256 ∣ lo := by
      cases extent with
      | small below _ => omega
      | whole _ multiple => exact multiple
      | short _ multiple _ _ _ => exact multiple
    omega
  have sound := (between.unmapAll c.board space).sound
  have mapped : (mapTemporarily c r taskStart).Sound := by
    rw [mapTemporarily_eq real]
    exact sound.createPT _ _
  obtain ⟨s', kept, hat⟩ := course.hat mapped other returns
  rw [hat]
  rw [mapTemporarily_eq real] at kept
  exact unmapped_iff sound kept logical (taskSize_lt r) (taskSize_sections r) page aligned

/-- The tables are as calls leave them, and the id that is drawn is one of theirs and not that of
the running task. -/
theorem load_confined_iff (between : r.hat.Between) (consistent : Consistent r.pages)
    (space : r.tid < 255) (other : r.tid ≠ r.currentTask) :
    Confined c r rounds ↔ Fits c r rounds := by
  constructor
  · intro confined pages taskStart allocates
    obtain ⟨lo, len, start, area, extent⟩ := allocates_granted consistent space allocates
    have course : Course c r rounds taskStart (loadTaskFromFile c r rounds) := course allocates
    have writes := (writes_inArea_iff course area start).mp
      (confined.writes pages taskStart allocates)
    have removed := (hat_unmapped_iff course between space other area extent start).mp
      (confined.unmapped pages taskStart allocates)
    exact ⟨writes.1, writes.2, removed⟩
  · intro fits
    constructor
    · intro pages taskStart allocates
      obtain ⟨lo, len, start, area, extent⟩ := allocates_granted consistent space allocates
      obtain ⟨image, arguments, -⟩ := fits pages taskStart allocates
      exact (writes_inArea_iff (course allocates) area start).mpr ⟨image, arguments⟩
    · intro pages taskStart allocates
      obtain ⟨lo, len, start, area, extent⟩ := allocates_granted consistent space allocates
      obtain ⟨-, -, single⟩ := fits pages taskStart allocates
      exact (hat_unmapped_iff (course allocates) between space other area extent start).mpr single

end Calls

/-- The task space starts at 256 MB. -/
def config : LoadConfig where
  image := ⟨true, true, 0x100000, 1, 0, 0⟩
  board := ⟨true, 0x80000000, none, [], 0x80200000, 4⟩
  logTaskSpaceStart := 0x10000000
  real := by decide

/-- A file that cannot be read, and 2 MB of memory. -/
def unreadable (fileSize : Nat) : LoadRequest .twoPages where
  pages := .allFree .twoPages
  hat := blank 0#32 0x80100000
  memory := wordsAt 0 []
  taskDatabase := []
  tid := 1
  currentTask := 0
  file := ⟨fileSize, [], [], -1⟩
  arguments := none
  argLength := 0
  stackMappings := []

theorem between_unreadable (fileSize : Nat) : (unreadable fileSize).hat.Between :=
  ⟨sound_blank 0#32 (by decide), rfl, fun i below => if_pos below⟩

/-- The control block of a task without headers; its heap is 2 kB behind its start. -/
def image : List (BitVec 8) :=
  [0x230f7ae9#32, 0#32, 1#32, 0x10000000#32, 0x10000040#32, 0#32, 0x10000800#32,
    0x10001000#32].flatMap Files.le32

/-- The file sh of this image, and so many characters as arguments. -/
def request (n : Nat) : LoadRequest .twoPages :=
  { unreadable 32 with
    file := ⟨32, [115, 104], image, 32⟩
    arguments := some (List.replicate n 97)
    argLength := n }

/-- The task is loaded with three characters. -/
theorem load_confined_iff_request :
    Confined config (request 3) 1 ↔ Fits config (request 3) 1 :=
  load_confined_iff (between_unreadable 32) (.allFree _) (by decide) (by decide)

/-- Of a file of 1 MB and one byte that cannot be read, the second section stays mapped. -/
theorem second_section_stays_mapped :
    ¬ ∀ (c : LoadConfig) (r : LoadRequest .twoPages) (rounds : Nat),
    r.hat.Between → Consistent r.pages → r.tid < 255 → r.tid ≠ r.currentTask →
    Confined c r rounds := by
  intro all
  have between := between_unreadable 0x100001
  have consistent := Consistent.allFree .twoPages
  have confined := all config (unreadable 0x100001) 1 between consistent (by decide) (by decide)
  have allocated : (allocPhysical (PageMap.allFree .twoPages)
    (taskSize (unreadable 0x100001)) 1).any
      (fun answer => answer.2 ≠ 0) = true := by decide +kernel
  obtain ⟨⟨pages, taskStart⟩, result, nonzero⟩ := (Option.any_eq_true _ _).mp allocated
  have allocates : Allocates (unreadable 0x100001) pages taskStart :=
    ⟨Nat.one_ne_zero, result, of_decide_eq_true nonzero⟩
  obtain ⟨lo, len, start, area, extent⟩ :=
    allocates_granted (r := unreadable 0x100001) consistent (by decide) allocates
  have returns : Returns config (unreadable 0x100001) 1 taskStart := Or.inl (by decide)
  have single := (hat_unmapped_iff (course allocates) between (by decide) (by decide) area extent
    start).mp (confined.unmapped pages taskStart allocates) returns
  exact absurd single (by decide +kernel)

end Orcos.Guarantees.ImageAreas
