import Orcos.Guarantees.PageConsistency
import Orcos.Source.Tasks.Memory

/-!
# The deferred deletion of threads and the page map

Source: src/source/process/TaskManager.cc, `removeTask`, `terminateThread`;
src/source/process/Thread.cc, `~Thread`.

When a task is removed its pages are free at once, the stack of its last thread included,
which the deferred destructor frees again. This does no harm as long as no memory is handed
out in between, and a stack takes what its destructor frees.
-/
namespace Orcos.Guarantees.ThreadDeletion
open Lib.Runs Source Source.PagedRam Source.Tasks

variable {layout : Layout} {m m' : PageMap layout} {reserved : Nat} {s : TaskMemory layout}
  {stack area : Area}

/-! ## What a destructor frees -/

/-- The page of a unit is free. -/
def PageFree (m : PageMap layout) (u : Nat) : Prop := m.pages[u / 256]? = some Page.unused

/-- A stack size that `alloc_physical` does not round down. -/
def Rounded (size : Nat) : Prop := size < 2 ^ 32 ∧ (size ≤ 0x10000 ∨ 0x100000 ≤ size)

/-- A stack that was allocated, or not. -/
structure Placed (layout : Layout) (stack : Area) : Prop where
  rounded : Rounded stack.size
  place : stack.start = 0 ∨ ∃ lo len, stack.start = layout.memStart + lo * 4096 ∧
    Extent layout stack.size lo len ∧ lo + len ≤ layout.numPages * 256

theorem allocated_iff {lo len u : Nat} (start : stack.start = layout.memStart + lo * 4096)
    (extent : Extent layout stack.size lo len) (inside : lo + len ≤ layout.numPages * 256) :
    stack.Allocated layout u ↔ lo ≤ u ∧ u < lo + len := by
  have positive := layout.positive
  unfold Area.Allocated takenSize
  rw [start]
  cases extent with
  | small below _ =>
    rw [if_pos below, roundSize_small below]
    omega
  | whole above _ =>
    rw [if_neg (by omega)]
    omega
  | short above _ _ less ends =>
    rw [if_neg (by omega)]
    omega

theorem memStart_large (layout : Layout) : 0x100000 ≤ layout.memStart := by
  have aligned := layout.isAligned
  have positive := layout.positive
  unfold mappingPagesize at aligned
  omega

theorem alignFloor_low {a : Nat} (low : a < 2 ^ 32) : alignFloor a 4096 = a / 4096 * 4096 :=
  alignFloor_eq (k := 12) low rfl (by decide)

/-- Rounding up over the end of the addresses gives zero. -/
theorem alignCeil_word {a : Nat} (low : a < 2 ^ 32) : alignCeil a 4096 =
    if a + 4095 < 2 ^ 32 then (a + 4095) / 4096 * 4096 else 0 := by
  split_ifs with inside
  · exact alignCeil_eq (k := 12) inside rfl (by decide)
  · have same : BitVec.ofNat 32 (a + 4095) = BitVec.ofNat 32 (a + 4095 - 2 ^ 32) :=
      BitVec.eq_of_toNat_eq (by simp; omega)
    change (BitVec.ofNat 32 (a + 4095) &&& _).toNat = 0
    rw [same]
    change alignFloor (a + 4095 - 2 ^ 32) 4096 = 0
    rw [alignFloor_low (by omega)]
    omega

/-- The end of a stack that lies behind its start is not above start and size. -/
theorem physicalEndAddr_le (small : reserved < 0x100000) (word : stack.size < 2 ^ 32)
    (start : 0x100000 ≤ stack.start) (startWord : stack.start < 2 ^ 32)
    (behind : stack.start < stack.physicalEndAddr reserved) :
    stack.physicalEndAddr reserved ≤ stack.start + stack.size := by
  unfold Area.physicalEndAddr wordSub wordAdd at behind ⊢
  omega

/-- What the destructor frees of a stack was handed out with it. -/
theorem freed_allocated {lo hi u : Nat} (small : reserved < 0x100000)
    (placed : Placed layout stack)
    (range : FreedRange layout stack.start (stack.physicalEndAddr reserved) lo hi) :
    (lo ≤ u → u < hi → stack.Allocated layout u) ∧
      (256 ≤ hi - lo → lo / 256 * 256 ≤ u → u < (hi - 1) / 256 * 256 + 256 →
        stack.Allocated layout u) := by
  have base := memStart_large layout
  have fits := layout.fits
  have aligned := layout.isAligned
  unfold mappingPagesize at aligned fits
  have order := range.order
  have low := range.start
  have high := range.stop
  have endWord : stack.physicalEndAddr reserved < 2 ^ 32 := Nat.mod_lt _ (by decide)
  rcases placed.place with none_ | ⟨first, len, start, extent, inside⟩
  · rw [none_, alignFloor_low (by decide)] at low
    omega
  · have startWord : stack.start < 2 ^ 32 := by omega
    rw [alignFloor_low startWord] at low
    have same : lo = first := by omega
    subst same
    rw [alignCeil_word endWord] at high
    have behind : stack.start < stack.physicalEndAddr reserved := by
      split_ifs at high
      · omega
      · omega
    have bound := physicalEndAddr_le small placed.rounded.1 (by omega) startWord behind
    have last : hi * 4096 ≤ lo * 4096 + (stack.size + 4095) / 4096 * 4096 := by
      split_ifs at high
      · omega
      · omega
    rw [allocated_iff start extent inside]
    have size := placed.rounded.2
    have managed := range.inside
    cases extent with
    | small below multiple =>
      unfold smallUnits
      split_ifs
      · omega
      · omega
    | whole above multiple =>
      unfold wholePages
      omega
    | short above multiple positive less ends => omega

/-- A free page stays free. -/
theorem freePhysical_pageFree (m : PageMap layout) (start stop : Nat) {u : Nat}
    (free : PageFree m u) : PageFree (freePhysical m start stop).1 u := by
  unfold PageFree at free ⊢
  rcases freePhysical_cases m start stop with rejected | ⟨lo, hi, range⟩
  · rw [rejected]
    exact free
  · rw [freePhysical_range range, freeUnits]
    split_ifs
    · rw [PageMap.update, List.getElem?_mapIdx, free]
      simp
    · exact free
    · unfold freeMicropages
      cases entry : m.pages[lo / 256]? with
      | none => exact free
      | some p =>
        dsimp only
        split_ifs with whole few
        · exact free
        · exact free
        · by_cases here : lo / 256 = u / 256
          · rw [here, free] at entry
            cases entry
            exact absurd (by decide : Page.unused.usesMicropages ≠ 1) whole
          · rw [PageMap.setPage, List.getElem?_set_ne here]
            exact free

theorem freeAll_pageFree (m : PageMap layout) (pid : Nat) {u : Nat} (free : PageFree m u) :
    PageFree (freeAll m pid) u := by
  unfold PageFree at free ⊢
  rw [freeAll, PageMap.update, List.getElem?_mapIdx, free]
  simp

/-- The pages of a task are free once its memory is. -/
theorem freeAll_owned (m : PageMap layout) {pid u : Nat} (owned : m.owner u = some pid) :
    PageFree (freeAll m pid) u := by
  unfold PageFree
  unfold PageMap.owner at owned
  obtain ⟨p, entry, owner⟩ := Option.bind_eq_some_iff.mp owned
  have own : p.pid = pid := by
    rcases p.owner_eq (u % 256) with none_ | some_
    · rw [none_] at owner
      cases owner
    · rw [some_] at owner
      exact Option.some.inj owner
  rw [freeAll, PageMap.update, List.getElem?_mapIdx, entry]
  simp [own]

theorem owner_pageFree {u : Nat} (free : PageFree m u) : m.owner u = none := by
  unfold PageFree at free
  rw [PageMap.owner, free]
  rfl

/-- What a deletion does to the map: it frees no unit but those of the stack. -/
structure Freed (stack : Area) (m m' : PageMap layout) : Prop where
  consistent : Consistent m'
  owner : ∀ u, m'.owner u = m.owner u ∨ stack.Allocated layout u ∧ m'.owner u = none

/-- The destructor of a thread whose task lives. -/
theorem freed_own (small : reserved < 0x100000) (placed : Placed layout stack)
    (consistent : Consistent m)
    (owned : ∀ u, stack.Allocated layout u → m.owner u = some stack.pid) :
    Freed stack m (freePhysical m stack.start (stack.physicalEndAddr reserved)).1 := by
  rcases freePhysical_cases m stack.start (stack.physicalEndAddr reserved) with
    rejected | ⟨lo, hi, range⟩
  · rw [rejected]
    exact ⟨consistent, fun u => .inl rfl⟩
  · have allocated := fun u => freed_allocated (u := u) small placed range
    rw [freePhysical_range range]
    by_cases whole : 256 ≤ hi - lo
    · obtain ⟨m', result, kept, released⟩ := freeUnits_large (m := m) range.order whole
      rw [result]
      refine ⟨kept consistent, fun u => ?_⟩
      rw [released u]
      split_ifs with within
      · exact .inr ⟨(allocated u).2 whole within.1 within.2, rfl⟩
      · exact .inl rfl
    · rcases freeUnits_checks m (Nat.lt_of_not_le whole) with rejected | ⟨-, same, p, entry, split⟩
      · rw [rejected]
        exact ⟨consistent, fun u => .inl rfl⟩
      · obtain ⟨m', result, kept, released⟩ := freeUnits_small consistent range.order
          (Nat.lt_of_not_le whole) same entry split fun u low high => by
            rw [owned u ((allocated u).1 low high)]
            exact Option.some_ne_none _
        rw [result]
        refine ⟨kept, fun u => ?_⟩
        rw [released u]
        split_ifs with within
        · exact .inr ⟨(allocated u).1 within.1 within.2, rfl⟩
        · exact .inl rfl

/-- The destructor of a thread whose pages are free. -/
theorem freed_stale (small : reserved < 0x100000) (placed : Placed layout stack)
    (consistent : Consistent m)
    (free : ∀ u, stack.Allocated layout u → PageFree m u) :
    Consistent (freePhysical m stack.start (stack.physicalEndAddr reserved)).1 ∧
      ∀ u, (freePhysical m stack.start (stack.physicalEndAddr reserved)).1.owner u =
        m.owner u := by
  rcases freePhysical_cases m stack.start (stack.physicalEndAddr reserved) with
    rejected | ⟨lo, hi, range⟩
  · rw [rejected]
    exact ⟨consistent, fun u => rfl⟩
  · have allocated := fun u => freed_allocated (u := u) small placed range
    rw [freePhysical_range range]
    by_cases whole : 256 ≤ hi - lo
    · obtain ⟨m', result, kept, released⟩ := freeUnits_large (m := m) range.order whole
      rw [result]
      refine ⟨kept consistent, fun u => ?_⟩
      rw [released u]
      split_ifs with within
      · exact (owner_pageFree (free u ((allocated u).2 whole within.1 within.2))).symm
      · rfl
    · rcases freeUnits_checks m (Nat.lt_of_not_le whole) with rejected | ⟨-, -, p, entry, split⟩
      · rw [rejected]
        exact ⟨consistent, fun u => rfl⟩
      · -- the page would be one that is divided
        have unused := free lo ((allocated lo).1 (Nat.le_refl lo) range.order)
        rw [PageFree, entry] at unused
        cases unused
        cases split

/-! ## Runs -/

def Apart (layout : Layout) (a b : Area) : Prop :=
  ∀ u, a.Allocated layout u → ¬b.Allocated layout u

/-- The areas that are in the page map under their tasks' ids. -/
def held (s : TaskMemory layout) : List Area :=
  s.memory ++ s.threads ++ (s.dead.filter fun d => !d.orphan).map DeadThread.stack

/-- No dead thread of a removed task waits for its deletion. -/
def NoOrphan (s : TaskMemory layout) : Prop := ∀ d ∈ s.dead, d.orphan = false

/-- A new task has an id that no task has and that is not the mark of a free page. Memory is
only handed out while no thread of a removed task waits for its deletion, and for stacks
only in sizes that are not rounded down. -/
def Allowed (s : TaskMemory layout) : TaskMemory.Op → Prop
  | .create tid => tid < 255 ∧ tid ∉ s.tasks
  | .allocate tid _ => tid ∈ s.tasks ∧ NoOrphan s
  | .spawn tid stackSize => tid ∈ s.tasks ∧ NoOrphan s ∧ Rounded stackSize
  | _ => True

instance (s : TaskMemory layout) : Decidable (NoOrphan s) :=
  inferInstanceAs (Decidable (∀ d ∈ s.dead, d.orphan = false))

instance (size : Nat) : Decidable (Rounded size) := inferInstanceAs (Decidable (_ ∧ _))

instance (s : TaskMemory layout) : ∀ op, Decidable (Allowed s op)
  | .create _ => inferInstanceAs (Decidable (_ ∧ _))
  | .allocate _ _ => inferInstanceAs (Decidable (_ ∧ _))
  | .spawn _ _ => inferInstanceAs (Decidable (_ ∧ _ ∧ _))
  | .terminate _ | .kill _ | .delete _ => .isTrue trivial

structure Sound (s : TaskMemory layout) : Prop where
  consistent : Consistent s.pages
  real : ∀ tid ∈ s.tasks, tid < 255
  known : ∀ a ∈ held s, a.pid ∈ s.tasks
  owned : ∀ a ∈ held s, ∀ u, a.Allocated layout u → s.pages.owner u = some a.pid
  apart : (held s).Pairwise (Apart layout)
  freed : ∀ d ∈ s.dead, d.orphan = true → ∀ u, d.stack.Allocated layout u → PageFree s.pages u
  placed : ∀ a ∈ s.threads ++ s.dead.map DeadThread.stack, Placed layout a

theorem Apart.symm {a b : Area} (apart : Apart layout a b) : Apart layout b a :=
  fun u inB inA => apart u inA inB

theorem sound_fresh (layout : Layout) : Sound (freshTaskMemory layout) where
  consistent := .allFree layout
  real _ member := absurd member List.not_mem_nil
  known _ member := absurd member List.not_mem_nil
  owned _ member := absurd member List.not_mem_nil
  apart := List.Pairwise.nil
  freed _ member := absurd member List.not_mem_nil
  placed _ member := absurd member List.not_mem_nil

/-- What an allocation adds to the map. -/
structure Added (s : TaskMemory layout) (pages : PageMap layout) (area : Area) : Prop where
  consistent : Consistent pages
  fresh : ∀ u, area.Allocated layout u → s.pages.owner u = none
  new : ∀ u, area.Allocated layout u → pages.owner u = some area.pid
  old : ∀ u, s.pages.owner u ≠ none → pages.owner u = s.pages.owner u
  place : area.start = 0 ∨ ∃ lo len, area.start = layout.memStart + lo * 4096 ∧
    Extent layout area.size lo len ∧ lo + len ≤ layout.numPages * 256

theorem allocPhysical_added (consistent : Consistent s.pages) {tid size start : Nat}
    (real : tid < 255) {pages : PageMap layout}
    (result : allocPhysical s.pages size tid = some (pages, start)) :
    Added s pages ⟨tid, size, start⟩ := by
  rcases allocPhysical_granted consistent size (Nat.ne_of_lt real) with
    failed | ⟨m', lo, len, granting, kept, granted, extent⟩
  · rw [failed] at result
    cases result
    have none_ : ∀ u, ¬(⟨tid, size, 0⟩ : Area).Allocated layout u := fun u both => both.1 rfl
    exact ⟨consistent, fun u both => absurd both (none_ u), fun u both => absurd both (none_ u),
      fun u _ => rfl, .inl rfl⟩
  · rw [granting] at result
    cases result
    have range : ∀ u, (⟨tid, size, layout.memStart + lo * 4096⟩ : Area).Allocated layout u ↔
        lo ≤ u ∧ u < lo + len := fun _ => allocated_iff rfl extent granted.inside
    refine ⟨kept, fun u both => ?_, fun u both => ?_, fun u some_ => ?_, .inr
      ⟨lo, len, rfl, extent, granted.inside⟩⟩
    · have within := (range u).mp both
      exact granted.before u within.1 within.2
    · rw [granted.after u, if_pos ((range u).mp both)]
    · rw [granted.after u, if_neg fun within => some_ (granted.before u within.1 within.2)]

/-- A new area is apart from all that are held. -/
theorem Added.apart {pages : PageMap layout} (added : Added s pages area) (sound : Sound s)
    {a : Area} (member : a ∈ held s) : Apart layout a area := by
  intro u old new
  have owner := sound.owned a member u old
  rw [added.fresh u new] at owner
  cases owner

theorem Added.owned {pages : PageMap layout} (added : Added s pages area) (sound : Sound s)
    {a : Area} (member : a ∈ held s) {u : Nat} (inside : a.Allocated layout u) :
    pages.owner u = some a.pid := by
  have owner := sound.owned a member u inside
  rw [added.old u (by rw [owner]; exact Option.some_ne_none _), owner]

/-- The areas of a system grow by one. -/
theorem Sound.grow (sound : Sound s) (orphans : NoOrphan s) {pages : PageMap layout}
    (added : Added s pages area) (real : area.pid ∈ s.tasks) {memory threads : List Area}
    (grown : (held { s with pages := pages, memory := memory, threads := threads }).Perm
      (held s ++ [area]))
    (placed : ∀ a ∈ threads, a ∈ s.threads ∨ Placed layout a) :
    Sound { s with pages := pages, memory := memory, threads := threads } where
  consistent := added.consistent
  real := sound.real
  known a member := by
    rcases List.mem_append.mp (grown.mem_iff.mp member) with old | new
    · exact sound.known a old
    · rw [List.mem_singleton.mp new]
      exact real
  owned a member u inside := by
    rcases List.mem_append.mp (grown.mem_iff.mp member) with old | new
    · exact added.owned sound old inside
    · obtain rfl := List.mem_singleton.mp new
      exact added.new u inside
  apart := by
    refine (grown.pairwise_iff fun {a b} => Apart.symm).mpr ?_
    rw [List.pairwise_append]
    refine ⟨sound.apart, List.pairwise_singleton _ _, fun a old b new => ?_⟩
    rw [List.mem_singleton.mp new]
    exact added.apart sound old
  freed d member orphan := by
    rw [orphans d member] at orphan
    cases orphan
  placed a member := by
    rcases List.mem_append.mp member with thread | dead
    · rcases placed a thread with old | new
      · exact sound.placed a (List.mem_append_left _ old)
      · exact new
    · exact sound.placed a (List.mem_append_right _ dead)

theorem Sound.create (sound : Sound s) {tid : Nat} (real : tid < 255) :
    Sound { s with tasks := s.tasks ++ [tid] } where
  consistent := sound.consistent
  real other member := by
    rcases List.mem_append.mp member with old | new
    · exact sound.real other old
    · rw [List.mem_singleton.mp new]
      exact real
  known a member := List.mem_append_left _ (sound.known a member)
  owned := sound.owned
  apart := sound.apart
  freed := sound.freed
  placed := sound.placed

theorem Sound.allocate (sound : Sound s) {tid size : Nat} (known : tid ∈ s.tasks)
    (orphans : NoOrphan s) : Sound (s.allocate tid size) := by
  unfold TaskMemory.allocate
  cases result : allocPhysical s.pages size tid with
  | none => exact sound
  | some answer =>
    obtain ⟨pages, start⟩ := answer
    have added := allocPhysical_added sound.consistent (sound.real tid known) result
    dsimp only
    split_ifs with failed
    · subst failed
      exact ⟨added.consistent, sound.real, sound.known,
        fun a member u inside => added.owned sound member inside, sound.apart,
        fun d member orphan => absurd ((orphans d member).symm.trans orphan) (by decide),
        sound.placed⟩
    · refine sound.grow orphans added known ?_ fun a member => .inl member
      unfold held
      dsimp only
      simp only [List.append_assoc]
      refine List.Perm.append_left _ ?_
      rw [← List.append_assoc s.threads]
      exact List.perm_append_comm

theorem Sound.spawn (sound : Sound s) {tid size : Nat} (known : tid ∈ s.tasks)
    (orphans : NoOrphan s) (rounded : Rounded size) : Sound (s.spawn tid size) := by
  unfold TaskMemory.spawn
  cases result : allocPhysical s.pages size tid with
  | none => exact sound
  | some answer =>
    obtain ⟨pages, start⟩ := answer
    have added := allocPhysical_added sound.consistent (sound.real tid known) result
    refine sound.grow orphans added known ?_ fun a member => ?_
    · unfold held
      dsimp only
      simp only [List.append_assoc]
      exact List.Perm.append_left _ (List.Perm.append_left _ List.perm_append_comm)
    · rcases List.mem_append.mp member with old | new
      · exact .inl old
      · rw [List.mem_singleton.mp new]
        exact .inr ⟨rounded, added.place⟩

theorem held_removeTask (s : TaskMemory layout) (tid : Nat) :
    held (s.removeTask tid) = (held s).filter (·.pid ≠ tid) := by
  have dead (l : List DeadThread) : ((l.map fun d =>
      if d.stack.pid = tid then { d with orphan := true } else d).filter fun d =>
        !d.orphan).map DeadThread.stack =
      ((l.filter fun d => !d.orphan).map DeadThread.stack).filter (·.pid ≠ tid) := by
    induction l with
    | nil => rfl
    | cons d l ih =>
      by_cases own : d.stack.pid = tid
      · cases alive : d.orphan <;> simp [own, alive, ih]
      · cases alive : d.orphan <;> simp [own, alive, ih]
  unfold held TaskMemory.removeTask
  simp only [List.filter_append, dead]

theorem Sound.removeTask (sound : Sound s) (tid : Nat) : Sound (s.removeTask tid) where
  consistent := sound.consistent.freeAll tid
  real other member := sound.real other (List.mem_of_mem_filter member)
  known a member := by
    rw [held_removeTask] at member
    obtain ⟨old, other⟩ := List.mem_filter.mp member
    exact List.mem_filter.mpr ⟨sound.known a old, other⟩
  owned a member u inside := by
    rw [held_removeTask] at member
    obtain ⟨old, other⟩ := List.mem_filter.mp member
    have owner := sound.owned a old u inside
    have different : a.pid ≠ tid := of_decide_eq_true other
    change (freeAll s.pages tid).owner u = _
    rw [PageMap.owner_freeAll, owner, if_neg fun same => different (Option.some.inj same)]
  apart := by
    rw [held_removeTask]
    exact sound.apart.filter _
  freed d member orphan u inside := by
    obtain ⟨old, listed, rfl⟩ := List.mem_map.mp member
    change PageFree (freeAll s.pages tid) u
    split_ifs at orphan inside with own
    · cases stale : old.orphan with
      | true => exact freeAll_pageFree _ _ (sound.freed old listed stale u inside)
      | false =>
        have member : old.stack ∈ held s := List.mem_append_right _
          (List.mem_map.mpr ⟨old, List.mem_filter.mpr ⟨listed, by rw [stale]; rfl⟩, rfl⟩)
        apply freeAll_owned
        rw [← own]
        exact sound.owned old.stack member u inside
    · exact freeAll_pageFree _ _ (sound.freed old listed orphan u inside)
  placed a member := by
    rcases List.mem_append.mp member with thread | dead
    · exact sound.placed a (List.mem_append_left _ (List.mem_of_mem_filter thread))
    · obtain ⟨d, listed, rfl⟩ := List.mem_map.mp dead
      obtain ⟨old, there, rfl⟩ := List.mem_map.mp listed
      refine sound.placed _ (List.mem_append_right _ (List.mem_map.mpr ⟨old, there, ?_⟩))
      split_ifs <;> rfl

/-- The system without one of its threads. -/
theorem Sound.leave (sound : Sound s) (thread : Nat) :
    Sound { s with threads := s.threads.eraseIdx thread } := by
  have part : (held { s with threads := s.threads.eraseIdx thread }).Sublist (held s) :=
    ((List.Sublist.refl _).append (List.eraseIdx_sublist _ _)).append (List.Sublist.refl _)
  exact ⟨sound.consistent, sound.real, fun a member => sound.known a (part.subset member),
    fun a member => sound.owned a (part.subset member), sound.apart.sublist part, sound.freed,
    fun a member => sound.placed a
      (((List.eraseIdx_sublist _ _).append (List.Sublist.refl _)).subset member)⟩

/-- A dead thread joins the others, with its area or with free pages. -/
theorem Sound.bury (sound : Sound s) {orphan : Bool} (placed : Placed layout stack)
    (stale : orphan = true → ∀ u, stack.Allocated layout u → PageFree s.pages u)
    (alive : orphan = false → stack.pid ∈ s.tasks ∧
      (∀ u, stack.Allocated layout u → s.pages.owner u = some stack.pid) ∧
      ∀ a ∈ held s, Apart layout a stack) :
    Sound { s with dead := s.dead ++ [⟨stack, orphan⟩] } := by
  have part : ∀ a, a ∈ held { s with dead := s.dead ++ [⟨stack, orphan⟩] } →
      a ∈ held s ∨ (orphan = false ∧ a = stack) := by
    intro a member
    unfold held at member
    dsimp only at member
    rw [List.filter_append, List.map_append, ← List.append_assoc] at member
    rcases List.mem_append.mp member with old | new
    · exact .inl old
    · cases orphan with
      | true => simp at new
      | false => exact .inr ⟨rfl, by simpa using new⟩
  refine ⟨sound.consistent, sound.real, fun a member => ?_, fun a member => ?_, ?_,
    fun d member => ?_, fun a member => ?_⟩
  · rcases part a member with old | ⟨kept, rfl⟩
    · exact sound.known a old
    · exact (alive kept).1
  · rcases part a member with old | ⟨kept, rfl⟩
    · exact sound.owned a old
    · exact (alive kept).2.1
  · unfold held
    dsimp only
    rw [List.filter_append, List.map_append, ← List.append_assoc, List.pairwise_append]
    refine ⟨sound.apart, ?_, fun a old b new => ?_⟩
    · cases orphan <;> simp
    · cases orphan with
      | true => simp at new
      | false =>
        obtain rfl : b = stack := by simpa using new
        exact (alive rfl).2.2 a old
  · rcases List.mem_append.mp member with old | new
    · exact sound.freed d old
    · rw [List.mem_singleton.mp new]
      exact stale
  · rcases List.mem_append.mp member with thread | dead
    · exact sound.placed a (List.mem_append_left _ thread)
    · rw [List.map_append] at dead
      rcases List.mem_append.mp dead with old | new
      · exact sound.placed a (List.mem_append_right _ old)
      · obtain rfl : a = stack := by simpa using new
        exact placed

/-- A thread and the areas of the others. -/
theorem held_perm {thread : Nat} (here : s.threads[thread]? = some stack) :
    (held s).Perm (stack :: held { s with threads := s.threads.eraseIdx thread }) := by
  obtain ⟨inside, rfl⟩ := List.getElem?_eq_some_iff.mp here
  unfold held
  dsimp only
  have threads := (List.getElem_cons_eraseIdx_perm inside).symm
  refine ((threads.append_left s.memory).append_right _).trans ?_
  rw [List.append_assoc, List.append_assoc, List.cons_append]
  exact List.perm_middle

theorem Sound.terminateThread (sound : Sound s) (thread : Nat) :
    Sound (s.terminateThread thread) := by
  unfold TaskMemory.terminateThread
  cases here : s.threads[thread]? with
  | none => exact sound
  | some stack =>
    have perm := held_perm here
    have member : stack ∈ held s := perm.mem_iff.mpr List.mem_cons_self
    have placed : Placed layout stack :=
      sound.placed stack (List.mem_append_left _ (List.mem_of_getElem? here))
    have apart := (List.pairwise_cons.mp
      ((perm.pairwise_iff fun {a b} => Apart.symm).mp sound.apart)).1
    have rest := sound.leave thread
    dsimp only
    unfold TaskMemory.detach
    split_ifs with others
    · refine rest.bury placed (fun orphan => ?_) fun _ => ⟨sound.known stack member,
        sound.owned stack member, fun a listed => (apart a listed).symm⟩
      exact absurd (sound.known stack member) (of_decide_eq_true orphan)
    · refine (rest.removeTask stack.pid).bury placed (fun _ u inside => ?_) fun alive => ?_
      · exact freeAll_owned _ (sound.owned stack member u inside)
      · have kept : stack.pid ∈ s.tasks.filter (· ≠ stack.pid) :=
          Classical.not_not.mp (of_decide_eq_false alive)
        exact absurd rfl (of_decide_eq_true (List.mem_filter.mp kept).2)

/-- A dead thread of a live task and the areas of the others. -/
theorem held_perm_dead {i : Nat} {d : DeadThread} (here : s.dead[i]? = some d)
    (alive : d.orphan = false) (pages : PageMap layout) :
    (held s).Perm (d.stack :: held (s.withoutDead i pages)) := by
  obtain ⟨inside, rfl⟩ := List.getElem?_eq_some_iff.mp here
  unfold held TaskMemory.withoutDead
  dsimp only
  have dead := ((List.getElem_cons_eraseIdx_perm inside).symm.filter fun d => !d.orphan).map
    DeadThread.stack
  rw [List.filter_cons_of_pos (by rw [alive]; rfl), List.map_cons] at dead
  exact (dead.append_left _).trans List.perm_middle

/-- A map after a deletion: what is still held is untouched. -/
structure Deleted (s : TaskMemory layout) (i : Nat) (pages : PageMap layout) : Prop where
  consistent : Consistent pages
  part : ∀ a ∈ held (s.withoutDead i pages), a ∈ held s
  apart : (held (s.withoutDead i pages)).Pairwise (Apart layout)
  owner : ∀ a ∈ held (s.withoutDead i pages), ∀ u, a.Allocated layout u →
    pages.owner u = s.pages.owner u

theorem Sound.deleted_stale (sound : Sound s) (i : Nat) {pages : PageMap layout}
    (consistent : Consistent pages) (owner : ∀ u, pages.owner u = s.pages.owner u) :
    Deleted s i pages := by
  have part : (held (s.withoutDead i pages)).Sublist (held s) :=
    (((List.eraseIdx_sublist s.dead i).filter fun d => !d.orphan).map
      DeadThread.stack).append_left (s.memory ++ s.threads)
  exact ⟨consistent, fun a member => part.subset member, sound.apart.sublist part,
    fun a _ u _ => owner u⟩

theorem Sound.deleted_own (sound : Sound s) {i : Nat} {d : DeadThread}
    (here : s.dead[i]? = some d) (alive : d.orphan = false) {pages : PageMap layout}
    (freed : Freed d.stack s.pages pages) : Deleted s i pages := by
  have perm := held_perm_dead here alive pages
  have apart := List.pairwise_cons.mp
    ((perm.pairwise_iff fun {a b} => Apart.symm).mp sound.apart)
  refine ⟨freed.consistent, fun a listed => perm.mem_iff.mpr (List.mem_cons_of_mem _ listed),
    apart.2, fun a listed u inside => ?_⟩
  rcases freed.owner u with same | ⟨own, -⟩
  · exact same
  · exact absurd inside (apart.1 a listed u own)

/-- Every deletion leaves what is held untouched. -/
theorem Sound.deleted (small : reserved < 0x100000) (sound : Sound s) {i : Nat} {d : DeadThread}
    (here : s.dead[i]? = some d) :
    Deleted s i (freePhysical s.pages d.stack.start (d.stack.physicalEndAddr reserved)).1 := by
  have listed := List.mem_of_getElem? here
  have placed := sound.placed d.stack
    (List.mem_append_right _ (List.mem_map.mpr ⟨d, listed, rfl⟩))
  cases alive : d.orphan with
  | true =>
    have stale := freed_stale small placed sound.consistent (sound.freed d listed alive)
    exact sound.deleted_stale i stale.1 stale.2
  | false =>
    have member : d.stack ∈ held s :=
      (held_perm_dead here alive s.pages).mem_iff.mpr List.mem_cons_self
    exact sound.deleted_own here alive
      (freed_own small placed sound.consistent (sound.owned d.stack member))

theorem Deleted.sound {i : Nat} {pages : PageMap layout} (deleted : Deleted s i pages)
    (sound : Sound s) (free : ∀ u, PageFree s.pages u → PageFree pages u) :
    Sound (s.withoutDead i pages) where
  consistent := deleted.consistent
  real := sound.real
  known a member := sound.known a (deleted.part a member)
  owned a member u inside :=
    (deleted.owner a member u inside).trans (sound.owned a (deleted.part a member) u inside)
  apart := deleted.apart
  freed d member orphan u inside :=
    free u (sound.freed d ((List.eraseIdx_sublist _ _).subset member) orphan u inside)
  placed a member := sound.placed a (((List.Sublist.refl _).append
    ((List.eraseIdx_sublist _ _).map DeadThread.stack)).subset member)

theorem Deleted.owner_live {i u : Nat} {pages : PageMap layout} (deleted : Deleted s i pages)
    (member : area ∈ s.memory ++ s.threads) (inside : area.Allocated layout u) :
    pages.owner u = s.pages.owner u :=
  deleted.owner area (List.mem_append_left _ member) u inside

theorem Sound.delete (small : reserved < 0x100000) (sound : Sound s) (i : Nat) :
    Sound (s.delete reserved i) := by
  unfold TaskMemory.delete
  cases here : s.dead[i]? with
  | none => exact sound
  | some d =>
    exact (sound.deleted small here).sound sound fun u free => freePhysical_pageFree _ _ _ free

theorem Sound.step (small : reserved < 0x100000) (sound : Sound s) (op : TaskMemory.Op)
    (allowed : Allowed s op) : Sound (s.step reserved op) := by
  cases op with
  | create tid => exact sound.create allowed.1
  | allocate tid size => exact sound.allocate allowed.1 allowed.2
  | spawn tid stackSize => exact sound.spawn allowed.1 allowed.2.1 allowed.2.2
  | terminate thread => exact sound.terminateThread thread
  | kill tid => exact sound.removeTask tid
  | delete i => exact sound.delete small i

/-- In a sound system a deletion frees no unit of a live task or thread. -/
theorem Sound.frees (small : reserved < 0x100000) (sound : Sound s) {i u : Nat}
    (frees : s.Frees reserved i u) : ¬s.InUse u := by
  rintro ⟨area, member, inside⟩
  obtain ⟨used, gone⟩ := frees
  unfold TaskMemory.delete at gone
  cases here : s.dead[i]? with
  | none =>
    rw [here] at gone
    exact used gone
  | some d =>
    have kept := (sound.deleted small here).owner_live member inside
    rw [here] at gone
    dsimp only at gone
    rw [TaskMemory.withoutDead_pages, kept] at gone
    exact used gone

/-- In every run in which memory is only handed out while no thread of a removed task
waits for its deletion, deletions free nothing that is in use. -/
theorem deletion_frees_own (small : reserved < 0x100000) (ops : List TaskMemory.Op)
    (allowed : Admissible (TaskMemory.step reserved) Allowed (freshTaskMemory layout) ops)
    (i u : Nat)
    (frees : (exec (TaskMemory.step reserved) (freshTaskMemory layout) ops).Frees reserved i u) :
    ¬(exec (TaskMemory.step reserved) (freshTaskMemory layout) ops).InUse u := by
  have sound : Sound (exec (TaskMemory.step reserved) (freshTaskMemory layout) ops) :=
    exec_invariant Sound (fun _ op sound allowed => sound.step small op allowed) ops _
      (sound_fresh layout) allowed
  exact sound.frees small frees

/-- A task with two threads, of which the first one is terminated. -/
def oneOfTwo : List TaskMemory.Op :=
  [.create 1, .allocate 1 0x100000, .spawn 1 0x1000, .spawn 1 0x1000, .terminate 0]

theorem deletion_frees_own_oneOfTwo :
    ¬(exec (TaskMemory.step 12) (freshTaskMemory .twoPages) oneOfTwo).InUse 256 :=
  deletion_frees_own (by decide) oneOfTwo (by decide +kernel) 0 256 (by decide +kernel)

/-- A task that ends, and a task that gets its memory before its thread is deleted. -/
def replaced : List TaskMemory.Op :=
  [.create 1, .allocate 1 0x100000, .spawn 1 0x1000, .terminate 0,
    .create 1, .allocate 1 0x100000, .spawn 1 0x1000]

/-- The deletion of the old thread frees the stack of the new one. -/
theorem replaced_frees_foreign :
    (exec (TaskMemory.step 12) (freshTaskMemory .twoPages) replaced).Frees 12 0 256 ∧
      (exec (TaskMemory.step 12) (freshTaskMemory .twoPages) replaced).InUse 256 := by
  decide +kernel

end Orcos.Guarantees.ThreadDeletion
