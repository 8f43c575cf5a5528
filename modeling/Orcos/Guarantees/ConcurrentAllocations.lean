import Orcos.Guarantees.PhysicalPages
import Orcos.Source.PagedRam.Operations
import Orcos.Source.PagedRam.Ownership

/-!
# Several callers get physical pages

Source: src/source/mem/PagedRamMemManager.cc, `alloc_physical`, `markAsUsed`.

From 1 MB on, pages that were found free are marked in a second section, which does not look
again. What one caller has found another one may have taken in between.
-/
namespace Orcos.Guarantees.ConcurrentAllocations
open Orcos.Source Orcos.Source.PagedRam Orcos.Guarantees.PhysicalPages Orcos.Lib.Runs

variable {τ : Type} {layout : Layout}

/-- Areas without a common byte. -/
def Apart (a size b size' : Nat) : Prop :=
  ∀ x, a ≤ x → x < a + size → b ≤ x → ¬x < b + size'

/-- Each unit of the area is the process's. -/
structure Owned (m : PageMap layout) (a size pid : Nat) : Prop where
  low : layout.memStart ≤ a
  units : ∀ u, Covers layout a size u → m.owner u = some pid

/-- The areas that were returned are pairwise disjoint, and each was the caller's when it was
returned. -/
structure Safe (s : Callers τ layout) : Prop where
  disjoint : s.returned.Pairwise fun a b => Apart a.addr a.size b.addr b.size
  owned : ∀ a ∈ s.returned, Owned a.map a.addr a.size a.pid

/-- A call is for a process, and one that a single caller would be served with; and pages that
were found free are so still when they are marked. -/
def Timely (s : Callers τ layout) : Section τ → Prop
  | .search caller size pid => s.phase caller = .away → pid < 255 ∧ Served s.map size pid
  | .mark caller => ∀ size pid areaStart areaSize,
      s.phase caller = .found size pid areaStart areaSize →
        ∀ i, areaStart ≤ layout.memStart + i * mappingPagesize →
          layout.memStart + i * mappingPagesize < areaStart + areaSize → FreeAt s.map.pages i
  | .return_ _ => True

/-- An area of whole pages that is long enough. -/
structure Found (layout : Layout) (size pid areaStart areaSize : Nat) : Prop where
  real : pid ≠ 255
  pages : ∃ j k, 0 < k ∧ j + k ≤ layout.numPages ∧ size ≤ k * mappingPagesize ∧
    areaStart = layout.memStart + j * mappingPagesize ∧ areaSize = k * mappingPagesize

/-- What a caller is about to return is its own, and apart from what others have. -/
structure Pending (s : Callers τ layout) (caller : τ) (size pid a : Nat) : Prop where
  owned : Owned s.map a size pid
  returned : ∀ b ∈ s.returned, Apart a size b.addr b.size
  others : ∀ other, other ≠ caller → ∀ size' pid' b,
    s.phase other = .returning size' pid' b → b ≠ 0 → Apart a size b size'

structure Sound (s : Callers τ layout) : Prop where
  settled : s.map.Settled
  safe : Safe s
  kept : ∀ a ∈ s.returned, Owned s.map a.addr a.size a.pid
  pending : ∀ caller size pid a, s.phase caller = .returning size pid a → a ≠ 0 →
    Pending s caller size pid a
  found : ∀ caller size pid areaStart areaSize,
    s.phase caller = .found size pid areaStart areaSize → Found layout size pid areaStart areaSize

variable {s : Callers τ layout} {m m' : PageMap layout} {caller : τ}
  {size pid a b size' pid' lo len : Nat}

theorem Apart.symm (apart : Apart a size b size') : Apart b size' a size :=
  fun x low high low' high' => apart x low' high' low high

/-- A new area has no unit that was owned before. -/
theorem apart_of_allocated (allocated : Allocated m m' size pid a) (owned : Owned m b size' pid') :
    Apart a size b size' := by
  intro x low high low' high'
  have start := allocated.low
  have unit : layout.memStart + (x - layout.memStart) / 4096 * 4096 ≤ x ∧
      x < layout.memStart + ((x - layout.memStart) / 4096 + 1) * 4096 := by omega
  have free := allocated.before ((x - layout.memStart) / 4096) ⟨by omega, by omega⟩
  have used := owned.units ((x - layout.memStart) / 4096) ⟨by omega, by omega⟩
  rw [free] at used
  cases used

theorem Owned.allocated (owned : Owned m b size' pid') (allocated : Allocated m m' size pid a) :
    Owned m' b size' pid' :=
  ⟨owned.low, fun u covered => allocated.kept u pid' (owned.units u covered)⟩

theorem owned_of_allocated (allocated : Allocated m m' size pid a) : Owned m' a size pid :=
  ⟨allocated.low, allocated.after⟩

variable [DecidableEq τ]

theorem phase_other {phase : Phase} {other : τ} (apart : other ≠ caller) :
    (s.setPhase caller phase).phase other = s.phase other := Function.update_of_ne apart _ _

/-- A caller gets an area. -/
theorem Sound.grant (sound : Sound s) (allocated : Allocated s.map m' size pid a)
    (settled : m'.Settled) : Sound ((s.setMap m').setPhase caller (.returning size pid a)) := by
  refine ⟨settled, ⟨sound.safe.disjoint, sound.safe.owned⟩,
    fun b member => (sound.kept b member).allocated allocated, ?_, ?_⟩
  · intro t size' pid' b phase some_
    by_cases own : t = caller
    · subst own
      rw [Callers.setPhase_phase] at phase
      cases phase
      refine ⟨owned_of_allocated allocated,
        fun c member => apart_of_allocated allocated (sound.kept c member), ?_⟩
      intro other apart size'' pid'' c held some'
      rw [phase_other apart] at held
      exact apart_of_allocated allocated (sound.pending other size'' pid'' c held some').owned
    · rw [phase_other own] at phase
      have pending := sound.pending t size' pid' b phase some_
      refine ⟨pending.owned.allocated allocated, pending.returned, ?_⟩
      intro other apart size'' pid'' c held some'
      by_cases new : other = caller
      · subst new
        rw [Callers.setPhase_phase] at held
        cases held
        exact (apart_of_allocated allocated pending.owned).symm
      · rw [phase_other new] at held
        exact pending.others other apart size'' pid'' c held some'
  · intro t size' pid' areaStart areaSize phase
    by_cases own : t = caller
    · subst own
      rw [Callers.setPhase_phase] at phase
      cases phase
    · rw [phase_other own] at phase
      exact sound.found t size' pid' areaStart areaSize phase

/-- A caller goes on without an area of its own. -/
theorem Sound.goOn (sound : Sound s) (phase : Phase)
    (nothing : ∀ size pid a, phase = .returning size pid a → a = 0)
    (found : ∀ size pid areaStart areaSize, phase = .found size pid areaStart areaSize →
      Found layout size pid areaStart areaSize) : Sound (s.setPhase caller phase) := by
  refine ⟨sound.settled, ⟨sound.safe.disjoint, sound.safe.owned⟩, sound.kept, ?_, ?_⟩
  · intro t size pid a held some_
    by_cases own : t = caller
    · subst own
      rw [Callers.setPhase_phase] at held
      exact absurd (nothing size pid a held) some_
    · rw [phase_other own] at held
      have pending := sound.pending t size pid a held some_
      refine ⟨pending.owned, pending.returned, ?_⟩
      intro other apart size' pid' b held' some'
      by_cases new : other = caller
      · subst new
        rw [Callers.setPhase_phase] at held'
        exact absurd (nothing size' pid' b held') some'
      · rw [phase_other new] at held'
        exact pending.others other apart size' pid' b held' some'
  · intro t size pid areaStart areaSize held
    by_cases own : t = caller
    · subst own
      rw [Callers.setPhase_phase] at held
      exact found size pid areaStart areaSize held
    · rw [phase_other own] at held
      exact sound.found t size pid areaStart areaSize held

theorem Sound.return_ (sound : Sound s) (held : s.phase caller = .returning size pid a) :
    Sound (s.return_ caller size pid a) := by
  have away : Sound (s.setPhase caller .away) := sound.goOn .away nofun nofun
  unfold Callers.return_
  by_cases some_ : a ≠ 0
  · rw [if_pos some_]
    have pending := sound.pending caller size pid a held some_
    refine ⟨away.settled, ⟨?_, ?_⟩, ?_, ?_, away.found⟩
    · exact List.pairwise_cons.mpr ⟨pending.returned, sound.safe.disjoint⟩
    · exact List.forall_mem_cons.mpr ⟨pending.owned, sound.safe.owned⟩
    · exact List.forall_mem_cons.mpr ⟨pending.owned, sound.kept⟩
    · intro t size' pid' b held' some'
      have other : t ≠ caller := by
        rintro rfl
        have here : (s.setPhase t .away).phase t = .returning size' pid' b := held'
        rw [Callers.setPhase_phase] at here
        cases here
      have rest := away.pending t size' pid' b held' some'
      refine ⟨rest.owned, List.forall_mem_cons.mpr ⟨?_, rest.returned⟩, rest.others⟩
      have before : s.phase t = .returning size' pid' b := by
        rw [← phase_other (s := s) other]
        exact held'
      exact (pending.others t other size' pid' b before some').symm
  · rw [if_neg some_]
    exact away

/-- A block of a page is long enough for what is asked of it. -/
theorem le_of_served {p p' : Page} {index : Nat} (small : size < 0x100000)
    (served : Served m size pid) (member : p ∈ m.pages)
    (grant : Grant pid (smallUnits size) index p p') : size ≤ smallUnits size * 4096 := by
  have room := grant.hasRoom
  unfold smallUnits at room ⊢
  split
  · omega
  · next long =>
    rw [if_neg long] at room
    rcases served with fits | ⟨_, none_⟩ | ⟨large, _⟩
    · omega
    · exact absurd room (none_ p member)
    · omega

theorem Sound.searchBlock (sound : Sound s) (small : size < 0x100000) (real : pid < 255)
    (served : Served s.map size pid) : Sound (s.search caller size pid) := by
  have blank := sound.settled.blank
  have isPid : pid ≠ 255 := Nat.ne_of_lt real
  have units : smallUnits size = 1 ∨ smallUnits size = 16 := by
    unfold smallUnits
    split <;> simp
  have isSmall : ¬0x100000 ≤ smallUnits size * 4096 := by omega
  unfold Callers.search
  rw [roundSize_small small, if_neg isSmall]
  rcases searchSmall_outcome pid layout.positive units blank 0 with
    ⟨failed, _⟩ | ⟨i, p, p', index, entry, grant, found⟩
  · rw [failed]
    exact sound.goOn _ (fun _ _ _ same => by cases same; rfl) nofun
  · rw [found]
    have address : layout.memStart + (0 + i) * mappingPagesize + index * 4096 =
        layout.memStart + (i * 256 + index) * 4096 := by
      simp only [mappingPagesize]
      omega
    dsimp only
    rw [address, Nat.zero_add]
    have member := List.mem_of_getElem? entry
    have fits := le_of_served small served member grant
    exact sound.grant ((allocated_iff (grant.granted entry isPid blank)).mpr fits)
      (PageMap.forall_setPage sound.settled (grant.settled (smallUnits_pos size) isPid))

/-- The search from 1 MB on finds nothing, or pages enough. -/
theorem Sound.searchPages (sound : Sound s) (large : 0x100000 ≤ size) (real : pid < 255)
    (served : Served s.map size pid) : Sound (s.search caller size pid) := by
  have rounded : roundSize size = size := by
    rw [roundSize, if_neg (Nat.not_lt.mpr large)]
  have enough : ∀ r, size ≤ r * mappingPagesize ↔ wholePages size ≤ r := by
    intro r
    simp only [mappingPagesize, wholePages]
    omega
  have positive : 0 < wholePages size := by
    rw [wholePages]
    omega
  unfold Callers.search
  rw [rounded, if_pos large]
  rcases searchArea_cases layout.memStart s.map.pages enough positive with
    ⟨j, run, found⟩ | ⟨r, last, found⟩
  · rw [found]
    refine sound.goOn _ (fun _ _ _ same => by cases same)
      fun size' pid' areaStart areaSize same => ?_
    cases same
    exact ⟨Nat.ne_of_lt real, j, wholePages size, positive, run.inside positive,
      (enough _).mpr (Nat.le_refl _), rfl, rfl⟩
  · -- a run that the map ends with is too short, and excluded
    have empty : r = 0 := by
      by_contra some_
      rcases served with small | ⟨small, _⟩ | ⟨_, ⟨j, run⟩ | used⟩
      · omega
      · omega
      · exact last.earlier j (by
          have inside := run.inside positive
          rw [s.map.complete]
          exact inside) run
      · have short := last.le
        rw [s.map.complete] at last short
        exact used (last.free (layout.numPages - 1) (by omega) (by omega))
    subst empty
    rw [found]
    exact sound.goOn _ (fun _ _ _ same => by cases same; rfl) fun _ _ _ _ same => by cases same

theorem Sound.search (sound : Sound s) (timely : pid < 255 ∧ Served s.map size pid) :
    Sound (s.search caller size pid) := by
  by_cases small : size < 0x100000
  · exact sound.searchBlock small timely.1 timely.2
  · exact sound.searchPages (Nat.le_of_not_lt small) timely.1 timely.2

/-- The pages found are marked while they are free. -/
theorem Sound.mark {areaStart areaSize : Nat} (sound : Sound s)
    (found : Found layout size pid areaStart areaSize)
    (free : ∀ i, areaStart ≤ layout.memStart + i * mappingPagesize →
      layout.memStart + i * mappingPagesize < areaStart + areaSize → FreeAt s.map.pages i) :
    Sound (s.mark caller size pid areaStart areaSize) := by
  obtain ⟨real, j, k, positive, inside, enough, rfl, rfl⟩ := found
  have run : RunAt s.map.pages k j := by
    intro i low high
    have left : j * mappingPagesize ≤ i * mappingPagesize := Nat.mul_le_mul_right _ low
    have right : i * mappingPagesize < j * mappingPagesize + k * mappingPagesize := by
      rw [← Nat.add_mul]
      exact Nat.mul_lt_mul_of_pos_right high (by decide)
    refine free i (Nat.add_le_add_left left _) ?_
    rw [Nat.add_assoc]
    exact Nat.add_lt_add_left right _
  have units (n : Nat) : n * mappingPagesize = n * 256 * 4096 := (Nat.mul_assoc n 256 4096).symm
  have fits : size ≤ k * 256 * 4096 := by
    rw [← units]
    exact enough
  rw [Callers.mark_eq (markAsUsed_area positive inside), units]
  exact sound.grant ((allocated_iff (run.granted positive real)).mpr fits)
    (sound.settled.take run positive)

theorem Sound.step {op : Section τ} (sound : Sound s) (timely : Timely s op) :
    Sound (s.step op) := by
  cases op with
  | search caller size pid =>
    unfold Callers.step
    dsimp only
    split
    · next away => exact sound.search (timely away)
    · exact sound
  | mark caller =>
    unfold Callers.step
    dsimp only
    split
    · next size pid areaStart areaSize held =>
      exact sound.mark (sound.found caller size pid areaStart areaSize held)
        (timely size pid areaStart areaSize held)
    · exact sound
  | return_ caller =>
    unfold Callers.step
    dsimp only
    split
    · next size pid a held => exact sound.return_ held
    · exact sound

/-- In every run of calls in which pages are still free when they are marked, the areas
returned are disjoint and their callers' own. -/
theorem allocations_safe (map : PageMap layout) (settled : map.Settled)
    (sections : List (Section τ))
    (timely : Admissible Callers.step Timely (.start map) sections) :
    Safe (exec Callers.step (.start map) sections) := by
  have started : Sound (.start map : Callers τ layout) :=
    ⟨settled, ⟨.nil, nofun⟩, nofun, nofun, nofun⟩
  have sound : Sound (exec Callers.step (.start map : Callers τ layout) sections) :=
    exec_invariant Sound (fun _ _ sound timely => sound.step timely) sections _ started timely
  exact sound.safe

/-- One call after the other. -/
theorem allocations_safe_two_pages :
    Safe (exec Callers.step (.start (PageMap.allFree .twoPages))
      [.search true 0x100000 7, .mark true, .search false 0x1000 8, .return_ false,
        .return_ true]) := by
  have first (i : Nat) (inside : i < 1) : FreeAt (PageMap.allFree .twoPages).pages i := by
    obtain rfl := Nat.lt_one_iff.mp inside
    exact ⟨Page.unused, rfl, rfl⟩
  refine allocations_safe _ (PageMap.Settled.allFree .twoPages) _
    ⟨fun _ => ⟨by decide, .inr (.inr ⟨by decide, .inl ⟨0, fun i _ => first i⟩⟩)⟩, ?_,
      fun _ => ⟨by decide, .inl (by decide)⟩, trivial, trivial, trivial⟩
  intro size pid areaStart areaSize found i low high
  obtain ⟨_, _, rfl, rfl⟩ := Phase.found.inj
    (show Phase.found 0x100000 7 0x100000 0x100000 = _ from found)
  change 0x100000 + i * 0x100000 < 0x100000 + 0x100000 at high
  exact first i (by omega)

/-- Two callers of 1 MB that search before one of them marks get the same page. -/
theorem allocations_unsafe :
    ¬Safe (exec Callers.step (.start (PageMap.allFree .twoPages))
      [.search true 0x100000 7, .search false 0x100000 8, .mark true, .mark false, .return_ true,
        .return_ false]) := by
  intro safe
  have both := (List.pairwise_cons.mp safe.disjoint).1 _ List.mem_cons_self
  exact both 0x100000 (by decide) (by decide) (by decide) (by decide)

end Orcos.Guarantees.ConcurrentAllocations
