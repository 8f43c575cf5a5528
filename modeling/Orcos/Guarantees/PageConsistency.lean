import Orcos.Lib.Runs
import Orcos.Source.PagedRam.Ownership

/-!
# Runs of the page map

As long as frees below 1 MB name units in use, all pages stay consistent. If,
besides, a free from 1 MB on covers all that is in use in the pages it touches,
no unit is handed out again before it was freed.
-/
namespace Orcos.Guarantees.PageConsistency
open Orcos.Lib.Runs Orcos.Source Orcos.Source.PagedRam

variable {layout : Layout}

inductive Call where
  | allocPhysical (size pid : Nat)
  | freePhysical (start stop : Nat)
  | freeAll (pid : Nat)

/-- The page map, and for each unit handed out and not freed yet the process
that got it. -/
structure Session (layout : Layout) where
  map : PageMap layout
  held : Nat → Option Nat

/-- Unit number `u` is handed out by an allocation that answered `a`. -/
def HandedOut (layout : Layout) (size a u : Nat) : Prop :=
  a ≤ layout.memStart + u * 4096 ∧ layout.memStart + u * 4096 < a + roundSize size ∧
    u < layout.numPages * 256

/-- Unit number `u` is named by a free. -/
def Named (layout : Layout) (start stop u : Nat) : Prop :=
  alignFloor start 4096 ≤ layout.memStart + u * 4096 ∧
    layout.memStart + u * 4096 < alignCeil stop 4096

instance (size a u : Nat) : Decidable (HandedOut layout size a u) :=
  inferInstanceAs (Decidable (_ ∧ _ ∧ _))

instance (start stop u : Nat) : Decidable (Named layout start stop u) :=
  inferInstanceAs (Decidable (_ ∧ _))

def step (s : Session layout) : Call → Session layout
  | .allocPhysical size pid =>
    match allocPhysical s.map size pid with
    | none => s
    | some (map, a) =>
      ⟨map, fun u => if a ≠ 0 ∧ HandedOut layout size a u then some pid else s.held u⟩
  | .freePhysical start stop =>
    let (map, error) := freePhysical s.map start stop
    ⟨map, fun u => if error = cOk ∧ Named layout start stop u then none else s.held u⟩
  | .freeAll pid => ⟨freeAll s.map pid, fun u => if s.held u = some pid then none else s.held u⟩

def start (layout : Layout) : Session layout := ⟨PageMap.allFree layout, fun _ => none⟩

/-- A process has not the number that stands for a free page, and an accepted
free below 1 MB names units in use. -/
def FreesUsed (s : Session layout) : Call → Prop
  | .allocPhysical _ pid => pid < 255
  | .freePhysical start stop => (freePhysical s.map start stop).2 = cOk →
      alignCeil stop 4096 - alignFloor start 4096 < 0x100000 →
      ∀ u, Named layout start stop u → s.map.owner u ≠ none
  | .freeAll _ => True

/-- An accepted free from 1 MB on names all units handed out in the pages it
touches. -/
def CoversPages (s : Session layout) : Call → Prop
  | .freePhysical start stop => (freePhysical s.map start stop).2 = cOk →
      0x100000 ≤ alignCeil stop 4096 - alignFloor start 4096 →
      ∀ u v, Named layout start stop u → v / 256 = u / 256 → s.held v ≠ none →
        Named layout start stop v
  | _ => True

/-- Who was handed a unit is its owner in the map. -/
def Accounted (s : Session layout) : Prop :=
  ∀ u pid, s.held u = some pid → s.map.owner u = some pid

theorem named_iff {first last lo hi : Nat} (range : FreedRange layout first last lo hi) (u : Nat) :
    Named layout first last u ↔ lo ≤ u ∧ u < hi := by
  rw [Named, range.start, range.stop]
  omega

/-- What a free did, in units. -/
theorem freePhysical_effect {s : Session layout} (consistent : Consistent s.map) {first last : Nat}
    (used : FreesUsed s (.freePhysical first last)) :
    freePhysical s.map first last = (s.map, cInvalidArgument) ∨
      ∃ m' lo hi, FreedRange layout first last lo hi ∧
        freePhysical s.map first last = (m', cOk) ∧ Consistent m' ∧
        ((hi - lo < 256 ∧ Released s.map m' lo hi) ∨
          (256 ≤ hi - lo ∧ Released s.map m' (lo / 256 * 256) ((hi - 1) / 256 * 256 + 256))) := by
  rcases freePhysical_cases s.map first last with rejected | ⟨lo, hi, range⟩
  · exact .inl rejected
  · rw [freePhysical_range range]
    by_cases small : hi - lo < 256
    · rcases freeUnits_checks s.map small with rejected | ⟨accepted, same, p, entry, split⟩
      · exact .inl rejected
      · have bytes : alignCeil last 4096 - alignFloor first 4096 < 0x100000 := by
          rw [range.start, range.stop]
          omega
        rw [← freePhysical_range range] at accepted
        obtain ⟨m', result, kept, released⟩ := freeUnits_small consistent range.order small same
          entry split fun u low high => used accepted bytes u ((named_iff range u).mpr ⟨low, high⟩)
        exact .inr ⟨m', lo, hi, range, result, kept, .inl ⟨small, released⟩⟩
    · obtain ⟨m', result, kept, released⟩ :=
        freeUnits_large (m := s.map) range.order (Nat.le_of_not_lt small)
      exact .inr ⟨m', lo, hi, range, result, kept consistent,
        .inr ⟨Nat.le_of_not_lt small, released⟩⟩

/-- Only units an allocation took are handed out. -/
theorem handedOut_range {size lo len u : Nat} (extent : Extent layout size lo len)
    (handed : HandedOut layout size (layout.memStart + lo * 4096) u) : lo ≤ u ∧ u < lo + len := by
  obtain ⟨low, high, managed⟩ := handed
  refine ⟨by omega, ?_⟩
  cases extent with
  | small below _ =>
    rw [roundSize_small below] at high
    omega
  | whole above _ =>
    rw [roundSize, if_neg (by omega)] at high
    rw [wholePages]
    omega
  | short _ _ _ _ ends => omega

theorem alloc_preserves {s : Session layout} (consistent : Consistent s.map) (size : Nat)
    {pid : Nat} (real : pid < 255) : Consistent (step s (.allocPhysical size pid)).map ∧
      (Accounted s → Accounted (step s (.allocPhysical size pid))) := by
  rcases allocPhysical_granted consistent size (Nat.ne_of_lt real) with
    failed | ⟨m', lo, len, result, kept, granted, extent⟩
  · simp only [step, failed]
    exact ⟨consistent, fun accounted u q => by simpa using accounted u q⟩
  · simp only [step, result]
    refine ⟨kept, fun accounted u q holds => ?_⟩
    simp only at holds
    rw [granted.after]
    by_cases handed : HandedOut layout size (layout.memStart + lo * 4096) u
    · have nonzero : layout.memStart + lo * 4096 ≠ 0 := by
        have := layout.positive
        omega
      rw [if_pos (handedOut_range extent handed)]
      rwa [if_pos ⟨nonzero, handed⟩] at holds
    · rw [if_neg fun both => handed both.2] at holds
      have owner := accounted u q holds
      rw [if_neg, owner]
      rintro ⟨low, high⟩
      rw [granted.before u low high] at owner
      cases owner

theorem free_preserves {s : Session layout} (consistent : Consistent s.map) {first last : Nat}
    (used : FreesUsed s (.freePhysical first last)) :
    Consistent (step s (.freePhysical first last)).map ∧
      (CoversPages s (.freePhysical first last) → Accounted s →
        Accounted (step s (.freePhysical first last))) := by
  rcases freePhysical_effect consistent used with rejected |
    ⟨m', lo, hi, range, result, kept, freed⟩
  · simp only [step, rejected]
    exact ⟨consistent, fun _ accounted u q => by
      simpa [show cInvalidArgument ≠ cOk by decide] using accounted u q⟩
  · simp only [step, result]
    refine ⟨kept, fun covers accounted u q holds => ?_⟩
    simp only [true_and, named_iff range] at holds
    by_cases named : lo ≤ u ∧ u < hi
    · rw [if_pos named] at holds
      cases holds
    · rw [if_neg named] at holds
      rcases freed with ⟨_, released⟩ | ⟨large, released⟩
      · rw [released, if_neg named]
        exact accounted u q holds
      · have untouched : ¬ (lo / 256 * 256 ≤ u ∧ u < (hi - 1) / 256 * 256 + 256) := by
          rintro ⟨low, high⟩
          have bytes : 0x100000 ≤ alignCeil last 4096 - alignFloor first 4096 := by
            rw [range.start, range.stop]
            omega
          have order := range.order
          -- the unit shares its page with the first or the last unit named
          have whole := covers (by rw [result]) bytes
          by_cases before : u < lo
          · exact named ((named_iff range u).mp (whole lo u ((named_iff range lo).mpr
              ⟨Nat.le_refl lo, order⟩) (by omega) (by rw [holds]; simp)))
          · exact named ((named_iff range u).mp (whole (hi - 1) u ((named_iff range (hi - 1)).mpr
              (by omega)) (by omega) (by rw [holds]; simp)))
        rw [released, if_neg untouched]
        exact accounted u q holds

theorem freeAll_preserves {s : Session layout} (consistent : Consistent s.map) (pid : Nat) :
    Consistent (step s (.freeAll pid)).map ∧
      (Accounted s → Accounted (step s (.freeAll pid))) := by
  refine ⟨consistent.freeAll pid, fun accounted u q holds => ?_⟩
  simp only [step] at holds ⊢
  rw [PageMap.owner_freeAll]
  by_cases own : s.held u = some pid
  · rw [if_pos own] at holds
    cases holds
  · rw [if_neg own] at holds
    rw [accounted u q holds, if_neg]
    rw [← holds]
    exact own

/-- One call keeps the pages consistent, and the units handed out accounted for. -/
theorem step_preserves {s : Session layout} (consistent : Consistent s.map) (call : Call)
    (used : FreesUsed s call) : Consistent (step s call).map ∧
      (CoversPages s call → Accounted s → Accounted (step s call)) := by
  cases call with
  | allocPhysical size pid =>
    have preserved := alloc_preserves consistent size used
    exact ⟨preserved.1, fun _ => preserved.2⟩
  | freePhysical first last => exact free_preserves consistent used
  | freeAll pid =>
    have preserved := freeAll_preserves consistent pid
    exact ⟨preserved.1, fun _ => preserved.2⟩

/-- After any calls that free only units in use, the pages are consistent. If
the frees also cover the pages they touch, an allocation hands out no unit that
was handed out before and not freed since. -/
theorem pages_consistent_and_units_unshared (calls : List Call)
    (used : Admissible step FreesUsed (start layout) calls) :
    let s := exec step (start layout) calls
    (∀ p ∈ s.map.pages, (p.usesMicropages = 1 → p.usedMicropages = p.usedUnits.card) ∧
      (p.pid = 255 → p = Page.unused)) ∧
    (Admissible step CoversPages (start layout) calls → ∀ size pid m' a, pid < 255 →
      allocPhysical s.map size pid = some (m', a) → a ≠ 0 →
      ∀ u, HandedOut layout size a u → s.held u = none) := by
  intro s
  have begin : Consistent (start layout).map := .allFree layout
  have consistent : Consistent s.map := exec_invariant (fun s => Consistent s.map)
    (fun s call kept used => (step_preserves kept call used).1) calls _ begin used
  refine ⟨fun p member => ?_, fun covers size pid m' a real result nonzero u handed => ?_⟩
  · have page := consistent p member
    exact ⟨page.counted, page.eq_unused⟩
  · have accounted : Accounted s := (exec_invariant (fun s => Consistent s.map ∧ Accounted s)
      (fun s call inv ok =>
        have kept := step_preserves inv.1 call ok.1
        ⟨kept.1, kept.2 ok.2 inv.2⟩)
      calls _ ⟨begin, fun u pid holds => by simp [start] at holds⟩ (used.and covers)).2
    rcases allocPhysical_granted consistent size (Nat.ne_of_lt real) with
      failed | ⟨m'', lo, len, granting, _, granted, extent⟩
    · rw [failed, Option.some.injEq, Prod.mk.injEq] at result
      exact absurd result.2.symm nonzero
    · rw [granting, Option.some.injEq, Prod.mk.injEq] at result
      obtain ⟨rfl, rfl⟩ := result
      obtain ⟨low, high⟩ := handedOut_range extent handed
      cases holds : s.held u with
      | none => rfl
      | some q =>
        have owner := accounted u q holds
        rw [granted.before u low high] at owner
        cases owner

/-- Two processes share the memory; what one frees is handed out again. -/
theorem pages_consistent_and_units_unshared_four_calls :
    let s := exec step (start .twoPages) [.allocPhysical 0x1000 7, .allocPhysical 0x10000 7,
      .freePhysical 0x100000 0x101000, .freeAll 8]
    ∃ m', allocPhysical s.map 0x1000 7 = some (m', 0x100000) ∧
      ∀ u, HandedOut .twoPages 0x1000 0x100000 u → s.held u = none := by
  refine ⟨_, rfl, (pages_consistent_and_units_unshared _ ?_).2 ?_ 0x1000 7 _ 0x100000
    (by decide) rfl (by decide)⟩
  · refine ⟨show 7 < 255 by decide, show 7 < 255 by decide, fun _ _ u named => ?_, trivial, trivial⟩
    have first : u = 0 := by
      have low := named.1
      have high := named.2
      rw [show alignCeil 0x101000 4096 = 0x101000 by decide] at high
      simp only [Layout.twoPages] at high
      omega
    rw [first]
    decide
  · refine ⟨trivial, trivial, fun _ large => absurd large ?_, trivial, trivial⟩
    decide

/-- A free of a unit that is not in use lowers the counter: the records differ,
and after a second such free a unit in use is handed out again. -/
theorem stray_free_breaks_records :
    let s := exec step (start .twoPages) [.allocPhysical 0x1000 7, .allocPhysical 0x1000 7,
      .freePhysical 0x105000 0x106000]
    let s' := step s (.freePhysical 0x105000 0x106000)
    (∃ p ∈ s.map.pages, p.usesMicropages = 1 ∧ p.usedMicropages ≠ p.usedUnits.card) ∧
      (allocPhysical s'.map 0x1000 7).map Prod.snd = some 0x100000 ∧
      HandedOut .twoPages 0x1000 0x100000 0 ∧ s'.held 0 = some 7 := by
  decide +kernel

end Orcos.Guarantees.PageConsistency
