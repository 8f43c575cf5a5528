import Mathlib.Data.List.Basic
import Orcos.Lib.Circles
import Orcos.Source.Usb.EHCI

/-!
# The asynchronous list

A bulk transfer puts its queue head at the front of a circle and takes it out again. A control
message makes its own the only member and in the end leaves none, so that it drops the transfers of
all other devices. The search for a queue head that was dropped never ends, and it runs with the
interrupts off.
-/
namespace Orcos.Guarantees.AsyncList
open Lib.Circles Source.Usb.EHCI

variable {δ : Type} [DecidableEq δ] {q : QueueHeads δ}

/-- The queue heads lie at multiples of 32, and no two devices share one. -/
structure Placed (q : QueueHeads δ) : Prop where
  main : 32 ∣ q.QHmain
  aligned : ∀ dev endpoint, 32 ∣ q.device_priv dev endpoint
  other : ∀ dev endpoint, q.device_priv dev endpoint ≠ q.QHmain
  injective : ∀ dev dev' endpoint endpoint', q.device_priv dev endpoint ≠ 0 →
    q.device_priv dev endpoint = q.device_priv dev' endpoint' → dev = dev'

/-- What a run is watched for: the messages that are on; the devices and queue heads of those since
whose beginning no control message has begun or ended but their own, the newest first; whether a
bulk transfer has ended that was not among them. -/
structure Watch (δ : Type) where
  acquired : δ → Option Message
  undisturbed : List (δ × Nat)
  lost : Bool

def Watch.start : Watch δ := ⟨fun _ => none, [], false⟩

def Watch.step (q : QueueHeads δ) (w : Watch δ) : Event δ → Watch δ
  | .bulk dev endpoint =>
    if q.device_priv dev endpoint = 0 ∨ (w.acquired dev).isSome then w
    else ⟨Function.update w.acquired dev (some (.bulk (q.device_priv dev endpoint))),
      (dev, q.device_priv dev endpoint) :: w.undisturbed, w.lost⟩
  | .control dev endpoint =>
    if q.device_priv dev endpoint = 0 ∨ (w.acquired dev).isSome then w
    else ⟨Function.update w.acquired dev (some (.control (q.device_priv dev endpoint))),
      [(dev, q.device_priv dev endpoint)], w.lost⟩
  | .done dev =>
    match w.acquired dev with
    | none => w
    | some (.bulk qh) => ⟨Function.update w.acquired dev none,
        w.undisturbed.filter fun on => on.1 ≠ dev, w.lost || (dev, qh) ∉ w.undisturbed⟩
    | some (.control _) => ⟨Function.update w.acquired dev none, [], w.lost⟩

def watch (q : QueueHeads δ) (events : List (Event δ)) : Watch δ :=
  events.foldl (Watch.step q) Watch.start

/-- The queue heads of the messages that are undisturbed. -/
def Watch.members (w : Watch δ) : List Nat := w.undisturbed.map Prod.snd

/-- Where the queue heads lead to. -/
def next (s : Controller δ) (address : Nat) : Nat := linked (s.qh_link address)

structure Follows (q : QueueHeads δ) (s : Controller δ) (w : Watch δ) : Prop where
  acquired : s.acquired = w.acquired
  own : ∀ dev message, w.acquired dev = some message →
    message.qh ≠ 0 ∧ ∃ endpoint, message.qh = q.device_priv dev endpoint
  on : ∀ dev a, (dev, a) ∈ w.undisturbed → ∃ message, w.acquired dev = some message ∧ a = message.qh
  circle : Circle (next s) q.QHmain w.members

section Links

variable {s : Controller δ} {a : Nat}

theorem linked_of_aligned (aligned : 32 ∣ a) : linked a = a := Nat.div_mul_cancel aligned

theorem linked_link (word : Nat) : linked (linked word + 2) = linked word := by
  rw [linked, linked]
  omega

omit [DecidableEq δ] in
theorem next_qhLink (s : Controller δ) (src dst : Nat) :
    next (s.qhLink src dst) = Function.update (next s) src (linked dst) := by
  funext a
  by_cases same : a = src
  · rw [same, Function.update_self, next, Controller.qhLink]
    simp only [Function.update_self]
    exact linked_link dst
  · rw [Function.update_of_ne same, next, Controller.qhLink]
    simp only [Function.update_of_ne same]
    rfl

theorem next_setAcquired (s : Controller δ) (dev : δ) (message : Option Message) :
    next (s.setAcquired dev message) = next s := rfl

theorem next_linkBulk (placed : Placed q) (s : Controller δ) (dev : δ) (endpoint : Nat) :
    next (s.linkBulk q dev endpoint) = putIn (next s) q.QHmain (q.device_priv dev endpoint) := by
  rw [Controller.linkBulk]
  simp only [next_setAcquired, next_qhLink, linked_of_aligned (placed.aligned dev endpoint)]
  rfl

theorem next_linkControl (placed : Placed q) (s : Controller δ) (dev : δ) (endpoint : Nat) :
    next (s.linkControl q dev endpoint) = Function.update (Function.update (next s)
      (q.device_priv dev endpoint) q.QHmain) q.QHmain (q.device_priv dev endpoint) := by
  rw [Controller.linkControl]
  simp only [next_setAcquired, next_qhLink, linked_of_aligned (placed.aligned dev endpoint),
    linked_of_aligned placed.main]

omit [DecidableEq δ] in
theorem prevQH_eq_search (qh fuel prev : Nat) :
    prevQH s.qh_link qh fuel prev = search (next s) qh fuel prev := by
  induction fuel generalizing prev with
  | zero => rfl
  | succ fuel ih =>
    have leads : linked (s.qh_link prev) = next s prev := rfl
    rw [prevQH, search, leads, ih]
    by_cases here : next s prev = qh
    · rw [if_neg (not_not_intro here), if_pos here]
    · rw [if_pos here, if_neg here]

end Links

namespace Follows

variable {w : Watch δ} {s s' : Controller δ} {dev : δ} {endpoint a fuel : Nat} {event : Event δ}

omit [DecidableEq δ] in
/-- A bulk transfer that is on uses a queue head of its device. -/
theorem place_of_bulk (follows : Follows q s w) (acquired : w.acquired dev = some (.bulk a)) :
    ∃ endpoint, a = q.device_priv dev endpoint := (follows.own dev _ acquired).2

omit [DecidableEq δ] in
theorem owner (follows : Follows q s w) (placed : Placed q) {other : δ}
    (there : (other, a) ∈ w.undisturbed) (place : a = q.device_priv dev endpoint) :
    other = dev := by
  obtain ⟨message, acquired, address⟩ := follows.on other a there
  obtain ⟨nonzero, endpoint', own⟩ := follows.own other message acquired
  exact placed.injective other dev endpoint' endpoint (own ▸ nonzero)
    (own.symm.trans (address.symm.trans place))

omit [DecidableEq δ] in
/-- A queue head is on the circle only with a message of its device. -/
theorem on_of_member (follows : Follows q s w) (placed : Placed q) (member : a ∈ w.members)
    (place : a = q.device_priv dev endpoint) : (dev, a) ∈ w.undisturbed := by
  obtain ⟨⟨other, address⟩, there, same⟩ := List.mem_map.mp member
  have here : (other, a) ∈ w.undisturbed := same ▸ there
  exact follows.owner placed here place ▸ here

omit [DecidableEq δ] in
theorem absent (follows : Follows q s w) (placed : Placed q)
    (place : a = q.device_priv dev endpoint)
    (off : (dev, a) ∉ w.undisturbed) : a ∉ q.QHmain :: w.members := by
  intro member
  rcases List.mem_cons.mp member with same | there
  · exact placed.other dev endpoint (place.symm.trans same)
  · exact off (follows.on_of_member placed there place)

/-- The messages after one has begun. -/
theorem own_begun (follows : Follows q s w) (message : Message) (nonzero : message.qh ≠ 0)
    (here : message.qh = q.device_priv dev endpoint) (other : δ) (m : Message)
    (acquired : Function.update w.acquired dev (some message) other = some m) :
    m.qh ≠ 0 ∧ ∃ endpoint, m.qh = q.device_priv other endpoint := by
  by_cases same : other = dev
  · rw [same, Function.update_self] at acquired
    cases acquired
    exact ⟨nonzero, endpoint, same ▸ here⟩
  · rw [Function.update_of_ne same] at acquired
    exact follows.own other m acquired

theorem own_ended (follows : Follows q s w) (other : δ) (m : Message)
    (acquired : Function.update w.acquired dev none other = some m) :
    m.qh ≠ 0 ∧ ∃ endpoint, m.qh = q.device_priv other endpoint := by
  by_cases same : other = dev
  · rw [same, Function.update_self] at acquired
    cases acquired
  · rw [Function.update_of_ne same] at acquired
    exact follows.own other m acquired

theorem bulk (follows : Follows q s w) (placed : Placed q)
    (nonzero : q.device_priv dev endpoint ≠ 0) (free : w.acquired dev = none) :
    Follows q (s.linkBulk q dev endpoint)
      ⟨Function.update w.acquired dev (some (.bulk (q.device_priv dev endpoint))),
        (dev, q.device_priv dev endpoint) :: w.undisturbed, w.lost⟩ where
  acquired := by
    rw [← follows.acquired]
    rfl
  own := follows.own_begun (.bulk (q.device_priv dev endpoint)) nonzero rfl
  on other a member := by
    rcases List.mem_cons.mp member with new | old
    · cases new
      exact ⟨_, Function.update_self .., rfl⟩
    · obtain ⟨message, acquired, address⟩ := follows.on other a old
      have apart : other ≠ dev := fun same => by cases (same ▸ free).symm.trans acquired
      exact ⟨message, (Function.update_of_ne apart ..).trans acquired, address⟩
  circle := by
    have off : (dev, q.device_priv dev endpoint) ∉ w.undisturbed := by
      intro there
      obtain ⟨message, acquired, -⟩ := follows.on _ _ there
      cases free.symm.trans acquired
    rw [next_linkBulk placed]
    exact follows.circle.putIn (follows.absent placed rfl off)

theorem control (follows : Follows q s w) (placed : Placed q)
    (nonzero : q.device_priv dev endpoint ≠ 0) :
    Follows q (s.linkControl q dev endpoint)
      ⟨Function.update w.acquired dev (some (.control (q.device_priv dev endpoint))),
        [(dev, q.device_priv dev endpoint)], w.lost⟩ where
  acquired := by
    rw [← follows.acquired]
    rfl
  own := follows.own_begun (.control (q.device_priv dev endpoint)) nonzero rfl
  on other a member := by
    cases List.mem_singleton.mp member
    exact ⟨_, Function.update_self .., rfl⟩
  circle := by
    rw [next_linkControl placed]
    exact circle_only _ (placed.other dev endpoint)

theorem controlDone (follows : Follows q s w) (placed : Placed q) :
    Follows q (s.unlinkControl q dev) ⟨Function.update w.acquired dev none, [], w.lost⟩ where
  acquired := by
    rw [← follows.acquired]
    rfl
  own := follows.own_ended
  on other a member := absurd member List.not_mem_nil
  circle := by
    rw [Controller.unlinkControl, next_setAcquired, next_qhLink, linked_of_aligned placed.main]
    exact circle_alone ..

/-- The members without the queue head of one device. -/
theorem members_filter (follows : Follows q s w) (placed : Placed q)
    (place : a = q.device_priv dev endpoint) (member : (dev, a) ∈ w.undisturbed) :
    (w.undisturbed.filter fun on => on.1 ≠ dev).map Prod.snd = w.members.erase a := by
  have nodup := (List.nodup_cons.mp follows.circle.nodup).2
  rw [nodup.erase_eq_filter, Watch.members, List.filter_map]
  congr 1
  refine List.filter_congr fun ⟨other, b⟩ there => ?_
  have same : other = dev ↔ b = a := by
    constructor
    · rintro rfl
      obtain ⟨message, acquired, address⟩ := follows.on other b there
      obtain ⟨message', acquired', address'⟩ := follows.on other a member
      cases acquired.symm.trans acquired'
      exact address.trans address'.symm
    · rintro rfl
      exact follows.owner placed there place
  by_cases here : b = a
  · simp [same, here]
  · simp [same, here]

/-- The end of a bulk transfer that is undisturbed, if the search may go far enough. -/
theorem bulkDone (follows : Follows q s w) (placed : Placed q)
    (place : a = q.device_priv dev endpoint) (member : (dev, a) ∈ w.undisturbed) :
    ∃ s' bound, bound < w.undisturbed.length ∧
      (∀ fuel, s.unlinkBulk q fuel dev a = if bound < fuel then some s' else none) ∧
      ∀ lost, Follows q s' ⟨Function.update w.acquired dev none,
        w.undisturbed.filter fun on => on.1 ≠ dev, lost⟩ := by
  have inside : a ∈ w.members := List.mem_map.mpr ⟨_, member, rfl⟩
  obtain ⟨front, p, rest, split, found⟩ := search_linked follows.circle.linked inside
  refine ⟨(s.qhLink p (s.qh_link a)).setAcquired dev none, front.length, ?_, fun fuel => ?_,
    fun lost => ⟨?_, follows.own_ended, fun other b there => ?_, ?_⟩⟩
  · have lengths := congrArg List.length split
    simp only [Watch.members, List.length_cons, List.length_map, List.length_append] at lengths
    omega
  · rw [Controller.unlinkBulk, prevQH_eq_search, found]
    split_ifs <;> rfl
  · rw [← follows.acquired]
    rfl
  · obtain ⟨there, apart⟩ := List.mem_filter.mp there
    obtain ⟨message, acquired, address⟩ := follows.on other b there
    exact ⟨message, (Function.update_of_ne (by simpa using apart) ..).trans acquired, address⟩
  · rw [next_setAcquired, next_qhLink, Watch.members, follows.members_filter placed place member]
    exact follows.circle.takeOut split

/-- The end of a bulk transfer that was dropped. -/
theorem bulkLost (follows : Follows q s w) (placed : Placed q)
    (place : a = q.device_priv dev endpoint) (off : (dev, a) ∉ w.undisturbed) :
    s.unlinkBulk q fuel dev a = none := by
  rw [Controller.unlinkBulk, prevQH_eq_search, follows.circle.search_absent
    (follows.absent placed place off) fuel (List.mem_cons_self ..)]
  rfl

end Follows

section Runs

variable {w : Watch δ} {s s' : Controller δ} {fuel : Nat} {event : Event δ}

/-- A step that ends loses nothing. -/
theorem step_follows (placed : Placed q) (follows : Follows q s w)
    (stepped : step q fuel s event = some s') :
    (w.step q event).lost = w.lost ∧ Follows q s' (w.step q event) := by
  cases event with
  | bulk dev endpoint =>
    rw [step, follows.acquired] at stepped
    rw [Watch.step]
    split_ifs at stepped ⊢ with waits
    · cases stepped
      exact ⟨rfl, follows⟩
    · cases stepped
      obtain ⟨nonzero, free⟩ := not_or.mp waits
      exact ⟨rfl, follows.bulk placed nonzero (by simpa using free)⟩
  | control dev endpoint =>
    rw [step, follows.acquired] at stepped
    rw [Watch.step]
    split_ifs at stepped ⊢ with waits
    · cases stepped
      exact ⟨rfl, follows⟩
    · cases stepped
      exact ⟨rfl, follows.control placed (not_or.mp waits).1⟩
  | done dev =>
    rw [step, follows.acquired] at stepped
    rw [Watch.step]
    cases acquired : w.acquired dev with
    | none =>
      simp only [acquired] at stepped
      cases stepped
      exact ⟨rfl, follows⟩
    | some message =>
      cases message with
      | control qh =>
        simp only [acquired] at stepped
        cases stepped
        exact ⟨rfl, follows.controlDone placed⟩
      | bulk qh =>
        simp only [acquired] at stepped
        obtain ⟨endpoint, place⟩ := follows.place_of_bulk acquired
        by_cases on : (dev, qh) ∈ w.undisturbed
        · obtain ⟨s₁, bound, -, ends, kept⟩ := follows.bulkDone placed place on
          rw [ends] at stepped
          split_ifs at stepped
          cases stepped
          exact ⟨by simp [on], kept _⟩
        · rw [follows.bulkLost placed place on] at stepped
          cases stepped

theorem step_ends (placed : Placed q) (follows : Follows q s w)
    (kept : (w.step q event).lost = false) (room : w.undisturbed.length ≤ fuel) :
    ∃ s', step q fuel s event = some s' := by
  cases event with
  | bulk dev endpoint =>
    rw [step]
    split_ifs
    · exact ⟨_, rfl⟩
    · exact ⟨_, rfl⟩
  | control dev endpoint =>
    rw [step]
    split_ifs
    · exact ⟨_, rfl⟩
    · exact ⟨_, rfl⟩
  | done dev =>
    rw [step, follows.acquired]
    rw [Watch.step] at kept
    cases acquired : w.acquired dev with
    | none => exact ⟨_, rfl⟩
    | some message =>
      cases message with
      | control qh => exact ⟨_, rfl⟩
      | bulk qh =>
        simp only [acquired] at kept
        obtain ⟨endpoint, place⟩ := follows.place_of_bulk acquired
        have on : (dev, qh) ∈ w.undisturbed := by
          simpa using (Bool.or_eq_false_iff.mp kept).2
        obtain ⟨s₁, bound, near, ends, -⟩ := follows.bulkDone placed place on
        exact ⟨s₁, (ends fuel).trans (if_pos (Nat.lt_of_lt_of_le near room))⟩

theorem step_undisturbed (q : QueueHeads δ) (w : Watch δ) (event : Event δ) :
    (w.step q event).undisturbed.length ≤ w.undisturbed.length + 1 := by
  cases event with
  | bulk dev endpoint =>
    rw [Watch.step]
    split_ifs
    · exact Nat.le_succ _
    · exact Nat.le_refl _
  | control dev endpoint =>
    rw [Watch.step]
    split_ifs
    · exact Nat.le_succ _
    · exact Nat.succ_le_succ (Nat.zero_le _)
  | done dev =>
    rw [Watch.step]
    cases w.acquired dev with
    | none => exact Nat.le_succ _
    | some message =>
      cases message with
      | control qh => exact Nat.zero_le _
      | bulk qh => exact Nat.le_trans (List.length_filter_le ..) (Nat.le_succ _)

theorem step_lost (lost : w.lost = true) : (w.step q event).lost = true := by
  cases event with
  | bulk dev endpoint =>
    rw [Watch.step]
    split_ifs
    · exact lost
    · exact lost
  | control dev endpoint =>
    rw [Watch.step]
    split_ifs
    · exact lost
    · exact lost
  | done dev =>
    rw [Watch.step]
    cases w.acquired dev with
    | none => exact lost
    | some message =>
      cases message with
      | control qh => exact lost
      | bulk qh => exact Bool.or_eq_true_iff.mpr (.inl lost)

theorem lost_of_step {events : List (Event δ)} (lost : w.lost = true) :
    (events.foldl (Watch.step q) w).lost = true := by
  induction events generalizing w with
  | nil => exact lost
  | cons event events ih => exact ih (step_lost lost)

theorem exec_follows (placed : Placed q) {events : List (Event δ)} (follows : Follows q s w)
    (run : exec q fuel s events = some s') : (events.foldl (Watch.step q) w).lost = w.lost ∧
      Follows q s' (events.foldl (Watch.step q) w) := by
  induction events generalizing s w with
  | nil =>
    cases run
    exact ⟨rfl, follows⟩
  | cons event events ih =>
    obtain ⟨s₁, stepped, later⟩ := Option.bind_eq_some_iff.mp run
    obtain ⟨same, follows⟩ := step_follows placed follows stepped
    obtain ⟨kept, ends⟩ := ih follows later
    exact ⟨kept.trans same, ends⟩

theorem exec_ends (placed : Placed q) {events : List (Event δ)} (follows : Follows q s w)
    (kept : (events.foldl (Watch.step q) w).lost = false)
    (room : w.undisturbed.length + events.length ≤ fuel) :
    ∃ s', exec q fuel s events = some s' := by
  induction events generalizing s w with
  | nil => exact ⟨s, rfl⟩
  | cons event events ih =>
    have first : (w.step q event).lost = false := by
      by_contra lost
      cases (lost_of_step (eq_true_of_ne_false lost)).symm.trans kept
    obtain ⟨s₁, stepped⟩ := step_ends placed follows first (Nat.le_trans (Nat.le_add_right ..) room)
    have grown := step_undisturbed q w event
    rw [List.length_cons] at room
    obtain ⟨s', run⟩ := ih (step_follows placed follows stepped).2 kept (by omega)
    exact ⟨s', Option.bind_eq_some_iff.mpr ⟨s₁, stepped, run⟩⟩

omit [DecidableEq δ] in
theorem follows_start (placed : Placed q) : Follows q (.start q) .start where
  acquired := rfl
  own _ _ acquired := by cases acquired
  on _ _ member := absurd member List.not_mem_nil
  circle := by
    rw [Controller.start, next_qhLink, linked_of_aligned placed.main]
    exact circle_alone ..

end Runs

/-- A run ends unless a bulk transfer of it ends that was disturbed; when it ends, the list is the
circle of the queue heads of the messages that are undisturbed. -/
theorem async_list (placed : Placed q) (events : List (Event δ)) :
    ((watch q events).lost = true → ∀ fuel, exec q fuel (.start q) events = none) ∧
      ((watch q events).lost = false → ∀ fuel, events.length ≤ fuel →
        ∃ s, exec q fuel (.start q) events = some s ∧ s.acquired = (watch q events).acquired ∧
          Circle (next s) q.QHmain (watch q events).members) := by
  constructor
  · intro lost fuel
    by_contra ends
    obtain ⟨s, run⟩ := Option.ne_none_iff_exists'.mp ends
    have kept := (exec_follows placed (follows_start placed) run).1
    cases lost.symm.trans kept
  · intro kept fuel room
    have fits : (Watch.start : Watch δ).undisturbed.length + events.length ≤ fuel := by
      rw [Watch.start, List.length_nil, Nat.zero_add]
      exact room
    obtain ⟨s, run⟩ := exec_ends placed (follows_start placed) kept fits
    have follows := (exec_follows placed (follows_start placed) run).2
    exact ⟨s, run, follows.acquired, follows.circle⟩

/-- The queue heads of two devices. -/
def twoDevices : QueueHeads Bool := ⟨32, fun dev _ => cond dev 64 96⟩

theorem async_list_twoDevices :
    (∀ fuel, exec twoDevices fuel (.start twoDevices)
      [.bulk true 1, .control false 0, .done false, .done true] = none) ∧
    ∃ s, exec twoDevices 3 (.start twoDevices) [.bulk true 1, .bulk false 1, .done true] = some s ∧
      Circle (next s) 32 [96] := by
  have aligned : ∀ dev, 32 ∣ cond dev 64 96 := by decide
  have other : ∀ dev, cond dev 64 96 ≠ 32 := by decide
  have apart : ∀ dev dev', cond dev 64 96 = cond dev' 64 96 → dev = dev' := by decide
  have placed : Placed twoDevices :=
    ⟨by decide, fun dev _ => aligned dev, fun dev _ => other dev,
      fun dev dev' _ _ _ same => apart dev dev' same⟩
  refine ⟨(async_list placed _).1 (by decide), ?_⟩
  obtain ⟨s, run, -, circle⟩ :=
    (async_list placed [.bulk true 1, .bulk false 1, .done true]).2 (by decide) 3 (by decide)
  exact ⟨s, run, circle⟩

end Orcos.Guarantees.AsyncList
