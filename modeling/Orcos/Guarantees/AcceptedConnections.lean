import Mathlib.Data.Fintype.Card
import Mathlib.Data.List.ReduceOption
import Orcos.Lib.Runs
import Orcos.Source.ArrayList
import Orcos.Source.Comm.Listening

/-!
# What becomes of accepted connections

Source: src/source/comm/Socket.cc, `listen`, `accepted`; src/source/comm/TCPTransportProtocol.cc,
`tcp_accept_wrapper`; src/source/process/Task.cc, `addResource`, `removeResource`.

A connection is lost when the task has no file descriptor left for the socket that `listen` has
taken off the queue, when two threads both find no queue and the second one's replaces that of
the first one, and when two threads that change the table of their task at a time get the same
number.
-/
namespace Orcos.Guarantees.AcceptedConnections
open Lib.Runs Source Source.Comm Source.Tasks Lib.WordBits

variable {κ τ : Type}

section Specification

/-- The connections that wait on the listening socket. -/
def queued (s : Listening κ τ) : List Nat :=
  ((s.acceptedConnections.map ArrayList.contents).getD []).reduceOption

/-- The connection whose socket a thread is adding to the table of its task. -/
def newConn : TablePlace → Option Nat
  | .searching (.socket c) _ | .taking (.socket c) _ _ | .storing (.socket c) _ => some c
  | _ => none

/-- The connection that a call of `listen` has taken and not failed to add. -/
def inHand : ListenPlace → Option Nat
  | .adding newConn => some newConn
  | .table place => newConn place
  | .leaving newConn ret => if ret < 0 then none else newConn
  | _ => none

/-- The connections that were returned as file descriptors. -/
def descriptors (s : Listening κ τ) : List Nat :=
  s.returned.filterMap fun r => if r.ret < 0 then none else r.newConn

/-- Where a connection can be. -/
inductive Keeper (τ : Type)
  | queue
  | listen (thread : τ)
  | descriptor

def Keeps (s : Listening κ τ) (c : Nat) : Keeper τ → Prop
  | .queue => c ∈ queued s
  | .listen thread => inHand (s.place thread) = some c
  | .descriptor => c ∈ descriptors s

/-- No connection is in two places, or returned twice, and each one that arrived and was not
closed is somewhere. -/
structure Accounted (s : Listening κ τ) : Prop where
  queued : (queued s).Nodup
  returned : (descriptors s).Nodup
  unique : ∀ c k k', Keeps s c k → Keeps s c k' → k = k'
  kept : ∀ c, c < s.arrived → (s.connection c).isOpen = true → ∃ k, Keeps s c k

/-- A call of `listen` has returned this number for a connection, or is about to. -/
def Claims (s : Listening κ τ) (t : τ) (c : Nat) (fd : ErrorT) : Prop :=
  ⟨t, some c, fd⟩ ∈ s.returned ∨ s.place t = .leaving (some c) fd

/-- A file descriptor names the connection for which it was returned, until that is closed. -/
def Named (s : Listening κ τ) : Prop :=
  ∀ t c fd, Claims s t c fd → 0 ≤ fd → c ∉ s.closed →
    (s.task (s.owner t)).acquiredResources fd.toNat = some (.socket c)

/-- The search for a number for an open connection does not end without one. -/
def Finds (s : Listening κ τ) (t : τ) : TablePlace → Prop
  | .searching (.socket c) i => (s.connection c).isOpen = true →
      i < (s.task (s.owner t)).freeResourceIds.map.length
  | _ => True

/-- The queue that a new one replaces holds no open connection, and a task that adds an open
one has a number left. -/
def Fits (s : Listening κ τ) : ListenOp κ τ → Prop
  | .advance thread =>
    match s.place thread with
    | .creating _ => ∀ c ∈ queued s, (s.connection c).isOpen = false
    | .table place => Finds s thread place
    | _ => True
  | _ => True

def isTable : ListenPlace → Bool
  | .table _ => true
  | _ => false

/-- No thread of the task is in its table. -/
def Unused (s : Listening κ τ) (k : κ) : Prop := ∀ u, s.owner u = k → isTable (s.place u) = false

/-- A thread begins to change the table of its task when no other one is changing it. -/
def Apart (s : Listening κ τ) : ListenOp κ τ → Prop
  | .advance t =>
    match s.place t with
    | .adding _ => Unused s (s.owner t)
    | _ => True
  | .acquire t _ => s.place t = .away → Unused s (s.owner t)
  | .close t fd _ => s.place t = .away →
      ((s.task (s.owner t)).getOwnedResourceByFileDescriptor fd).isSome → Unused s (s.owner t)
  | _ => True

end Specification

section Steps

variable [DecidableEq κ] [DecidableEq τ] {s s' s'' : Listening κ τ} {t : τ} {c : Nat}
  {k : Keeper τ}

/-- The queue is an array list, and what is somewhere has arrived. -/
structure Sound (s : Listening κ τ) : Prop where
  valid : ∀ list, s.acceptedConnections = some list → list.Valid ∧ none ∉ list.contents
  arrived : ∀ c k, Keeps s c k → c < s.arrived

/-- Connections are where they were; those that are open were open. -/
structure Quiet (s s' : Listening κ τ) : Prop where
  queue : s'.acceptedConnections = s.acceptedConnections
  hands : ∀ t, inHand (s'.place t) = inHand (s.place t)
  returned : descriptors s' = descriptors s
  arrived : s.arrived ≤ s'.arrived
  isOpen : ∀ c, c < s'.arrived → (s'.connection c).isOpen = true →
    c < s.arrived ∧ (s.connection c).isOpen = true

omit [DecidableEq κ] [DecidableEq τ] in
theorem Quiet.trans (first : Quiet s s') (second : Quiet s' s'') : Quiet s s'' where
  queue := second.queue.trans first.queue
  hands t := (second.hands t).trans (first.hands t)
  returned := second.returned.trans first.returned
  arrived := first.arrived.trans second.arrived
  isOpen c inside still := by
    obtain ⟨before, opened⟩ := second.isOpen c inside still
    exact first.isOpen c before opened

omit [DecidableEq κ] [DecidableEq τ] in
/-- Something else changes. -/
theorem quiet_same (queue : s'.acceptedConnections = s.acceptedConnections)
    (place : s'.place = s.place) (returned : s'.returned = s.returned)
    (arrived : s'.arrived = s.arrived) (connection : s'.connection = s.connection) :
    Quiet s s' := by
  refine ⟨queue, fun t => by rw [place], by rw [descriptors, returned]; rfl, arrived.ge,
    fun c inside still => ?_⟩
  rw [arrived] at inside
  rw [connection] at still
  exact ⟨inside, still⟩

omit [DecidableEq κ] [DecidableEq τ] in
theorem quiet_refl (s : Listening κ τ) : Quiet s s := quiet_same rfl rfl rfl rfl rfl

omit [DecidableEq κ] [DecidableEq τ] in
theorem Quiet.keeps (quiet : Quiet s s') (c : Nat) (k : Keeper τ) :
    Keeps s' c k ↔ Keeps s c k := by
  cases k with
  | queue => rw [Keeps, Keeps, queued, queued, quiet.queue]
  | listen t => rw [Keeps, Keeps, quiet.hands]
  | descriptor => rw [Keeps, Keeps, quiet.returned]

omit [DecidableEq κ] [DecidableEq τ] in
theorem Quiet.sound (quiet : Quiet s s') (sound : Sound s) : Sound s' := by
  refine ⟨fun list same => sound.valid list (quiet.queue ▸ same), fun c k keeps => ?_⟩
  exact (sound.arrived c k ((quiet.keeps c k).mp keeps)).trans_le quiet.arrived

omit [DecidableEq κ] [DecidableEq τ] in
theorem Quiet.accounted (quiet : Quiet s s') (accounted : Accounted s) : Accounted s' := by
  refine ⟨?_, ?_, fun c k k' first second => ?_, fun c inside still => ?_⟩
  · rw [AcceptedConnections.queued, quiet.queue]
    exact accounted.queued
  · rw [quiet.returned]
    exact accounted.returned
  · exact accounted.unique c k k' ((quiet.keeps c k).mp first) ((quiet.keeps c k').mp second)
  · obtain ⟨before, opened⟩ := quiet.isOpen c inside still
    obtain ⟨k, keeps⟩ := accounted.kept c before opened
    exact ⟨k, (quiet.keeps c k).mpr keeps⟩

omit [DecidableEq κ] in
theorem quiet_setPlace {place : ListenPlace} (same : inHand place = inHand (s.place t)) :
    Quiet s (s.setPlace t place) := by
  refine ⟨rfl, fun u => ?_, rfl, le_rfl, fun c inside still => ⟨inside, still⟩⟩
  unfold Listening.setPlace
  dsimp only
  rw [Function.update_apply]
  split
  case isTrue equal => rw [same, equal]
  case isFalse => rfl

omit [DecidableEq κ] in
theorem descriptors_return (s : Listening κ τ) (t : τ) (newConn : Option Nat) (ret : ErrorT) :
    descriptors (s.return_ t newConn ret) =
      descriptors s ++ (inHand (.leaving newConn ret)).toList := by
  rw [descriptors, Listening.return_, List.filterMap_append]
  refine congrArg (descriptors s ++ ·) ?_
  cases left : inHand (.leaving newConn ret) with
  | none => exact List.filterMap_cons_none left
  | some c => exact List.filterMap_cons_some left

omit [DecidableEq κ] in
/-- A call ends that has no connection. -/
theorem quiet_return {newConn : Option Nat} {ret : ErrorT}
    (empty : inHand (.leaving newConn ret) = none) (before : inHand (s.place t) = none) :
    Quiet s (s.return_ t newConn ret) := by
  have moved : Quiet s (s.setPlace t .away) := quiet_setPlace before.symm
  refine ⟨rfl, moved.hands, ?_, le_rfl, fun c inside still => ⟨inside, still⟩⟩
  rw [descriptors_return, empty, Option.toList_none, List.append_nil]

omit [DecidableEq κ] [DecidableEq τ] in
/-- A control block is closed, or stays as it was. -/
theorem quiet_setConnection {connection : Connection}
    (closes : connection.isOpen = true → (s.connection c).isOpen = true) :
    Quiet s (s.setConnection c connection) := by
  refine ⟨rfl, fun _ => rfl, rfl, le_rfl, fun d inside still => ⟨inside, ?_⟩⟩
  unfold Listening.setConnection at still
  dsimp only at still
  rw [Function.update_apply] at still
  split at still
  case isTrue equal =>
    rw [equal]
    exact closes still
  case isFalse => exact still

omit [DecidableEq τ] in
theorem quiet_setTask (k : κ) (task : Task τ Held) : Quiet s (s.setTask k task) :=
  quiet_same rfl rfl rfl rfl rfl

omit [DecidableEq κ] [DecidableEq τ] in
/-- One connection is somewhere else or new, the others are where they were. -/
theorem accounted_move {there : Keeper τ} (accounted : Accounted s)
    (queue : (queued s').Nodup) (returned : (descriptors s').Nodup)
    (others : ∀ d k, d ≠ c → (Keeps s' d k ↔ Keeps s d k))
    (own : ∀ k, Keeps s' c k ↔ k = there)
    (isOpen : ∀ d, d ≠ c → d < s'.arrived → (s'.connection d).isOpen = true →
      d < s.arrived ∧ (s.connection d).isOpen = true) : Accounted s' := by
  refine ⟨queue, returned, fun d k k' first second => ?_, fun d inside still => ?_⟩
  · by_cases same : d = c
    · rw [same, own] at first second
      rw [first, second]
    · rw [others d _ same] at first second
      exact accounted.unique d k k' first second
  · by_cases same : d = c
    · rw [same]
      exact ⟨there, (own there).mpr rfl⟩
    · obtain ⟨before, opened⟩ := isOpen d same inside still
      obtain ⟨k, keeps⟩ := accounted.kept d before opened
      exact ⟨k, (others d k same).mpr keeps⟩

omit [DecidableEq κ] [DecidableEq τ] in
/-- Some connections are nowhere any more. -/
theorem accounted_drop_iff {dropped : Nat → Prop} (sound : Sound s) (accounted : Accounted s)
    (queue : (queued s').Nodup) (returned : (descriptors s').Nodup)
    (keeps : ∀ d k, Keeps s' d k ↔ ¬dropped d ∧ Keeps s d k)
    (known : ∀ d, dropped d → ∃ k, Keeps s d k) (arrived : s'.arrived = s.arrived)
    (connection : s'.connection = s.connection) :
    (∀ d, dropped d → (s.connection d).isOpen = false) ↔ Accounted s' := by
  constructor
  · intro closed
    refine ⟨queue, returned, fun d k k' first second => ?_, fun d inside still => ?_⟩
    · exact accounted.unique d k k' ((keeps d k).mp first).2 ((keeps d k').mp second).2
    · rw [connection] at still
      rw [arrived] at inside
      obtain ⟨k, before⟩ := accounted.kept d inside still
      refine ⟨k, (keeps d k).mpr ⟨fun lost => ?_, before⟩⟩
      rw [closed d lost] at still
      cases still
  · intro after d lost
    by_contra opened
    rw [Bool.not_eq_false] at opened
    obtain ⟨k, before⟩ := known d lost
    have inside := sound.arrived d k before
    rw [← arrived] at inside
    rw [← connection] at opened
    obtain ⟨k', still⟩ := after.kept d inside opened
    exact ((keeps d k').mp still).1 lost

/-- What is so after a step, and when no connection was lost. -/
def Kept (s' : Listening κ τ) (fits : Prop) : Prop := Sound s' ∧ (fits ↔ Accounted s')

omit [DecidableEq κ] [DecidableEq τ] in
theorem Quiet.kept (quiet : Quiet s s') (sound : Sound s) (accounted : Accounted s) :
    Kept s' True :=
  ⟨quiet.sound sound, iff_of_true trivial (quiet.accounted accounted)⟩

omit [DecidableEq κ] [DecidableEq τ] in
theorem mem_queued {list : ArrayList Nat} (stored : s.acceptedConnections = some list) :
    c ∈ queued s ↔ some c ∈ list.contents := by
  rw [queued, stored, Option.map_some, Option.getD_some, List.reduceOption_mem_iff]

theorem inHand_leaving_none (ret : ErrorT) : inHand (.leaving none ret) = none := by
  unfold inHand
  dsimp only
  split <;> rfl

omit [DecidableEq κ] in
theorem place_setPlace (s : Listening κ τ) (t u : τ) (place : ListenPlace) :
    (s.setPlace t place).place u = if u = t then place else s.place u := Function.update_apply ..

omit [DecidableEq κ] in
/-- The first connection of the queue goes into the hands of a thread. -/
theorem keeps_taken {later : List Nat} (accounted : Accounted s) (queue : queued s = c :: later)
    (before : inHand (s.place t) = none) (queue' : queued s' = later)
    (hand : ∀ u, inHand (s'.place u) = if u = t then some c else inHand (s.place u))
    (returned : descriptors s' = descriptors s) :
    (∀ d k, d ≠ c → (Keeps s' d k ↔ Keeps s d k)) ∧ ∀ k, Keeps s' c k ↔ k = .listen t := by
  have nodup := accounted.queued
  rw [queue, List.nodup_cons] at nodup
  have here : Keeps s c .queue := by
    rw [Keeps, queue]
    exact List.mem_cons_self
  refine ⟨fun d k other => ?_, fun k => ?_⟩
  · cases k with
    | queue => simp [Keeps, queue', queue, other]
    | listen u =>
      rw [Keeps, Keeps, hand]
      by_cases same : u = t
      · rw [if_pos same, same, before]
        simp [Ne.symm other]
      · rw [if_neg same]
    | descriptor => rw [Keeps, Keeps, returned]
  · cases k with
    | queue => simp [Keeps, queue', nodup.1]
    | listen u =>
      rw [Keeps, hand]
      by_cases same : u = t
      · simp [same]
      · rw [if_neg same]
        refine iff_of_false (fun held => ?_) fun equal => same (by injection equal)
        cases accounted.unique c (.listen u) .queue held here
    | descriptor =>
      rw [Keeps, returned]
      refine iff_of_false (fun held => ?_) fun equal => (by cases equal)
      cases accounted.unique c .descriptor .queue held here

omit [DecidableEq κ] in
/-- `listen` takes the first connection that waits. -/
theorem removeHead_kept (sound : Sound s) (accounted : Accounted s)
    (before : inHand (s.place t) = none) : Kept (s.removeHead t) True := by
  unfold Listening.removeHead
  cases stored : s.acceptedConnections with
  | none =>
    have quiet : Quiet s (s.setPlace t (.leaving none cTimeout)) := by
      apply quiet_setPlace
      rw [inHand_leaving_none, before]
    exact quiet.kept sound accounted
  | some list =>
    obtain ⟨valid, present⟩ := sound.valid list stored
    obtain ⟨valid', rest, head⟩ := ArrayList.removeHead_effect valid
    dsimp only
    cases contents : list.contents with
    | nil =>
      have empty : 0 = list.numEntries := by
        rw [← ArrayList.contents_length, contents, List.length_nil]
      have same : s = { s with acceptedConnections := some list } := by rw [← stored]
      have quiet : Quiet s (s.setPlace t (.leaving none cTimeout)) := by
        apply quiet_setPlace
        rw [inHand_leaving_none, before]
      rw [ArrayList.removeHead, if_pos empty, ← same]
      exact quiet.kept sound accounted
    | cons first later =>
      rw [contents] at present head rest
      obtain ⟨c, rfl⟩ : ∃ c, first = some c := by
        cases first with
        | none => exact absurd List.mem_cons_self present
        | some c => exact ⟨c, rfl⟩
      have queue : queued s = c :: later.reduceOption := by
        rw [queued, stored, Option.map_some, Option.getD_some, contents,
          List.reduceOption_cons_of_some]
      have nodup := accounted.queued
      rw [queue, List.nodup_cons] at nodup
      rw [show list.removeHead.2 = some c from head]
      dsimp only
      have queue' : queued (Listening.setPlace { s with
          acceptedConnections := some list.removeHead.1 } t (.adding c)) = later.reduceOption :=
        congrArg List.reduceOption rest
      obtain ⟨others, own⟩ := keeps_taken accounted queue before queue'
        (fun u => by rw [place_setPlace]; split <;> rfl) rfl
      refine ⟨⟨fun list' same => ?_, fun d k keeps => ?_⟩, iff_of_true trivial ?_⟩
      · have equal : list' = list.removeHead.1 := (Option.some.inj same).symm
        rw [equal, rest]
        exact ⟨valid', fun member => present (List.mem_cons_of_mem _ member)⟩
      · by_cases same : d = c
        · apply sound.arrived d .queue
          rw [Keeps, queue, same]
          exact List.mem_cons_self
        · exact sound.arrived d k ((others d k same).mp keeps)
      · refine accounted_move accounted ?_ accounted.returned others own
          fun d _ inside still => ⟨inside, still⟩
        rw [queue']
        exact nodup.2

omit [DecidableEq κ] in
/-- A call of `listen` returns. -/
theorem leave_kept {newConn : Option Nat} {ret : ErrorT} (sound : Sound s)
    (accounted : Accounted s) (place : s.place t = .leaving newConn ret) :
    Kept (s.return_ t newConn ret) True := by
  cases held : inHand (.leaving newConn ret) with
  | none =>
    have quiet : Quiet s (s.return_ t newConn ret) := by
      apply quiet_return held
      rw [place, held]
    exact quiet.kept sound accounted
  | some c =>
    have here : Keeps s c (.listen t) := by
      rw [Keeps, place, held]
    have returned : descriptors (s.return_ t newConn ret) = descriptors s ++ [c] := by
      rw [descriptors_return, held, Option.toList_some]
    have hand : ∀ u, inHand ((s.return_ t newConn ret).place u) =
        if u = t then none else inHand (s.place u) := by
      intro u
      unfold Listening.return_
      rw [place_setPlace]
      split <;> rfl
    have others : ∀ d k, d ≠ c → (Keeps (s.return_ t newConn ret) d k ↔ Keeps s d k) := by
      intro d k other
      cases k with
      | queue => exact Iff.rfl
      | listen u =>
        rw [Keeps, Keeps, hand]
        by_cases same : u = t
        · rw [if_pos same, same, place, held]
          simp [Ne.symm other]
        · rw [if_neg same]
      | descriptor => simp [Keeps, returned, other]
    have own : ∀ k, Keeps (s.return_ t newConn ret) c k ↔ k = .descriptor := by
      intro k
      cases k with
      | queue =>
        refine iff_of_false (fun queued => ?_) fun equal => (by cases equal)
        cases accounted.unique c .queue (.listen t) queued here
      | listen u =>
        rw [Keeps, hand]
        by_cases same : u = t
        · simp [same]
        · rw [if_neg same]
          refine iff_of_false (fun kept => same ?_) fun equal => (by cases equal)
          injection accounted.unique c (.listen u) (.listen t) kept here
      | descriptor => simp [Keeps, returned]
    refine ⟨⟨sound.valid, fun d k keeps => ?_⟩, iff_of_true trivial ?_⟩
    · by_cases same : d = c
      · rw [same]
        exact sound.arrived c (.listen t) here
      · exact sound.arrived d k ((others d k same).mp keeps)
    · refine accounted_move accounted accounted.queued ?_ others own
        fun d _ inside still => ⟨inside, still⟩
      rw [returned, List.nodup_append]
      refine ⟨accounted.returned, List.pairwise_singleton _ c, fun d before d' new same => ?_⟩
      rw [List.mem_singleton.mp new] at same
      rw [same] at before
      cases accounted.unique c .descriptor (.listen t) before here

omit [DecidableEq κ] in
/-- A new queue is stored; the connections of the one before are nowhere any more. -/
theorem create_kept (backlogSize : Nat) (sound : Sound s) (accounted : Accounted s)
    (before : inHand (s.place t) = none) :
    Kept (Listening.setPlace { s with acceptedConnections := some (.fresh backlogSize) } t .listed)
      (∀ c ∈ queued s, (s.connection c).isOpen = false) := by
  have moved : Quiet s (s.setPlace t .listed) := quiet_setPlace before.symm
  have keeps : ∀ d k, Keeps (Listening.setPlace { s with
      acceptedConnections := some (.fresh backlogSize) } t .listed) d k ↔
        d ∉ queued s ∧ Keeps s d k := by
    intro d k
    have elsewhere : k ≠ .queue → Keeps s d k → d ∉ queued s := fun other keeps queue =>
      other (accounted.unique d k .queue keeps queue)
    cases k with
    | queue =>
      refine iff_of_false (fun queue => ?_) fun both => both.1 both.2
      rw [Keeps, mem_queued rfl, ArrayList.fresh_contents] at queue
      cases queue
    | listen u =>
      rw [Keeps, Keeps, ← moved.hands u]
      refine ⟨fun held => ⟨elsewhere (fun equal => by cases equal) ?_, held⟩, fun both => both.2⟩
      rw [Keeps, ← moved.hands u]
      exact held
    | descriptor =>
      exact ⟨fun kept => ⟨elsewhere (fun equal => by cases equal) kept, kept⟩, fun both => both.2⟩
  refine ⟨⟨fun list same => ?_, fun d k kept => sound.arrived d k ((keeps d k).mp kept).2⟩, ?_⟩
  · rw [← Option.some.inj same]
    refine ⟨ArrayList.fresh_valid backlogSize, ?_⟩
    rw [ArrayList.fresh_contents]
    exact List.not_mem_nil
  · refine accounted_drop_iff sound accounted ?_ accounted.returned keeps
      (fun d queue => ⟨.queue, queue⟩) rfl rfl
    rw [queued, Listening.setPlace, Option.map_some, ArrayList.fresh_contents]
    exact List.nodup_nil

omit [DecidableEq κ] in
/-- A connection is in nobody's hands any more. -/
theorem lost_kept {place : ListenPlace} (sound : Sound s) (accounted : Accounted s)
    (before : inHand (s.place t) = some c) (after : inHand place = none) :
    Kept (s.setPlace t place) ((s.connection c).isOpen = false) := by
  have hand : ∀ u, inHand ((s.setPlace t place).place u) =
      if u = t then none else inHand (s.place u) := by
    intro u
    rw [place_setPlace]
    split
    · exact after
    · rfl
  have keeps : ∀ d k, Keeps (s.setPlace t place) d k ↔ ¬d = c ∧ Keeps s d k := by
    intro d k
    have elsewhere : k ≠ .listen t → Keeps s d k → d ≠ c := fun other kept same =>
      other (accounted.unique c k (.listen t) (same ▸ kept) before)
    cases k with
    | queue =>
      exact ⟨fun kept => ⟨elsewhere (fun equal => by cases equal) kept, kept⟩, fun both => both.2⟩
    | listen u =>
      rw [Keeps, Keeps, hand]
      by_cases same : u = t
      · rw [if_pos same, same, before]
        simp [eq_comm]
      · rw [if_neg same]
        refine ⟨fun held => ⟨elsewhere (fun equal => same (by injection equal)) held, held⟩,
          fun both => both.2⟩
    | descriptor =>
      exact ⟨fun kept => ⟨elsewhere (fun equal => by cases equal) kept, kept⟩, fun both => both.2⟩
  have lost : (∀ d, d = c → (s.connection d).isOpen = false) ↔ Accounted (s.setPlace t place) :=
    accounted_drop_iff sound accounted accounted.queued accounted.returned keeps
      (fun d same => ⟨.listen t, same ▸ before⟩) rfl rfl
  refine ⟨⟨sound.valid, fun d k kept => sound.arrived d k ((keeps d k).mp kept).2⟩, ?_⟩
  rw [← lost]
  exact ⟨fun closed d same => same ▸ closed, fun all => all c rfl⟩

omit [DecidableEq κ] in
/-- The socket, or another resource, has its number. -/
theorem quiet_added {held : Held} {fd : Nat}
    (before : inHand (s.place t) = newConn (.storing held fd)) :
    Quiet s (s.added t fd held) := by
  cases held with
  | socket c =>
    refine quiet_setPlace ?_
    rw [inHand, if_neg (Int.not_lt.mpr (Int.natCast_nonneg fd)), before]
    rfl
  | other number => exact quiet_setPlace before.symm

/-- The accesses to the table of a task. -/
theorem table_kept {p : TablePlace} (sound : Sound s) (accounted : Accounted s)
    (place : s.place t = .table p) : Kept (s.advanceTable t p) (Finds s t p) := by
  have goOn {s' : Listening κ τ} {place' : ListenPlace} (stored : Quiet s s')
      (same : inHand place' = newConn p) (always : Finds s t p) :
      Kept (s'.setPlace t place') (Finds s t p) := by
    have moved : Quiet s' (s'.setPlace t place') := by
      apply quiet_setPlace
      rw [stored.hands, place]
      exact same
    obtain ⟨after, fits⟩ := (stored.trans moved).kept sound accounted
    exact ⟨after, iff_of_true always (fits.mp trivial)⟩
  cases p with
  | searching held i =>
    unfold Listening.advanceTable
    dsimp only
    cases read : (s.task (s.owner t)).freeResourceIds.map[i]? with
    | none =>
      have behind := List.getElem?_eq_none_iff.mp read
      cases held with
      | socket c =>
        obtain ⟨after, lost⟩ := lost_kept sound accounted
          (by rw [place]; rfl : inHand (s.place t) = some c)
          (rfl : inHand (.leaving (some c) cDatabaseOverflow) = none)
        refine ⟨after, Iff.trans ?_ lost⟩
        rw [Finds, ← Bool.not_eq_true]
        exact ⟨fun fits still => absurd (fits still) (by omega),
          fun closed still => absurd still closed⟩
      | other number => exact goOn (quiet_refl s) rfl trivial
    | some word =>
      have inside := (List.getElem?_eq_some_iff.mp read).1
      refine goOn (quiet_refl s) ?_ ?_
      · cases held <;> split <;> rfl
      · cases held with
        | socket c => exact fun _ => inside
        | other number => trivial
  | taking held i word =>
    refine goOn (quiet_setTask _ _) ?_ trivial
    cases held <;> rfl
  | storing held fd =>
    have stored : Quiet s (s.setSlot t fd (some held) 1) := quiet_setTask _ _
    refine (stored.trans (quiet_added ?_)).kept sound accounted
    rw [stored.hands, place]
    rfl
  | scanning held i err =>
    unfold Listening.advanceTable
    dsimp only
    split
    · refine goOn (quiet_refl s) ?_ trivial
      split <;> rfl
    · exact goOn (quiet_refl s) rfl trivial
  | emptying held i err =>
    have closed (list : List Nat) : Quiet s { s.setSlot t i none (-1) with closed := list } :=
      quiet_same rfl rfl rfl rfl rfl
    exact goOn (closed _) rfl trivial
  | freeing held i err =>
    unfold Listening.advanceTable
    dsimp only
    split
    · split
      · exact goOn (quiet_refl s) rfl trivial
      · exact goOn (quiet_refl s) rfl trivial
    · exact goOn (quiet_refl s) rfl trivial
  | giving held i word err => exact goOn (quiet_setTask _ _) rfl trivial

omit [DecidableEq κ] [DecidableEq τ] in
/-- The queue takes a connection, or the socket stays as it is. -/
theorem accepted_cases (s : Listening κ τ) (n : Nat) :
    (∃ list, s.acceptedConnections = some list ∧ list.numEntries < list.maxEntries ∧
      s.accepted n = ({ s with
        acceptedConnections := some (list.addTail (some n)).1
        threadToUnblock := s.blockedThread }, cOk)) ∨
    ∃ woken error, s.accepted n = ({ s with threadToUnblock := woken }, error) ∧
      isOk error = false := by
  unfold Listening.accepted
  by_cases listens : s.state &&& socketListening = 0
  · rw [if_pos listens]
    exact .inr ⟨s.threadToUnblock, cError, rfl, rfl⟩
  · rw [if_neg listens]
    cases stored : s.acceptedConnections with
    | none =>
      have same : s = { s with acceptedConnections := none } := by rw [← stored]
      exact .inr ⟨s.threadToUnblock, cError, congrArg (·, cError) same, rfl⟩
    | some list =>
      by_cases full : list.numEntries + 1 > list.maxEntries
      · refine .inr ⟨none, cDatabaseOverflow, ?_, rfl⟩
        dsimp only
        rw [ArrayList.addTail, if_pos full, ← stored]
        rfl
      · refine .inl ⟨list, rfl, by omega, ?_⟩
        have added : (list.addTail (some n)).2 = cOk := by
          rw [ArrayList.addTail, if_neg full]
        dsimp only
        rw [added]
        rfl

omit [DecidableEq κ] [DecidableEq τ] in
/-- A connection that arrives goes to the end of the queue. -/
theorem queue_kept {list : ArrayList Nat} {woken : Option τ} (sound : Sound s)
    (accounted : Accounted s) (stored : s.acceptedConnections = some list)
    (room : list.numEntries < list.maxEntries) :
    Kept { Listening.setConnection { s with arrived := s.arrived + 1 } s.arrived .fresh with
      acceptedConnections := some (list.addTail (some s.arrived)).1
      threadToUnblock := woken } True := by
  obtain ⟨valid, present⟩ := sound.valid list stored
  obtain ⟨valid', contents⟩ := ArrayList.addTail_effect valid (some s.arrived) room
  generalize after : ({ Listening.setConnection { s with arrived := s.arrived + 1 } s.arrived
      .fresh with
    acceptedConnections := some (list.addTail (some s.arrived)).1
    threadToUnblock := woken } : Listening κ τ) = s'
  have queue : queued s' = queued s ++ [s.arrived] := by
    rw [← after, queued, queued, stored, Option.map_some, Option.getD_some, contents,
      List.reduceOption_append, List.reduceOption_singleton, Option.toList_some]
    rfl
  have others : ∀ d k, d ≠ s.arrived → (Keeps s' d k ↔ Keeps s d k) := by
    intro d k other
    cases k with
    | queue => simp [Keeps, queue, other]
    | listen u =>
      rw [← after]
      rfl
    | descriptor =>
      rw [← after]
      rfl
  have fresh : ∀ k, ¬Keeps s s.arrived k := fun k keeps =>
    absurd (sound.arrived s.arrived k keeps) (lt_irrefl _)
  have own : ∀ k, Keeps s' s.arrived k ↔ k = .queue := by
    intro k
    cases k with
    | queue => simp [Keeps, queue]
    | listen u =>
      rw [← after]
      exact iff_of_false (fresh (.listen u)) fun equal => by cases equal
    | descriptor =>
      rw [← after]
      exact iff_of_false (fresh .descriptor) fun equal => by cases equal
  have arrived : s'.arrived = s.arrived + 1 := by
    rw [← after]
    rfl
  refine ⟨⟨fun list' same => ?_, fun d k keeps => ?_⟩, iff_of_true trivial ?_⟩
  · rw [← after] at same
    rw [← Option.some.inj same, contents]
    refine ⟨valid', fun member => ?_⟩
    rcases List.mem_append.mp member with before | new
    · exact present before
    · cases List.mem_singleton.mp new
  · rw [arrived]
    by_cases same : d = s.arrived
    · omega
    · have before := sound.arrived d k ((others d k same).mp keeps)
      omega
  · refine accounted_move accounted ?_ ?_ others own fun d other inside still => ?_
    · rw [queue, List.nodup_append]
      refine ⟨accounted.queued, List.pairwise_singleton _ _, fun d before d' new same => ?_⟩
      rw [List.mem_singleton.mp new] at same
      exact fresh .queue (same ▸ before)
    · rw [← after]
      exact accounted.returned
    · rw [arrived] at inside
      rw [← after] at still
      have opened : (s.connection d).isOpen = true := by
        rw [← still]
        exact congrArg Connection.isOpen (Function.update_of_ne other ..).symm
      exact ⟨by omega, opened⟩

omit [DecidableEq κ] [DecidableEq τ] in
/-- A connection arrives and waits on the queue, or is closed. -/
theorem tcpAcceptWrapper_kept (listens : Bool) (err : ErrT) (sound : Sound s)
    (accounted : Accounted s) : Kept (s.tcpAcceptWrapper listens err) True := by
  have arrives : ∀ s' : Listening κ τ, s'.acceptedConnections = s.acceptedConnections →
      s'.place = s.place → s'.returned = s.returned → s'.arrived = s.arrived + 1 →
        (∀ c, c ≠ s.arrived → s'.connection c = s.connection c) →
          (s'.connection s.arrived).isOpen = false → Quiet s s' := by
    intro s' queue place returned arrived others closed
    refine ⟨queue, fun t => by rw [place], by rw [descriptors, returned]; rfl,
      by omega, fun c inside still => ?_⟩
    by_cases same : c = s.arrived
    · rw [same, closed] at still
      cases still
    · rw [others c same] at still
      exact ⟨by omega, still⟩
  have stored : ∀ (s : Listening κ τ) (n : Nat) (connection : Connection),
      connection.isOpen = false →
        ((s.setConnection n connection).connection n).isOpen = false := by
    intro s n connection closed
    rw [Listening.setConnection]
    dsimp only
    rw [Function.update_self, closed]
  unfold Listening.tcpAcceptWrapper
  cases listens with
  | false =>
    dsimp only
    rw [if_pos (by rfl)]
    refine Quiet.kept (arrives _ rfl rfl rfl rfl (fun c other => ?_) ?_) sound accounted
    · exact Function.update_of_ne other ..
    · exact stored _ _ _ rfl
  | true =>
    dsimp only
    rw [if_neg (by decide)]
    rcases accepted_cases (Listening.setConnection { s with arrived := s.arrived + 1 } s.arrived
      .fresh) s.arrived with ⟨list, queue, room, taken⟩ | ⟨woken, error, refused, failed⟩
    · rw [taken]
      exact queue_kept sound accounted queue room
    · rw [refused]
      dsimp only
      rw [failed, if_neg Bool.false_ne_true]
      refine Quiet.kept (arrives _ rfl rfl rfl rfl (fun c other => ?_) ?_) sound accounted
      · exact (Function.update_of_ne other ..).trans (Function.update_of_ne other ..)
      · exact stored _ _ _ rfl

omit [DecidableEq κ] in
/-- A thread goes on to a place where it holds no connection either. -/
theorem goOn_kept {place : ListenPlace} (sound : Sound s) (accounted : Accounted s)
    (quiet : Quiet s s') (before : inHand (s'.place t) = none) (after : inHand place = none) :
    Kept (s'.setPlace t place) True :=
  (quiet.trans (quiet_setPlace (after.trans before.symm))).kept sound accounted

theorem tcpClose_isOpen (err : ErrT) {x : Connection} (still : (x.tcpClose err).isOpen = true) :
    x.isOpen = true := ((Bool.and_eq_true ..).mp still).1

theorem destroy_isOpen (type : SockType) (err : ErrT) {x : Connection}
    (still : (x.destroy type err).isOpen = true) : x.isOpen = true := by
  unfold Connection.destroy Connection.unregister at still
  split at still
  · split at still
    · exact tcpClose_isOpen err still
    · exact still
  · exact still

/-- The next access of a thread. -/
theorem advance_kept (sound : Sound s) (accounted : Accounted s) (t : τ) :
    Kept (s.advance t) (Fits s (.advance t)) := by
  unfold Listening.advance Fits
  dsimp only
  cases place : s.place t with
  | opened backlogSize =>
    refine goOn_kept sound accounted (quiet_refl s) (by rw [place]; rfl) ?_
    split <;> rfl
  | creating backlogSize => exact create_kept backlogSize sound accounted (by rw [place]; rfl)
  | listed =>
    refine goOn_kept sound accounted (quiet_refl s) (by rw [place]; rfl) ?_
    split <;> rfl
  | marking =>
    have quiet : Quiet s { s with hasListeningThread := true } :=
      quiet_same rfl rfl rfl rfl rfl
    exact goOn_kept sound accounted quiet (by rw [place]; rfl) rfl
  | registering =>
    dsimp only
    split
    · have quiet : Quiet s { s with blockedThread := some t } :=
        quiet_same rfl rfl rfl rfl rfl
      exact goOn_kept sound accounted quiet (by rw [place]; rfl) rfl
    · have quiet : Quiet s (s.return_ t none cSocketAlreadyListened) :=
        quiet_return (inHand_leaving_none _) (by rw [place]; rfl)
      exact quiet.kept sound accounted
  | registered =>
    refine goOn_kept sound accounted (quiet_refl s) (by rw [place]; rfl) ?_
    split <;> rfl
  | committed => exact goOn_kept sound accounted (quiet_refl s) (by rw [place]; rfl) rfl
  | fetching => exact removeHead_kept sound accounted (by rw [place]; rfl)
  | adding newConn =>
    exact (quiet_setPlace (by rw [place]; rfl) : Quiet s _).kept sound accounted
  | table p =>
    exact table_kept sound accounted place
  | closing held err =>
    have quiet : Quiet s (s.destroy t held err) := by
      cases held with
      | socket c =>
        have ended := quiet_setConnection (s := s) (destroy_isOpen s.type err (x := s.connection c))
        refine ended.trans (quiet_setPlace ?_)
        rw [ended.hands, place]
        rfl
      | other number => exact quiet_setPlace (by rw [place]; rfl)
    exact quiet.kept sound accounted
  | leaving newConn ret =>
    have quiet : Quiet s { s with blockedThread := none } :=
      quiet_same rfl rfl rfl rfl rfl
    exact leave_kept (quiet.sound sound) (quiet.accounted accounted) place
  | away => exact (quiet_refl s).kept sound accounted
  | calling => exact (quiet_refl s).kept sound accounted
  | asleep => exact (quiet_refl s).kept sound accounted

omit [DecidableEq κ] in
theorem quiet_unblock (s : Listening κ τ) (t : τ) : Quiet s (s.unblock t) := by
  unfold Listening.unblock
  split
  case isTrue asleep =>
    apply quiet_setPlace
    rw [asleep]
    rfl
  case isFalse => exact quiet_refl s

omit [DecidableEq κ] in
theorem quiet_close (away : s.place t = .away) (fd : Nat) (err : ErrT) :
    Quiet s (s.close t fd err) := by
  unfold Listening.close
  cases (s.task (s.owner t)).getOwnedResourceByFileDescriptor fd with
  | none => exact quiet_refl s
  | some held => exact quiet_setPlace (by rw [away]; rfl)

omit [DecidableEq κ] in
theorem quiet_protocolListen (s : Listening κ τ) (t : τ) (ret : ErrorT) :
    Quiet s (s.protocolListen t ret) := by
  unfold Listening.protocolListen
  split
  case isTrue calling =>
    have empty : inHand (s.place t) = none := by rw [calling]; rfl
    split
    · exact quiet_return (inHand_leaving_none _) empty
    · exact quiet_setPlace empty.symm
  case isFalse => exact quiet_refl s

omit [DecidableEq κ] in
theorem quiet_listen (away : s.place t = .away) (backlogSize : Nat) :
    Quiet s (s.listen t backlogSize) := by
  have empty : inHand (s.place t) = none := by rw [away]; rfl
  unfold Listening.listen
  split
  · exact quiet_return (inHand_leaving_none _) empty
  · split
    · exact quiet_return (inHand_leaving_none _) empty
    · have quiet : Quiet s { s with state := socketListening } :=
        quiet_same rfl rfl rfl rfl rfl
      exact quiet.trans (quiet_setPlace empty.symm)

theorem closedByPeer_isOpen (err : ErrT) {x : Connection}
    (still : (x.closedByPeer err).isOpen = true) : x.isOpen = true := by
  have before := tcpClose_isOpen err still
  split at before
  · exact before
  · exact before

/-- A step loses no connection exactly when it fits. -/
theorem step_kept (sound : Sound s) (accounted : Accounted s) (op : ListenOp κ τ) :
    Kept (s.step op) (Fits s op) := by
  cases op with
  | listen t backlogSize =>
    unfold Listening.step
    dsimp only
    split
    case isTrue away => exact (quiet_listen away backlogSize).kept sound accounted
    case isFalse => exact (quiet_refl s).kept sound accounted
  | advance t => exact advance_kept sound accounted t
  | protocolListen t ret => exact (quiet_protocolListen s t ret).kept sound accounted
  | timeout t => exact (quiet_unblock s t).kept sound accounted
  | accept listens err =>
    unfold Listening.step
    dsimp only
    split
    · exact tcpAcceptWrapper_kept listens err sound accounted
    · exact (quiet_refl s).kept sound accounted
  | unblock =>
    unfold Listening.step
    dsimp only
    split
    case h_1 t _ =>
      have cleared : Quiet (s.unblock t) { s.unblock t with threadToUnblock := none } :=
        quiet_same rfl rfl rfl rfl rfl
      exact ((quiet_unblock s t).trans cleared).kept sound accounted
    case h_2 => exact (quiet_refl s).kept sound accounted
  | otherCall state blockedThread =>
    have quiet : Quiet s { s with state := state, blockedThread := blockedThread } :=
      quiet_same rfl rfl rfl rfl rfl
    exact quiet.kept sound accounted
  | closedByPeer c err =>
    have quiet : Quiet s (s.setConnection c ((s.connection c).closedByPeer err)) :=
      quiet_setConnection (closedByPeer_isOpen err)
    exact quiet.kept sound accounted
  | failed c =>
    have quiet : Quiet s (s.setConnection c (s.connection c).failed) :=
      quiet_setConnection fun still => by cases still
    exact quiet.kept sound accounted
  | acquire t number =>
    unfold Listening.step
    dsimp only
    split
    case isTrue away => exact (quiet_setPlace (by rw [away]; rfl) : Quiet s _).kept sound accounted
    case isFalse => exact (quiet_refl s).kept sound accounted
  | close t fd err =>
    unfold Listening.step
    dsimp only
    split
    case isTrue away => exact (quiet_close away fd err).kept sound accounted
    case isFalse => exact (quiet_refl s).kept sound accounted

omit [DecidableEq κ] [DecidableEq τ] in
theorem sound_start (type : SockType) (owner : τ → κ) (task : κ → Task τ Nat) :
    Sound (Listening.start type owner task) ∧ Accounted (Listening.start type owner task) := by
  have nothing : ∀ c k, ¬Keeps (Listening.start type owner task) c k := by
    intro c k keeps
    cases k <;> cases keeps
  refine ⟨⟨fun list none => (by cases none), fun c k keeps => absurd keeps (nothing c k)⟩,
    List.nodup_nil, List.nodup_nil, fun c k _ keeps => absurd keeps (nothing c k),
    fun c none => absurd none (Nat.not_lt_zero c)⟩

section Tables

/-- What a thread in the table of its task has come to is so still. -/
def At (task : Task τ Held) : TablePlace → Prop
  | .searching _ _ | .scanning _ _ _ => True
  | .taking _ i word => task.freeResourceIds.map[i]? = some word ∧ word.clz.toNat < 32
  | .storing _ fd => bit task.freeResourceIds.map fd = false ∧
      ∀ c, task.acquiredResources fd ≠ some (.socket c)
  | .emptying held i _ => task.acquiredResources i = some held
  | .freeing _ i _ => ∀ c, task.acquiredResources i ≠ some (.socket c)
  | .giving _ i word _ => (∀ c, task.acquiredResources i ≠ some (.socket c)) ∧
      task.freeResourceIds.map[i / 32]? = some word

/-- The numbers of sockets are not free, and one thread at most is in the table of a task. -/
structure Orderly (s : Listening κ τ) : Prop where
  used : ∀ k fd c, (s.task k).acquiredResources fd = some (.socket c) →
    bit (s.task k).freeResourceIds.map fd = false
  alone : ∀ t u p q, s.place t = .table p → s.place u = .table q → s.owner t = s.owner u → t = u
  reads : ∀ t p, s.place t = .table p → At (s.task (s.owner t)) p
  named : Named s

variable {place : ListenPlace} {p : TablePlace}

omit [DecidableEq κ] [DecidableEq τ] in
/-- The tables stay as they are, nobody enters one, and no number is returned. -/
theorem Orderly.same (orderly : Orderly s) (task : s'.task = s.task) (owner : s'.owner = s.owner)
    (closed : s'.closed = s.closed)
    (tables : ∀ t p, s'.place t = .table p → s.place t = .table p)
    (claims : ∀ t c fd, 0 ≤ fd → Claims s' t c fd → Claims s t c fd) : Orderly s' := by
  refine ⟨?_, fun t u p q first second own => ?_, fun t p here => ?_,
    fun t c fd claim named still => ?_⟩
  · rw [task]
    exact orderly.used
  · rw [owner] at own
    exact orderly.alone t u p q (tables t p first) (tables u q second) own
  · rw [task, owner]
    exact orderly.reads t p (tables t p here)
  · rw [task, owner]
    rw [closed] at still
    exact orderly.named t c fd (claims t c fd named claim) named still

omit [DecidableEq κ] in
theorem Orderly.setPlace (orderly : Orderly s)
    (table : ∀ p, place = .table p → At (s.task (s.owner t)) p ∧
      ∀ u q, s.place u = .table q → s.owner u = s.owner t → u = t)
    (claim : ∀ c fd, 0 ≤ fd → place = .leaving (some c) fd → Claims s t c fd) :
    Orderly (s.setPlace t place) := by
  refine ⟨orderly.used, fun u v p q first second own => ?_, fun u p here => ?_,
    fun u c fd claimed named still => orderly.named u c fd ?_ named still⟩
  · rw [place_setPlace] at first second
    split at first
    case isTrue mine =>
      split at second
      case isTrue same => exact mine.trans same.symm
      case isFalse =>
        rw [mine, (table p first).2 v q second (own.symm.trans (congrArg s.owner mine))]
    case isFalse other =>
      split at second
      case isTrue same =>
        rw [same, (table q second).2 u p first (own.trans (congrArg s.owner same))]
      case isFalse => exact orderly.alone u v p q first second own
  · rw [place_setPlace] at here
    split at here
    case isTrue mine =>
      rw [mine]
      exact (table p here).1
    case isFalse => exact orderly.reads u p here
  · rcases claimed with before | here
    · exact .inl before
    · rw [place_setPlace] at here
      split at here
      case isTrue mine =>
        rw [mine]
        exact claim c fd named here
      case isFalse => exact .inr here

omit [DecidableEq κ] in
/-- A thread goes on outside the tables. -/
theorem Orderly.outside (orderly : Orderly s) (outside : isTable place = false)
    (claim : ∀ c fd, 0 ≤ fd → place ≠ .leaving (some c) fd) : Orderly (s.setPlace t place) := by
  refine orderly.setPlace (fun p here => ?_) fun c fd named here => absurd here (claim c fd named)
  rw [here] at outside
  cases outside

omit [DecidableEq κ] in
/-- A thread in a table goes on in it. -/
theorem Orderly.inside (orderly : Orderly s) (here : s.place t = .table p) {q : TablePlace}
    (reads : At (s.task (s.owner t)) q) : Orderly (s.setPlace t (.table q)) := by
  refine orderly.setPlace (fun q' same => ?_) fun c fd _ other => by cases other
  cases same
  exact ⟨reads, fun u r there own => orderly.alone u t r p there here own⟩

/-- A thread changes the table that it is in. -/
theorem Orderly.move (orderly : Orderly s) (here : s.place t = .table p) {task : Task τ Held}
    {closed : List Nat}
    (used : ∀ fd c, task.acquiredResources fd = some (.socket c) →
      bit task.freeResourceIds.map fd = false)
    (reads : ∀ q, place = .table q → At task q) (grows : s.closed ⊆ closed)
    (named : ∀ fd c, (s.task (s.owner t)).acquiredResources fd = some (.socket c) → c ∉ closed →
      task.acquiredResources fd = some (.socket c))
    (claim : ∀ c fd, 0 ≤ fd → place = .leaving (some c) fd →
      task.acquiredResources fd.toNat = some (.socket c)) :
    Orderly (Listening.setPlace { s.setTask (s.owner t) task with closed := closed } t place) := by
  have tasks (k : κ) : (s.setTask (s.owner t) task).task k =
      if k = s.owner t then task else s.task k := Function.update_apply ..
  have stored : ∀ u q, u ≠ t → s.place u = .table q →
      (s.setTask (s.owner t) task).task (s.owner u) = s.task (s.owner u) := by
    intro u q other there
    rw [tasks, if_neg fun own => other (orderly.alone u t q p there here own)]
  refine ⟨fun k fd c => ?_, fun u v q r first second own => ?_, fun u q there => ?_,
    fun u c fd claimed positive still => ?_⟩
  · change ((s.setTask (s.owner t) task).task k).acquiredResources fd = _ →
      bit ((s.setTask (s.owner t) task).task k).freeResourceIds.map fd = false
    rw [tasks]
    split
    · exact used fd c
    · exact orderly.used k fd c
  · have before : ∀ w x, (Listening.setPlace { s.setTask (s.owner t) task with closed := closed } t
        place).place w = .table x → ∃ y, s.place w = .table y := by
      intro w x there
      rw [place_setPlace] at there
      split at there
      case isTrue mine => exact ⟨p, mine ▸ here⟩
      case isFalse => exact ⟨x, there⟩
    obtain ⟨q', first⟩ := before u q first
    obtain ⟨r', second⟩ := before v r second
    exact orderly.alone u v q' r' first second own
  · rw [place_setPlace] at there
    change At ((s.setTask (s.owner t) task).task (s.owner u)) q
    split at there
    case isTrue mine =>
      rw [mine, tasks, if_pos rfl]
      exact reads q there
    case isFalse other =>
      rw [stored u q other there]
      exact orderly.reads u q there
  · change ((s.setTask (s.owner t) task).task (s.owner u)).acquiredResources fd.toNat = _
    have before : Claims s u c fd →
      ((s.setTask (s.owner t) task).task (s.owner u)).acquiredResources
        fd.toNat = some (.socket c) := by
      intro claimed
      have slot := orderly.named u c fd claimed positive fun member => still (grows member)
      rw [tasks]
      split
      case isTrue own => exact named fd.toNat c (own ▸ slot) still
      case isFalse => exact slot
    rcases claimed with earlier | there
    · exact before (.inl earlier)
    · rw [place_setPlace] at there
      split at there
      case isTrue mine =>
        rw [mine, tasks, if_pos rfl]
        exact claim c fd positive there
      case isFalse => exact before (.inr there)

/-- Each access to a table. -/
theorem Orderly.advanceTable (orderly : Orderly s) (here : s.place t = .table p) :
    Orderly (s.advanceTable t p) := by
  have reads := orderly.reads t p here
  have used := orderly.used (s.owner t)
  have never : ∀ c fd, 0 ≤ fd → ListenPlace.away ≠ .leaving (some c) fd :=
    fun c fd _ other => by cases other
  have closing : ∀ held err, Orderly (s.setPlace t (.closing held err)) :=
    fun held err => orderly.outside rfl fun c fd _ other => by cases other
  cases p with
  | searching held i =>
    unfold Listening.advanceTable
    dsimp only
    cases read : (s.task (s.owner t)).freeResourceIds.map[i]? with
    | none =>
      cases held with
      | socket c =>
        refine orderly.outside rfl fun c' fd named other => ?_
        injection other with _ same
        rw [← same] at named
        exact absurd named (by decide)
      | other number => exact orderly.outside rfl never
    | some word =>
      refine orderly.inside here ?_
      split
      case isTrue some_ => exact ⟨read, some_⟩
      case isFalse => trivial
  | taking held i word =>
    obtain ⟨read, some_⟩ := reads
    have cleared := set_clz read some_
    have set := bit_clz read some_
    have inside := inside_of_bit set
    refine orderly.move here (fun fd c slot => ?_) (fun q same => ?_) (List.Subset.refl _)
      (fun fd c slot _ => slot) fun c fd _ other => by cases other
    · dsimp only
      rw [cleared, bit_clearBit inside, used fd c slot, Bool.and_false]
    · cases same
      refine ⟨?_, fun c slot => ?_⟩
      · dsimp only
        rw [cleared, bit_clearBit inside, decide_eq_true rfl]
        rfl
      · rw [used _ c slot] at set
        cases set
  | storing held fd =>
    obtain ⟨taken, free⟩ := reads
    have slots (fd' : Nat) :
        Function.update (s.task (s.owner t)).acquiredResources fd (some held) fd' =
        if fd' = fd then some held else (s.task (s.owner t)).acquiredResources fd' :=
      Function.update_apply ..
    have stored (place : ListenPlace) (outside : isTable place = false)
        (claim : ∀ c fd', place = .leaving (some c) fd' → fd' = fd ∧ held = .socket c) :
        Orderly ((s.setSlot t fd (some held) 1).setPlace t place) := by
      refine orderly.move here (fun fd' c slot => ?_) (fun q same => ?_) (List.Subset.refl _)
        (fun fd' c slot _ => ?_) fun c fd' _ same => ?_
      · dsimp only at slot ⊢
        rw [slots] at slot
        split at slot
        case isTrue same => rw [same, taken]
        case isFalse => exact used fd' c slot
      · rw [same] at outside
        cases outside
      · dsimp only
        rw [slots, if_neg]
        · exact slot
        · rintro rfl
          exact free c slot
      · obtain ⟨number, socket⟩ := claim c fd' same
        dsimp only
        rw [number, socket, Int.toNat_natCast, Function.update_self]
    cases held with
    | socket c =>
      refine stored _ rfl fun c' fd' same => ?_
      cases same
      exact ⟨rfl, rfl⟩
    | other number => exact stored _ rfl fun c' fd' same => by cases same
  | scanning held i err =>
    unfold Listening.advanceTable
    dsimp only
    split
    · refine orderly.inside here ?_
      split
      case isTrue found => exact found
      case isFalse => trivial
    · exact closing held err
  | emptying held i err =>
    have slots (fd : Nat) : Function.update (s.task (s.owner t)).acquiredResources i none fd =
        if fd = i then none else (s.task (s.owner t)).acquiredResources fd :=
      Function.update_apply ..
    refine orderly.move here (fun fd c slot => ?_) (fun q same => ?_) (List.subset_append_right ..)
      (fun fd c slot still => ?_) fun c fd _ other => by cases other
    · dsimp only at slot ⊢
      rw [slots] at slot
      split at slot
      · cases slot
      · exact used fd c slot
    · cases same
      intro c slot
      dsimp only at slot
      rw [Function.update_self] at slot
      cases slot
    · dsimp only
      rw [slots, if_neg]
      · exact slot
      · intro same
        rw [same, show _ = some held from reads] at slot
        cases slot
        exact still (List.mem_append_left _ (List.mem_singleton_self c))
  | freeing held i err =>
    unfold Listening.advanceTable
    dsimp only
    split
    · split
      case h_1 word read => exact orderly.inside here ⟨reads, read⟩
      case h_2 => exact closing held err
    · exact closing held err
  | giving held i word err =>
    obtain ⟨free, read⟩ := reads
    have inside := (List.getElem?_eq_some_iff.mp read).1
    refine orderly.move here (fun fd c slot => ?_) (fun q same => by cases same)
      (List.Subset.refl _) (fun fd c slot _ => slot) fun c fd _ other => by cases other
    dsimp only at slot ⊢
    have other : fd ≠ i := by
      rintro rfl
      exact free c slot
    rw [set_eq_modify read (· ||| mask (i % 32)), ← setBit, bit_setBit inside, used fd c slot,
      decide_eq_false other]
    rfl

omit [DecidableEq κ] [DecidableEq τ] in
/-- Something else changes. -/
theorem Orderly.frame (orderly : Orderly s) (place : s'.place = s.place)
    (returned : s'.returned = s.returned) (task : s'.task = s.task) (owner : s'.owner = s.owner)
    (closed : s'.closed = s.closed) : Orderly s' := by
  refine orderly.same task owner closed (fun t p here => place ▸ here) fun t c fd _ claim => ?_
  rw [Claims, place, returned] at claim
  exact claim

omit [DecidableEq κ] in
theorem Orderly.return_ (orderly : Orderly s) {newConn : Option Nat} {ret : ErrorT}
    (claim : ∀ c, newConn = some c → 0 ≤ ret → Claims s t c ret) :
    Orderly (s.return_ t newConn ret) := by
  have moved : Orderly (s.setPlace t .away) :=
    orderly.outside rfl fun c fd _ other => by cases other
  refine ⟨moved.used, moved.alone, moved.reads, fun u c fd claimed positive still => ?_⟩
  rcases claimed with record | there
  · rcases List.mem_append.mp record with before | new
    · exact moved.named u c fd (.inl before) positive still
    · cases List.mem_singleton.mp new
      exact orderly.named t c ret (claim c rfl positive) positive still
  · exact moved.named u c fd (.inr there) positive still

omit [DecidableEq κ] in
/-- A thread enters the table of its task. -/
theorem Orderly.enter (orderly : Orderly s) (unused : Unused s (s.owner t))
    (reads : At (s.task (s.owner t)) p) : Orderly (s.setPlace t (.table p)) := by
  refine orderly.setPlace (fun q same => ?_) fun c fd _ other => by cases other
  cases same
  refine ⟨reads, fun u r there own => ?_⟩
  have outside := unused u own
  rw [there] at outside
  cases outside

theorem Orderly.advance (orderly : Orderly s) (apart : Apart s (.advance t)) :
    Orderly (s.advance t) := by
  unfold Listening.advance
  unfold Apart at apart
  dsimp only at apart
  cases place : s.place t with
  | opened backlogSize =>
    refine orderly.outside (by split <;> rfl) fun c fd _ other => ?_
    split at other <;> cases other
  | creating backlogSize =>
    have stored : Orderly { s with acceptedConnections := some (.fresh backlogSize) } :=
      orderly.frame rfl rfl rfl rfl rfl
    exact stored.outside rfl fun c fd _ other => by cases other
  | listed =>
    refine orderly.outside (by split <;> rfl) fun c fd _ other => ?_
    split at other <;> cases other
  | marking =>
    have stored : Orderly { s with hasListeningThread := true } := orderly.frame rfl rfl rfl rfl rfl
    exact stored.outside rfl fun c fd _ other => by cases other
  | registering =>
    dsimp only
    split
    · have stored : Orderly { s with blockedThread := some t } := orderly.frame rfl rfl rfl rfl rfl
      exact stored.outside rfl fun c fd _ other => by cases other
    · exact orderly.return_ fun c none_ => by cases none_
  | registered =>
    refine orderly.outside (by split <;> rfl) fun c fd _ other => ?_
    split at other <;> cases other
  | committed => exact orderly.outside rfl fun c fd _ other => by cases other
  | fetching =>
    dsimp only
    unfold Listening.removeHead
    cases s.acceptedConnections with
    | none => exact orderly.outside rfl fun c fd _ other => by cases other
    | some list =>
      have stored : Orderly { s with acceptedConnections := some list.removeHead.1 } :=
        orderly.frame rfl rfl rfl rfl rfl
      dsimp only
      cases list.removeHead.2 with
      | none => exact stored.outside rfl fun c fd _ other => by cases other
      | some newConn => exact stored.outside rfl fun c fd _ other => by cases other
  | adding newConn =>
    rw [place] at apart
    exact orderly.enter apart trivial
  | table p => exact orderly.advanceTable place
  | closing held err =>
    dsimp only
    cases held with
    | socket c =>
      have stored : Orderly (s.setConnection c ((s.connection c).destroy s.type err)) :=
        orderly.frame rfl rfl rfl rfl rfl
      exact stored.outside rfl fun c fd _ other => by cases other
    | other number => exact orderly.outside rfl fun c fd _ other => by cases other
  | leaving newConn ret =>
    have stored : Orderly { s with blockedThread := none } := orderly.frame rfl rfl rfl rfl rfl
    exact stored.return_ fun c some_ _ => .inr (some_ ▸ place)
  | away => exact orderly
  | calling => exact orderly
  | asleep => exact orderly

omit [DecidableEq κ] in
theorem Orderly.unblock (orderly : Orderly s) (t : τ) : Orderly (s.unblock t) := by
  unfold Listening.unblock
  split
  · exact orderly.outside rfl fun c fd _ other => by cases other
  · exact orderly

omit [DecidableEq κ] [DecidableEq τ] in
theorem Orderly.tcpAcceptWrapper (orderly : Orderly s) (listens : Bool) (err : ErrT) :
    Orderly (s.tcpAcceptWrapper listens err) := by
  unfold Listening.tcpAcceptWrapper
  cases listens with
  | false => exact orderly.frame rfl rfl rfl rfl rfl
  | true =>
    dsimp only
    rw [if_neg (by decide)]
    rcases accepted_cases (Listening.setConnection { s with arrived := s.arrived + 1 } s.arrived
      .fresh) s.arrived with ⟨list, _, _, taken⟩ | ⟨woken, error, refused, _⟩
    · rw [taken]
      exact orderly.frame rfl rfl rfl rfl rfl
    · rw [refused]
      dsimp only
      split
      · exact orderly.frame rfl rfl rfl rfl rfl
      · exact orderly.frame rfl rfl rfl rfl rfl

/-- Where the threads of a task change its table one after the other, it stays in order. -/
theorem Orderly.step (orderly : Orderly s) {op : ListenOp κ τ} (apart : Apart s op) :
    Orderly (s.step op) := by
  cases op with
  | listen t backlogSize =>
    unfold Listening.step
    dsimp only
    split
    · unfold Listening.listen
      split
      · exact orderly.return_ fun c none_ => by cases none_
      · split
        · exact orderly.return_ fun c none_ => by cases none_
        · have stored : Orderly { s with state := socketListening } :=
            orderly.frame rfl rfl rfl rfl rfl
          exact stored.outside rfl fun c fd _ other => by cases other
    · exact orderly
  | advance t => exact orderly.advance apart
  | protocolListen t ret =>
    unfold Listening.step Listening.protocolListen
    dsimp only
    split
    · split
      · exact orderly.return_ fun c none_ => by cases none_
      · exact orderly.outside rfl fun c fd _ other => by cases other
    · exact orderly
  | timeout t => exact orderly.unblock t
  | accept listens err =>
    unfold Listening.step
    dsimp only
    split
    · exact orderly.tcpAcceptWrapper listens err
    · exact orderly
  | unblock =>
    unfold Listening.step
    dsimp only
    split
    case h_1 t _ => exact (orderly.unblock t).frame rfl rfl rfl rfl rfl
    case h_2 => exact orderly
  | otherCall state blockedThread => exact orderly.frame rfl rfl rfl rfl rfl
  | closedByPeer c err => exact orderly.frame rfl rfl rfl rfl rfl
  | failed c => exact orderly.frame rfl rfl rfl rfl rfl
  | acquire t number =>
    unfold Listening.step
    dsimp only
    split
    case isTrue away => exact orderly.enter (apart away) trivial
    case isFalse => exact orderly
  | close t fd err =>
    unfold Listening.step
    dsimp only
    split
    case isTrue away =>
      unfold Listening.close
      cases known : (s.task (s.owner t)).getOwnedResourceByFileDescriptor fd with
      | none => exact orderly
      | some held => exact orderly.enter (apart away (known ▸ rfl)) trivial
    case isFalse => exact orderly

end Tables

omit [DecidableEq κ] [DecidableEq τ] in
theorem orderly_start (type : SockType) (owner : τ → κ) (task : κ → Task τ Nat) :
    Orderly (Listening.start type owner task) := by
  refine ⟨fun k fd c slot => ?_, fun t u p q here => ?_, fun t p here => ?_, fun t c fd claim => ?_⟩
  · obtain ⟨number, _, other⟩ := Option.map_eq_some_iff.mp slot
    cases other
  · cases here
  · cases here
  · rcases claim with record | there
    · cases record
    · cases there

/-- In each run in which the threads of a task change its table one after the other, the
connections are accounted for and named by their descriptors in every state exactly when each
step fits. -/
theorem connections_accounted_iff (type : SockType) (owner : τ → κ) (task : κ → Task τ Nat)
    (ops : List (ListenOp κ τ))
    (apart : Admissible Listening.step Apart (Listening.start type owner task) ops) :
    Throughout Listening.step (fun s => Accounted s ∧ Named s)
        (Listening.start type owner task) ops ↔
      Admissible Listening.step Fits (Listening.start type owner task) ops := by
  obtain ⟨sound, accounted⟩ := sound_start type owner task
  refine throughout_iff_of_admissible (fun s => (Sound s ∧ Accounted s) ∧ Orderly s)
    (fun s inv => ⟨inv.1.2, inv.2.named⟩) (fun s op inv apart => ?_)
    (fun s op inv apart after => ?_)
    ops _ ⟨⟨sound, accounted⟩, orderly_start type owner task⟩ apart
  · exact (step_kept inv.1.1 inv.1.2 op).2.trans
      ⟨fun after => ⟨after, (inv.2.step apart).named⟩, And.left⟩
  · exact ⟨⟨(step_kept inv.1.1 inv.1.2 op).1, after.1⟩, inv.2.step apart⟩

instance [Fintype τ] (s : Listening κ τ) (k : κ) : Decidable (Unused s k) :=
  inferInstanceAs (Decidable (∀ u, s.owner u = k → isTable (s.place u) = false))

instance [Fintype τ] (s : Listening κ τ) : DecidablePred (Apart s)
  | .advance t => by
    unfold Apart
    dsimp only
    split <;> infer_instance
  | .acquire _ _ | .close _ _ _ => inferInstanceAs (Decidable (_ → _))
  | .listen _ _ | .protocolListen _ _ | .timeout _ | .accept _ _ | .unblock | .otherCall _ _
  | .closedByPeer _ _ | .failed _ => .isTrue trivial

instance (s : Listening κ τ) (t : τ) : DecidablePred (Finds s t)
  | .searching (.socket _) _ => inferInstanceAs (Decidable (_ → _))
  | .searching (.other _) _ | .taking _ _ _ | .storing _ _ | .scanning _ _ _ | .emptying _ _ _
  | .freeing _ _ _ | .giving _ _ _ _ => .isTrue trivial

instance (s : Listening κ τ) : DecidablePred (Fits s)
  | .advance t => by
    unfold Fits
    dsimp only
    split <;> infer_instance
  | .acquire _ _ | .close _ _ _ | .listen _ _ | .protocolListen _ _ | .timeout _ | .accept _ _
  | .unblock | .otherCall _ _ | .closedByPeer _ _ | .failed _ => .isTrue trivial

/-- Two threads of a task: one opens a file; the other listens and returns a connection, the first
one closes that, and another connection waits. -/
def openListenClose : List (ListenOp Unit Bool) :=
  .acquire true 7 :: List.replicate 3 (.advance true) ++ .listen false 10 ::
    List.replicate 4 (.advance false) ++ .protocolListen false cOk :: .advance false ::
      .accept true errOk :: .unblock :: List.replicate 7 (.advance false) ++
        .accept true errOk :: .close true 1 errOk :: List.replicate 6 (.advance true)

theorem connections_accounted_iff_closed :
    Throughout Listening.step (fun s => Accounted s ∧ Named s)
      (Listening.start .stream (fun _ => ()) fun _ => .fresh 0 [false, true]) openListenClose :=
  (connections_accounted_iff .stream _ _ openListenClose (by decide +kernel)).mpr
    (by decide +kernel)

/-- The task has 64 resources; its thread listens, and a connection arrives. -/
def fullTask : Listening Unit Unit :=
  exec Listening.step
    (Listening.start .stream id fun _ => ⟨fun _ => some 0, 64, ⟨64, [0, 0]⟩, [()]⟩)
    ([.listen () 10, .advance (), .advance (), .advance (), .advance (), .protocolListen () cOk,
      .advance (), .accept true errOk] ++ List.replicate 7 (.advance ()))

/-- The connection is open, and neither queued nor returned. -/
theorem connection_dropped : ¬Accounted fullTask := by
  intro accounted
  have facts : fullTask.arrived = 1 ∧ (fullTask.connection 0).isOpen = true ∧
      queued fullTask = [] ∧ inHand (fullTask.place ()) = none ∧ descriptors fullTask = [] := by
    decide +kernel
  generalize fullTask = s at accounted facts
  obtain ⟨arrived, still, queue, hand, returned⟩ := facts
  obtain ⟨k, keeps⟩ := accounted.kept 0 (by rw [arrived]; decide) still
  cases k with
  | queue =>
    rw [Keeps, queue] at keeps
    cases keeps
  | listen t =>
    rw [Keeps, hand] at keeps
    cases keeps
  | descriptor =>
    rw [Keeps, returned] at keeps
    cases keeps

end Steps

end Orcos.Guarantees.AcceptedConnections
