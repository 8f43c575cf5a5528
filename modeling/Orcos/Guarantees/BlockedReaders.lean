import Orcos.Lib.Runs
import Orcos.Source.Hal.BufferDevice

/-!
# Bytes through a buffer device

Source: src/source/hal/BufferDevice.cc, `readBytes`, `writeBytes`;
src/source/filesystem/Resource.cc, `acquire`.

A write that finds too little room is cut short and reports success, a sum of lengths that
wraps passes the test for room, and every successful `acquire` moves the write cursor away
from the end of the buffered bytes.
-/
namespace Orcos.Guarantees.BufferedStreams
open Source Source.Hal Lib.Ring Lib.Runs

variable {τ : Type}

/-- The device is a bounded queue: what was read is the beginning of what was accepted, the
rest is what is buffered; successful writes were accepted as a whole; and no access was
outside. -/
structure Faithful (s : Stream τ) : Prop where
  inOrder : s.obtained <+: s.accepted
  counted : s.accepted.length = s.obtained.length + s.device.usedBytes.toNat
  bounded : s.device.usedBytes.toNat ≤ s.device.buffersize.toNat
  whole : s.given = s.accepted
  inside : ∀ access ∈ s.accesses, access.Inside s.device.buffersize

/-- A write is empty; or it finds the buffer full, and the sum of the lengths does not wrap;
or it finds room, and the write cursor is where the buffered bytes end. -/
def Fits (s : Stream τ) : Call τ → Prop
  | .writeBytes _ length =>
    length = 0 ∨
      s.device.usedBytes = s.device.buffersize ∧
        length.toNat + s.device.usedBytes.toNat < 2 ^ 32 ∨
      length.toNat + s.device.usedBytes.toNat ≤ s.device.buffersize.toNat ∧ s.device.Aligned
  | _ => True

/-- The queue that a device in use stands for. -/
structure Tracked (d : BufferDevice τ) (accepted given obtained : List Byte)
    (accesses : List Access) (queue : List Byte) : Prop where
  holds : d.Holds queue
  whole : obtained ++ queue = accepted
  complete : given = accepted
  inside : ∀ access ∈ accesses, access.Inside d.buffersize

def Tracks (s : Stream τ) : Prop :=
  ∃ queue, Tracked s.device s.accepted s.given s.obtained s.accesses queue

variable {s s' : Stream τ} {thread : τ} {length : BitVec 32}

theorem Tracks.faithful (tracks : Tracks s) : Faithful s := by
  obtain ⟨queue, tracked⟩ := tracks
  refine ⟨⟨queue, tracked.whole⟩, ?_, tracked.holds.fits, tracked.complete, tracked.inside⟩
  rw [← tracked.whole, List.length_append, tracked.holds.usedBytes_eq]

theorem Tracked.setBlockedThread {d : BufferDevice τ} {accepted given obtained queue : List Byte}
    {accesses : List Access} (tracked : Tracked d accepted given obtained accesses queue)
    (thread : Option τ) :
    Tracked (d.setBlockedThread thread) accepted given obtained accesses queue := by
  have holds := tracked.holds
  exact ⟨⟨holds.size, holds.start, holds.cursor, holds.fits, holds.contents⟩, tracked.whole,
    tracked.complete, tracked.inside⟩

/-- Setting the write cursor back leaves the buffered bytes alone. -/
theorem Tracks.acquire {retval : ErrorT} (tracks : Tracks s) : Tracks (s.acquire retval) := by
  obtain ⟨queue, tracked⟩ := tracks
  have holds := tracked.holds
  have start := holds.start
  unfold Stream.acquire
  split
  · exact ⟨queue, tracked⟩
  · exact ⟨queue, ⟨holds.size, start, Nat.zero_lt_of_lt start, holds.fits, holds.contents⟩,
      tracked.whole, tracked.complete, tracked.inside⟩

theorem Tracks.readFilled (tracks : Tracks s) : Tracks (s.readFilled length).1 := by
  obtain ⟨queue, tracked⟩ := tracks
  have holds := tracked.holds
  unfold Stream.readFilled
  split
  · exact ⟨queue, tracked⟩
  · have part : (s.device.readLength length).toNat ≤ s.device.usedBytes.toNat :=
      BufferDevice.readLength_le
    have fits := holds.fits
    have small : s.device.Small s.device.readPointer (s.device.readLength length) :=
      ⟨holds.size, holds.start, by omega⟩
    refine ⟨queue.drop (s.device.readLength length).toNat, holds.take part, ?_,
      tracked.complete, ?_⟩
    · dsimp only
      rw [holds.copied part, List.append_assoc, List.take_append_drop, tracked.whole]
    · intro access member
      rcases List.mem_append.mp member with old | new
      · exact tracked.inside access old
      · exact small.pieces_inside access new

variable [DecidableEq τ]

theorem Tracks.unblock (tracks : Tracks s) (thread : τ) : Tracks (s.unblock thread) := by
  unfold Stream.unblock
  split
  · exact tracks
  · exact tracks

theorem Tracks.wake (tracks : Tracks s) : Tracks s.wake := by
  unfold Stream.wake
  split
  · obtain ⟨queue, tracked⟩ := tracks
    exact Tracks.unblock ⟨queue, tracked.setBlockedThread none⟩ _
  · exact tracks

theorem Tracks.writeBytes {bytes : Nat → Byte} (tracks : Tracks s)
    (fits : Fits s (.writeBytes bytes length)) : Tracks (s.writeBytes bytes length).1 := by
  obtain ⟨queue, tracked⟩ := tracks
  have holds := tracked.holds
  unfold Stream.writeBytes
  dsimp only
  split
  · exact ⟨queue, tracked⟩
  · next stores =>
    apply Tracks.wake
    rcases fits with empty | ⟨full, plain⟩ | ⟨room, aligned⟩
    · subst empty
      refine absurd (holds.writeLength_fits ?_) stores
      rw [BufferDevice.toNat_none, Nat.zero_add]
      exact holds.fits
    · exact absurd (holds.writeLength_full full plain) stores
    · rw [holds.writeLength_fits room]
      have small : s.device.Small s.device.position length :=
        ⟨holds.size, holds.cursor, by omega⟩
      refine ⟨queue ++ Stream.bytesFrom bytes length,
        holds.put bytes aligned (by omega), ?_, ?_, ?_⟩
      · dsimp only
        rw [← List.append_assoc, tracked.whole]
      · dsimp only
        rw [tracked.complete]
      · intro access member
        rcases List.mem_append.mp member with old | new
        · exact tracked.inside access old
        · exact small.pieces_inside access new

theorem Tracks.readBytes (tracks : Tracks s) : Tracks (s.readBytes thread length) := by
  unfold Stream.readBytes
  split
  · obtain ⟨queue, tracked⟩ := tracks
    exact ⟨queue, tracked.setBlockedThread (some thread)⟩
  · exact tracks.readFilled

theorem Tracks.resume (tracks : Tracks s) : Tracks (s.resume thread) := by
  unfold Stream.resume
  split
  · exact tracks.readFilled
  · exact tracks

theorem Tracks.step {call : Call τ} (tracks : Tracks s) (fits : Fits s call) :
    Tracks (s.step call) := by
  cases call with
  | writeBytes bytes length => exact tracks.writeBytes fits
  | readBytes thread length =>
    unfold Stream.step
    dsimp only
    split
    · exact tracks.readBytes
    · exact tracks
  | resume thread => exact tracks.resume
  | acquire retval => exact tracks.acquire
  | release => exact tracks

/-- Every run of a device in which each write fits is a bounded queue. -/
theorem bytes_delivered (cells : Nat → Byte) (bufferSize : BitVec 32) (positive : bufferSize ≠ 0)
    (calls : List (Call τ)) (fits : Admissible Stream.step Fits (.fresh cells bufferSize) calls) :
    Faithful (exec Stream.step (.fresh cells bufferSize) calls) := by
  have started : Tracks (Stream.fresh cells bufferSize : Stream τ) :=
    ⟨[], BufferDevice.holds_fresh cells positive, rfl, rfl, nofun⟩
  have tracks : Tracks (exec Stream.step (Stream.fresh cells bufferSize : Stream τ) calls) :=
    exec_invariant Tracks (fun _ _ tracks fits => tracks.step fits) calls _ started fits
  exact tracks.faithful

/-- The bytes at an address of the writer. -/
def letters (i : Nat) : Byte := BitVec.ofNat 8 (i + 97)

/-- A reader waits for bytes, and the second write wraps. -/
theorem bytes_delivered_wrapped :
    Faithful (exec Stream.step (Stream.fresh (fun _ => 0) 4)
      [.acquire 0, .readBytes () 3, .writeBytes letters 3, .resume (), .writeBytes letters 4,
        .readBytes () 4]) :=
  bytes_delivered _ 4 (by decide) _
    ⟨trivial, trivial, .inr (.inr (by decide)), trivial, .inr (.inr (by decide)), trivial, trivial⟩

/-- Of five bytes for a buffer of four cells one is lost; after an `acquire` behind two bytes
a reader gets two bytes of the next write and a cell nobody wrote; and a length whose sum
with the used bytes wraps is stored beside the buffer. -/
theorem bytes_lost :
    ¬Faithful (exec Stream.step (Stream.fresh (fun _ => 0) 4 : Stream Unit)
        [.writeBytes letters 5]) ∧
      ¬Faithful (exec Stream.step (Stream.fresh (fun _ => 0) 4 : Stream Unit)
        [.writeBytes letters 2, .acquire 0, .writeBytes letters 1, .readBytes () 3]) ∧
      ¬Faithful (exec Stream.step (Stream.fresh (fun _ => 0) 4 : Stream Unit)
        [.writeBytes letters 1, .writeBytes letters (-1)]) := by
  refine ⟨fun faithful => ?_, fun faithful => ?_, fun faithful => ?_⟩
  · exact absurd faithful.whole (by decide)
  · exact absurd faithful.inOrder (by decide)
  · exact absurd (faithful.inside (1, -1) (by decide)) (by decide)

end Orcos.Guarantees.BufferedStreams

/-! ## Readers that wait at a buffer device

Source: src/source/hal/BufferDevice.cc, `readBytes`, `writeBytes`;
src/source/process/Thread.cc, `block`, `unblock`.

A reader tests the buffer, enters itself in `blockedThread` and blocks in separate steps, and
there is room for one reader. A writer looks into `blockedThread` once, and `unblock` has no
effect on a thread whose flag is not set yet. When it comes between the flag and the dispatcher,
it clears the flag, and the thread sleeps where no later `unblock` finds it blocked.
-/
namespace Orcos.Guarantees.BlockedReaders
open Source Source.Hal Lib.Runs

variable {τ : Type}

/-- On the list of the dispatcher. -/
def Asleep : Place τ → Prop
  | .asleep _ => True
  | .stranded _ => True
  | _ => False

/-- The flag is set. -/
def Flagged : Place τ → Prop
  | .flagged _ => True
  | .asleep _ => True
  | _ => False

/-- On the list of the dispatcher without the flag, or about to be. -/
def Unflagged : Place τ → Prop
  | .unflagged _ => True
  | .stranded _ => True
  | _ => False

/-- In `writeBytes`. -/
def Active : Place τ → Prop
  | .writing _ _ => True
  | .stored _ => True
  | .adding _ => True
  | .added => True
  | .clearing _ => True
  | .waking _ => True
  | .unblocking _ => True
  | _ => False

/-- In `writeBytes`, before the look into `blockedThread`. -/
def Looks : Place τ → Prop
  | .writing _ _ => True
  | .stored _ => True
  | .adding _ => True
  | .added => True
  | _ => False

/-- In `writeBytes`, about to unblock a thread. -/
def Wakes (thread : τ) : Place τ → Prop
  | .clearing blocked => blocked = thread
  | .waking blocked => blocked = thread
  | .unblocking blocked => blocked = thread
  | _ => False

/-- Some writer is about to unblock a thread. -/
def Due (s : Users τ) (thread : τ) : Prop := ∃ writer, Wakes thread (s.place writer)

/-- Some writer is going to look into `blockedThread`. -/
def Watched (s : Users τ) : Prop := ∃ writer, Looks (s.place writer)

/-- No reader sleeps while bytes are buffered and no writer is active, and each sleeping
reader is entered or about to be unblocked; and that helps one whose flag is not set only behind
the test for it. -/
structure Served (s : Users τ) : Prop where
  woken : ∀ thread, Asleep (s.place thread) → s.device.usedBytes ≠ 0 →
    ∃ writer, Active (s.place writer)
  remembered : ∀ thread, Asleep (s.place thread) →
    s.device.blockedThread = some thread ∨ Due s thread
  stranded : ∀ thread length, s.place thread = .stranded length →
    ∃ writer, s.place writer = .unblocking thread

/-- A reader whose flag is set is overwritten or cleared in `blockedThread` only by the writer that
unblocks it, or when another one is about to; a reader sets its flag only while it is entered or
about to be unblocked, and if there are bytes, then before a writer's look; no writer clears a
flag before the dispatcher has got the reader; and a reader does not store a number of bytes
after another one has emptied the buffer. -/
def Timely (s : Users τ) : Step τ → Prop
  | .next thread =>
    match s.place thread with
    | .tested _ => ∀ other, s.device.blockedThread = some other → Flagged (s.place other) →
        Due s other
    | .entered _ => Due s thread ∨
        s.device.blockedThread = some thread ∧ (s.device.usedBytes ≠ 0 → Watched s)
    | .taking usedBytes => s.device.usedBytes = 0 → usedBytes = 0
    | .clearing blocked => ∀ other, s.device.blockedThread = some other → other ≠ blocked →
        Flagged (s.place other) → Due s other
    | .unblocking blocked => ∀ length, s.place blocked ≠ .flagged length
    | _ => True
  | _ => True

/-- A reader whose flag is set is about to be unblocked; or it is entered, and when there are bytes
some writer is going to see that. No reader sleeps without its flag. -/
structure Sound (s : Users τ) : Prop where
  seen : ∀ thread, Flagged (s.place thread) → Due s thread ∨
    s.device.blockedThread = some thread ∧ (s.device.usedBytes ≠ 0 → Watched s)
  flagged : ∀ thread, ¬Unflagged (s.place thread)

variable {s s' : Users τ} {thread : τ} {place : Place τ}

theorem Wakes.active (wakes : Wakes thread place) : Active place := by
  cases place with
  | clearing => trivial
  | waking => trivial
  | unblocking => trivial
  | _ => exact wakes.elim

theorem Looks.active (looks : Looks place) : Active place := by
  cases place with
  | writing => trivial
  | stored => trivial
  | adding => trivial
  | added => trivial
  | _ => exact looks.elim

/-- A sleeping reader has its flag set. -/
theorem Sound.asleep (sound : Sound s) (asleep : Asleep (s.place thread)) :
    Flagged (s.place thread) := by
  have flagged := sound.flagged thread
  cases here : s.place thread with
  | asleep length => trivial
  | stranded length =>
    rw [here] at flagged
    exact absurd trivial flagged
  | _ =>
    rw [here] at asleep
    exact asleep.elim

theorem Sound.served (sound : Sound s) : Served s := by
  constructor
  · intro thread asleep bytes
    rcases sound.seen thread (sound.asleep asleep) with ⟨writer, wakes⟩ | ⟨_, watched⟩
    · exact ⟨writer, wakes.active⟩
    · obtain ⟨writer, looks⟩ := watched bytes
      exact ⟨writer, looks.active⟩
  · exact fun thread asleep => (sound.seen thread (sound.asleep asleep)).symm.imp_left And.left
  · intro thread length here
    have flagged := sound.flagged thread
    rw [here] at flagged
    exact absurd trivial flagged

variable [DecidableEq τ]

theorem Due.update {writer : τ} (due : Due s thread)
    (places : s'.place = Function.update s.place writer place)
    (here : Wakes thread (s.place writer) → Wakes thread place) : Due s' thread := by
  obtain ⟨other, wakes⟩ := due
  refine ⟨other, ?_⟩
  rw [places]
  by_cases same : other = writer
  · subst same
    rw [Function.update_self]
    exact here wakes
  · rw [Function.update_of_ne same]
    exact wakes

theorem Watched.update {writer : τ} (watched : Watched s)
    (places : s'.place = Function.update s.place writer place)
    (here : Looks (s.place writer) → Looks place) : Watched s' := by
  obtain ⟨other, looks⟩ := watched
  refine ⟨other, ?_⟩
  rw [places]
  by_cases same : other = writer
  · subst same
    rw [Function.update_self]
    exact here looks
  · rw [Function.update_of_ne same]
    exact looks

/-- What a step of one thread has to keep for the others, and for itself when its flag is set. -/
theorem Sound.move (sound : Sound s) (places : s'.place = Function.update s.place thread place)
    (kept : ¬Unflagged place)
    (own : Flagged place → Due s' thread ∨
      s'.device.blockedThread = some thread ∧ (s'.device.usedBytes ≠ 0 → Watched s'))
    (due : ∀ other, other ≠ thread → Flagged (s.place other) → Wakes other (s.place thread) →
      Wakes other place)
    (entered : ∀ other, other ≠ thread → Flagged (s.place other) →
      s.device.blockedThread = some other → (s.device.usedBytes ≠ 0 → Watched s) →
      Due s' other ∨ s'.device.blockedThread = some other ∧
        (s'.device.usedBytes ≠ 0 → Watched s')) : Sound s' := by
  refine ⟨fun other flagged => ?_, fun other => ?_⟩
  · by_cases same : other = thread
    · subst same
      rw [places, Function.update_self] at flagged
      exact own flagged
    · rw [places, Function.update_of_ne same] at flagged
      rcases sound.seen other flagged with soon | ⟨inside, watched⟩
      · exact .inl (soon.update places (due other same flagged))
      · exact entered other same flagged inside watched
  · by_cases same : other = thread
    · subst same
      rwa [places, Function.update_self]
    · rw [places, Function.update_of_ne same]
      exact sound.flagged other

/-- A step that leaves the device's numbers alone, by a thread whose flag is not set
afterwards and that gives up neither a look nor a wake-up. -/
theorem Sound.goOn (sound : Sound s) (places : s'.place = Function.update s.place thread place)
    (blocked : s'.device.blockedThread = s.device.blockedThread)
    (bytes : s'.device.usedBytes ≠ 0 → s.device.usedBytes ≠ 0) (awake : ¬Flagged place)
    (kept : ¬Unflagged place) (wakes : ∀ other, ¬Wakes other (s.place thread))
    (looks : Looks (s.place thread) → Looks place) : Sound s' := by
  apply sound.move places kept
  · exact fun flagged => absurd flagged awake
  · exact fun other _ _ wakes' => absurd wakes' (wakes other)
  · intro other _ _ inside watched
    rw [blocked]
    exact .inr ⟨inside, fun some_ => (watched (bytes some_)).update places looks⟩

theorem Sound.readBytes {length : BitVec 32} (sound : Sound s) (away : s.place thread = .away) :
    Sound (s.readBytes thread length) := by
  unfold Users.readBytes
  split
  · exact sound.goOn rfl rfl id nofun nofun (by rw [away]; nofun) (by rw [away]; nofun)
  · exact sound.goOn rfl rfl id nofun nofun (by rw [away]; nofun) (by rw [away]; nofun)

theorem Sound.writeBytes {bytes : Nat → Byte} {length : BitVec 32} (sound : Sound s)
    (away : s.place thread = .away) : Sound (s.writeBytes thread bytes length) := by
  unfold Users.writeBytes
  split
  · exact sound
  · exact sound.goOn rfl rfl id nofun nofun (by rw [away]; nofun) (by rw [away]; nofun)

/-- Entering a reader: nobody relies on the one that was entered before. -/
theorem Sound.tested {length : BitVec 32} (sound : Sound s)
    (here : s.place thread = .tested length)
    (free : ∀ other, s.device.blockedThread = some other → Flagged (s.place other) → Due s other) :
    Sound (s.next thread) := by
  rw [Users.next_tested here]
  apply sound.move rfl
  · exact not_false
  · exact nofun
  · intro other _ _ wakes
    rw [here] at wakes
    exact wakes.elim
  · intro other _ flagged inside _
    refine .inl ((free other inside flagged).update rfl ?_)
    rw [here]
    exact nofun

/-- A reader that sets its flag, or comes to the dispatcher with it. -/
theorem Sound.block (sound : Sound s) (kept : ¬Unflagged place)
    (idle : ∀ other, ¬Wakes other (s.place thread)) (blind : ¬Looks (s.place thread))
    (timely : Due s thread ∨
      s.device.blockedThread = some thread ∧ (s.device.usedBytes ≠ 0 → Watched s)) :
    Sound (s.setPlace thread place) := by
  have due : ∀ other, Due s other → Due (s.setPlace thread place) other :=
    fun other soon => soon.update rfl fun wakes => absurd wakes (idle other)
  have watched : Watched s → Watched (s.setPlace thread place) :=
    fun watched => watched.update rfl fun looks => absurd looks blind
  apply sound.move rfl kept
  · exact fun _ => timely.imp (due thread) fun both => ⟨both.1, fun some_ => watched (both.2 some_)⟩
  · exact fun other _ _ wakes => absurd wakes (idle other)
  · exact fun other _ _ inside seen => .inr ⟨inside, fun some_ => watched (seen some_)⟩

theorem Sound.entered {length : BitVec 32} (sound : Sound s)
    (here : s.place thread = .entered length)
    (timely : Due s thread ∨
      s.device.blockedThread = some thread ∧ (s.device.usedBytes ≠ 0 → Watched s)) :
    Sound (s.next thread) := by
  rw [Users.next_entered here]
  refine sound.block not_false ?_ ?_ timely
  · rw [here]
    exact fun other => nofun
  · rw [here]
    exact nofun

theorem Sound.flaggedNext {length : BitVec 32} (sound : Sound s)
    (here : s.place thread = .flagged length) : Sound (s.next thread) := by
  rw [Users.next_flagged here]
  have flagged : Flagged (s.place thread) := by
    rw [here]
    trivial
  refine sound.block not_false ?_ ?_ (sound.seen thread flagged)
  · rw [here]
    exact fun other => nofun
  · rw [here]
    exact nofun

/-- A writer has stored the new number of bytes, and is still going to look. -/
theorem Sound.adding {usedBytes : BitVec 32} (sound : Sound s)
    (here : s.place thread = .adding usedBytes) : Sound (s.next thread) := by
  rw [Users.next_adding here]
  apply sound.move rfl
  · exact not_false
  · exact nofun
  · intro other _ _ wakes
    rw [here] at wakes
    exact wakes.elim
  · intro other _ _ inside _
    refine .inr ⟨inside, fun _ => ⟨thread, ?_⟩⟩
    rw [Users.setPlace_place]
    trivial

/-- The look of a writer. -/
theorem Sound.added (sound : Sound s) (here : s.place thread = .added) : Sound (s.next thread) := by
  have nobody : ∀ other, ¬Wakes other (s.place thread) := by
    rw [here]
    exact fun other => nofun
  cases known : s.device.blockedThread with
  | none =>
    rw [Users.next_added_none here known]
    apply sound.move rfl
    · exact not_false
    · exact nofun
    · exact fun other _ _ wakes => absurd wakes (nobody other)
    · intro other _ _ inside
      rw [known] at inside
      cases inside
  | some blocked =>
    rw [Users.next_added_some here known]
    apply sound.move rfl
    · exact not_false
    · exact nofun
    · exact fun other _ _ wakes => absurd wakes (nobody other)
    · intro other _ _ inside _
      rw [known] at inside
      refine .inl ⟨thread, ?_⟩
      rw [Users.setPlace_place]
      exact Option.some.inj inside

theorem Sound.clearing {blocked : τ} (sound : Sound s) (here : s.place thread = .clearing blocked)
    (timely : ∀ other, s.device.blockedThread = some other → other ≠ blocked →
      Flagged (s.place other) → Due s other) : Sound (s.next thread) := by
  rw [Users.next_clearing here]
  apply sound.move rfl
  · exact not_false
  · exact nofun
  · intro other _ _ wakes
    rw [here] at wakes
    exact wakes
  · intro other _ flagged inside _
    left
    by_cases own : other = blocked
    · refine ⟨thread, ?_⟩
      rw [Users.setPlace_place]
      exact own.symm
    · refine (timely other inside own flagged).update rfl ?_
      rw [here]
      exact id

/-- A writer that has done with a thread whose flag is not set. -/
theorem Sound.leave (sound : Sound s) (blocked : τ)
    (here : ∀ other, Wakes other (s.place thread) → other = blocked)
    (blind : ¬Looks (s.place thread)) (awake : ¬Flagged (s.place blocked)) :
    Sound (s.setPlace thread .away) := by
  apply sound.move rfl
  · exact not_false
  · exact nofun
  · intro other _ flagged wakes
    rw [here other wakes] at flagged
    exact absurd flagged awake
  · intro other _ _ inside watched
    exact .inr ⟨inside, fun some_ => (watched some_).update rfl fun looks => absurd looks blind⟩

omit [DecidableEq τ] in
theorem isBlocked_iff : place.isBlocked = true ↔ Flagged place := by
  cases place <;> simp [Place.isBlocked, Flagged]

theorem Sound.waking {blocked : τ} (sound : Sound s) (here : s.place thread = .waking blocked) :
    Sound (s.next thread) := by
  have wakes : ∀ other, Wakes other (s.place thread) → blocked = other := by
    rw [here]
    exact fun other => id
  have blind : ¬Looks (s.place thread) := by
    rw [here]
    exact nofun
  by_cases flag : (s.place blocked).isBlocked = true
  · rw [Users.next_waking_blocked here flag]
    apply sound.move rfl
    · exact not_false
    · exact nofun
    · exact fun other _ _ wakes' => wakes other wakes'
    · intro other _ _ inside watched
      exact .inr ⟨inside, fun some_ => (watched some_).update rfl fun looks => absurd looks blind⟩
  · rw [Users.next_waking_unblocked here flag]
    exact sound.leave blocked (fun other wakes' => (wakes other wakes').symm) blind
      (isBlocked_iff.not.mp flag)

/-- The flag of a reader is cleared on the list of the dispatcher. -/
theorem unflag_cases {blocked : τ} (sound : Sound s)
    (listed : ∀ length, s.place blocked ≠ .flagged length) :
    (∃ length, s.place blocked = .asleep length ∧
      s.unflag blocked = s.setPlace blocked (.awake length)) ∨
    ¬Flagged (s.place blocked) ∧ s.unflag blocked = s := by
  have flagged := sound.flagged blocked
  unfold Users.unflag
  cases here : s.place blocked with
  | flagged length => exact absurd here (listed length)
  | stranded length =>
    rw [here] at flagged
    exact absurd trivial flagged
  | asleep length => exact .inl ⟨length, rfl, rfl⟩
  | _ => exact .inr ⟨id, rfl⟩

theorem Sound.unblocking {blocked : τ} (sound : Sound s)
    (here : s.place thread = .unblocking blocked)
    (listed : ∀ length, s.place blocked ≠ .flagged length) : Sound (s.next thread) := by
  rw [Users.next_unblocking here]
  have wakes : ∀ other, Wakes other (s.place thread) → other = blocked := by
    rw [here]
    exact fun other => Eq.symm
  have blind : ¬Looks (s.place thread) := by
    rw [here]
    exact nofun
  rcases unflag_cases sound listed with ⟨length, asleep, same⟩ | ⟨awake, same⟩
  · rw [same]
    have other : thread ≠ blocked := by
      rintro rfl
      rw [here] at asleep
      cases asleep
    have stays : (s.setPlace blocked (.awake length)).place thread = s.place thread :=
      Function.update_of_ne other _ _
    have woken : Sound (s.setPlace blocked (.awake length)) :=
      sound.goOn rfl rfl id nofun nofun (by rw [asleep]; nofun) (by rw [asleep]; nofun)
    refine woken.leave blocked ?_ ?_ ?_
    · rw [stays]
      exact wakes
    · rw [stays]
      exact blind
    · rw [Users.setPlace_place]
      exact nofun
  · rw [same]
    exact sound.leave blocked wakes blind awake

theorem Sound.next (sound : Sound s) (timely : Timely s (.next thread)) :
    Sound (s.next thread) := by
  unfold Timely at timely
  dsimp only at timely
  cases here : s.place thread with
  | away =>
    rw [Users.next, here]
    exact sound
  | asleep length =>
    rw [Users.next, here]
    exact sound
  | stranded length =>
    rw [Users.next, here]
    exact sound
  | unflagged length =>
    have flagged := sound.flagged thread
    rw [here] at flagged
    exact absurd trivial flagged
  | flagged length => exact sound.flaggedNext here
  | tested length =>
    rw [here] at timely
    exact sound.tested here timely
  | entered length =>
    rw [here] at timely
    exact sound.entered here timely
  | awake length =>
    by_cases empty : s.device.usedBytes = 0
    · rw [Users.next_awake_empty here empty]
      exact sound.goOn rfl rfl id id id (by rw [here]; exact fun _ => id)
        (by rw [here]; exact False.elim)
    · rw [Users.next_awake_filled here empty]
      exact sound.goOn rfl rfl id id id (by rw [here]; exact fun _ => id)
        (by rw [here]; exact False.elim)
  | filled length =>
    rw [Users.next_filled here]
    exact sound.goOn rfl rfl id id id (by rw [here]; exact fun _ => id)
      (by rw [here]; exact False.elim)
  | copied length =>
    rw [Users.next_copied here]
    exact sound.goOn rfl rfl id id id (by rw [here]; exact fun _ => id)
      (by rw [here]; exact False.elim)
  | taking usedBytes =>
    rw [here] at timely
    rw [Users.next_taking here]
    exact sound.goOn rfl rfl (fun some_ empty => some_ (timely empty)) id id
      (by rw [here]; exact fun _ => id) (by rw [here]; exact False.elim)
  | writing bytes writeBytes =>
    rw [Users.next_writing here]
    exact sound.goOn rfl rfl id id id (by rw [here]; exact fun _ => id) fun _ => trivial
  | stored writeBytes =>
    rw [Users.next_stored here]
    exact sound.goOn rfl rfl id id id (by rw [here]; exact fun _ => id) fun _ => trivial
  | adding usedBytes => exact sound.adding here
  | added => exact sound.added here
  | clearing blocked =>
    rw [here] at timely
    exact sound.clearing here timely
  | waking blocked => exact sound.waking here
  | unblocking blocked =>
    rw [here] at timely
    exact sound.unblocking here timely

theorem Sound.step {op : Step τ} (sound : Sound s) (timely : Timely s op) :
    Sound (s.step op) := by
  cases op with
  | readBytes thread length =>
    unfold Users.step
    dsimp only
    split
    · next away => exact sound.readBytes away
    · exact sound
  | writeBytes thread bytes length =>
    unfold Users.step
    dsimp only
    split
    · next away => exact sound.writeBytes away
    · exact sound
  | next thread => exact sound.next timely

/-- Of a new device, every run whose steps are timely leaves no reader asleep for nothing and
forgets none. -/
theorem readers_served (cells : Nat → Byte) (bufferSize : BitVec 32) (steps : List (Step τ))
    (timely : Admissible Users.step Timely (.fresh cells bufferSize) steps) :
    Served (exec Users.step (.fresh cells bufferSize) steps) := by
  have started : Sound (Users.fresh cells bufferSize : Users τ) :=
    ⟨fun _ flagged => flagged.elim, fun _ => id⟩
  have sound : Sound (exec Users.step (Users.fresh cells bufferSize : Users τ) steps) :=
    exec_invariant Sound (fun _ _ sound timely => sound.step timely) steps _ started timely
  exact sound.served

/-- A reader that blocks, and a writer. -/
def turn (reader writer : Bool) : List (Step Bool) :=
  .readBytes reader 8 :: List.replicate 3 (.next reader) ++
    .writeBytes writer (fun _ => 7) 1 :: List.replicate 7 (.next writer)

theorem readers_served_one :
    Served (exec Users.step (Users.fresh (fun _ => 0) 4) (turn false true)) :=
  readers_served _ 4 _
    ⟨trivial, nofun, .inr ⟨rfl, fun some_ => absurd rfl some_⟩, trivial, trivial, trivial, trivial,
      trivial, trivial, fun _ inside own => absurd (Option.some.inj inside).symm own, trivial,
      fun _ => nofun, trivial⟩

/-- A write between the entry of a reader and its blocking. -/
def lateBlock : List (Step (Fin 3)) :=
  .readBytes 0 8 :: .next 0 :: .writeBytes 2 (fun _ => 7) 1 :: List.replicate 6 (.next 2) ++
    List.replicate 2 (.next 0)

/-- A write between the flag of a reader and the dispatcher. -/
def lateDispatch : List (Step (Fin 3)) :=
  .readBytes 0 8 :: List.replicate 2 (.next 0) ++ .writeBytes 2 (fun _ => 7) 1 ::
    List.replicate 7 (.next 2) ++ [.next 0]

/-- Two readers block one after the other. -/
def twoReaders : List (Step (Fin 3)) :=
  .readBytes 0 8 :: List.replicate 3 (.next 0) ++ .readBytes 1 8 :: List.replicate 3 (.next 1)

/-- The reader sleeps beside a buffered byte; and of two readers the first one is forgotten. -/
theorem readers_lost :
    ¬Served (exec Users.step (Users.fresh (fun _ => 0) 4) lateBlock) ∧
      ¬Served (exec Users.step (Users.fresh (fun _ => 0) 4) lateDispatch) ∧
      ¬Served (exec Users.step (Users.fresh (fun _ => 0) 4) twoReaders) := by
  refine ⟨fun served => ?_, fun served => ?_, fun served => ?_⟩
  · obtain ⟨writer, active⟩ := served.woken 0 trivial (by decide)
    match writer, active with
    | 0, active => exact active
    | 1, active => exact active
    | 2, active => exact active
  · obtain ⟨writer, active⟩ := served.woken 0 trivial (by decide)
    match writer, active with
    | 0, active => exact active
    | 1, active => exact active
    | 2, active => exact active
  · rcases served.remembered 0 trivial with entered | ⟨writer, wakes⟩
    · exact absurd entered (by decide)
    · match writer, wakes with
      | 0, wakes => exact wakes
      | 1, wakes => exact wakes
      | 2, wakes => exact wakes

end Orcos.Guarantees.BlockedReaders
