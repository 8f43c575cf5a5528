import Mathlib.Data.List.Forall2
import Orcos.Source.Usb.EthernetDriver

/-!
# Frames that arrive in transfers

Source: src/source/arch/shared/usb/ethernet/SMSC95xxUSBDeviceDriver.cc, `recv`.

The device sends one stream: before each frame a status word, behind it bytes up to a multiple of
4. A transfer ends where it likes in that stream, except that all but the last have a multiple of 4
bytes. `Awaits` relates what the driver has stored of a frame to what is still to come.
-/
namespace Orcos.Guarantees.ReceivedFrames
open Orcos.Lib.ByteMemory Orcos.Lib.Extents Orcos.Source Orcos.Source.Usb
  Orcos.Source.Usb.SMSC95xx

section Specification

/-- An ethernet frame of the sizes that the driver takes. -/
structure Frame where
  bytes : List (BitVec 8)
  some_ : 0 < bytes.length
  short : bytes.length ≤ 1500

/-- The status word before a frame. -/
structure Announces (header : List (BitVec 8)) (frame : Frame) : Prop where
  four : header.length = 4
  clean : errorSummary (wordOf header) = false
  length : frameLength (wordOf header) = frame.bytes.length

/-- How many bytes fill up a multiple of 4. -/
def gap (n : Nat) : Nat := align4 n - n

/-- The bytes behind a frame; the last one need not have them all. -/
def Padded (frames : List Frame) (n : Nat) (padding : List (BitVec 8)) : Prop :=
  padding.length = gap n ∨ frames = [] ∧ padding.length ≤ gap n

/-- What the device sends. -/
inductive Stream : List Frame → List (BitVec 8) → Prop
  | nil : Stream [] []
  | cons {frame : Frame} {frames : List Frame} {header padding rest : List (BitVec 8)}
      (announced : Announces header frame) (padded : Padded frames frame.bytes.length padding)
      (more : Stream frames rest) :
      Stream (frame :: frames) (header ++ (frame.bytes ++ (padding ++ rest)))

/-- A payload with a frame: `recv` takes 10 bytes more for each. -/
structure Holds (payload : List (BitVec 8)) (frame : Frame) : Prop where
  size : payload.length = frame.bytes.length + 10
  front : payload.take frame.bytes.length = frame.bytes

end Specification

section Copies

variable {payload bytes : List (BitVec 8)} {place : Nat}

theorem copy_inside (inside : place + bytes.length ≤ payload.length) :
    copy payload place bytes = .ok (overlay payload place bytes) := if_pos inside

theorem length_copied (inside : place + bytes.length ≤ payload.length) :
    (overlay payload place bytes).length = payload.length := by
  rw [length_overlay (by omega)]
  omega

/-- The bytes up to the end of the copy. -/
theorem take_copied (payload : List (BitVec 8)) (place : Nat) (bytes : List (BitVec 8))
    (inside : place ≤ payload.length) :
    (overlay payload place bytes).take (place + bytes.length) = payload.take place ++ bytes := by
  have front : (payload.take place ++ bytes).length = place + bytes.length := by simp [inside]
  rw [overlay, ← front, List.take_left]

end Copies

section Invariant

/-- What the driver has and what is still to come. -/
inductive Awaits (d : SMSC95xx) : List Frame → List (BitVec 8) → Prop
  | idle {frames : List Frame} {rest : List (BitVec 8)} (none_ : d.remainingLen = 0)
      (stream : Stream frames rest) : Awaits d frames rest
  | within {frame : Frame} {frames : List Frame} {padding rest : List (BitVec 8)}
      (some_ : 0 < d.remainingLen) (size : d.lastPbuf.length = frame.bytes.length + 10)
      (whole : d.curLen + d.remainingLen = frame.bytes.length)
      (front : d.lastPbuf.take d.curLen = frame.bytes.take d.curLen)
      (padded : Padded frames d.remainingLen padding) (more : Stream frames rest) :
      Awaits d (frame :: frames) (frame.bytes.drop d.curLen ++ (padding ++ rest))

/-- The driver after some more frames, with the others and the later bytes to come. -/
structure Took (d d' : SMSC95xx) (frames : List Frame) (later : List (BitVec 8)) : Prop where
  took : ∃ done pending new, frames = done ++ pending ∧ d'.delivered = d.delivered ++ new ∧
    List.Forall₂ Holds new done ∧ Awaits d' pending later

variable {pool : PbufPool} {t : Transfer} {d d' d'' : SMSC95xx} {frame : Frame}
  {frames pending : List Frame} {payload header padding rest later : List (BitVec 8)} {n : Nat}

/-- At the end of the stream nothing is missing. -/
theorem Awaits.end_ (awaits : Awaits d frames []) : d.remainingLen = 0 ∧ frames = [] := by
  generalize end_ : [] = rest at awaits
  have length := congrArg List.length end_
  cases awaits with
  | idle idle stream =>
    cases stream with
    | nil => exact ⟨idle, rfl⟩
    | cons announced =>
      have four := announced.four
      simp only [List.length_append, List.length_nil] at length
      omega
  | within some_ _ whole =>
    simp only [List.length_append, List.length_drop, List.length_nil] at length
    omega

theorem Took.of_awaits (awaits : Awaits d frames later) : Took d d frames later :=
  ⟨[], frames, [], rfl, (List.append_nil _).symm, .nil, awaits⟩

/-- A frame more, and what follows. -/
theorem Took.cons (delivered : d'.delivered = d.delivered ++ [payload])
    (holds : Holds payload frame)
    (then_ : Took d' d'' frames later) : Took d d'' (frame :: frames) later := by
  obtain ⟨done, pending, new, split_, result, all, awaits⟩ := then_.took
  refine ⟨frame :: done, pending, payload :: new, by rw [split_]; rfl, ?_, .cons holds all, awaits⟩
  rw [result, delivered, List.append_assoc]
  rfl

theorem align4_add (aligned : n % 4 = 0) (k : Nat) : align4 (n + k) = n + align4 k := by
  rw [align4, align4]
  omega

theorem align4_mod (n : Nat) : align4 n % 4 = 0 := by
  rw [align4]
  omega

theorem le_align4 (n : Nat) : n ≤ align4 n := by
  rw [align4]
  omega

theorem gap_add (n : Nat) : n + gap n = align4 n := by
  have := le_align4 n
  rw [gap]
  omega

/-- Behind a frame that a transfer has to its end comes what the stream has there. -/
theorem behind_frame {unread front : List (BitVec 8)}
    (split_ : unread ++ later = front ++ (padding ++ rest)) (padded : Padded frames n padding)
    (complete : front.length ≤ unread.length) (same : gap front.length = gap n)
    (more : Stream frames rest) (cut : unread.length % 4 = 0 ∨ later = []) :
    unread.drop (align4 front.length) ++ later = rest := by
  have total := congrArg List.length split_
  have filled := gap_add front.length
  have rounded : align4 front.length = (front.length + 3) / 4 * 4 := rfl
  simp only [List.length_append] at total
  -- only the end of the stream may lack bytes of its padding
  have exact_or_end : padding.length = gap n ∨
      padding.length ≤ gap n ∧ rest = [] ∧ later = [] := by
    rcases padded with exact_ | ⟨rfl, less⟩
    · exact .inl exact_
    · cases more
      rcases cut with aligned | last
      · simp only [List.length_nil] at total
        left
        omega
      · exact .inr ⟨less, rfl, last⟩
  rcases exact_or_end with exact_ | ⟨less, rfl, rfl⟩
  · have prefix_ : align4 front.length = (front ++ padding).length := by
      rw [List.length_append]
      omega
    have inside : (front ++ padding).length ≤ unread.length := by
      rcases cut with aligned | rfl
      · omega
      · simp only [List.length_nil] at total
        rw [List.length_append]
        omega
    rw [← List.append_assoc] at split_
    rw [prefix_, ← List.drop_append_of_le_length inside, split_, List.drop_left]
  · simp only [List.length_nil] at total
    rw [List.append_nil, List.drop_eq_nil_of_le (by omega)]

/-! ### One transfer -/

theorem unread_eq (t : Transfer) (n : Nat) :
    t.bytes.drop n = bytesAt t.rxbuffer n (t.recvLen - n) := by
  rw [Transfer.bytes, drop_bytesAt, Nat.zero_add]

/-- What the buffer has at a place, when the stream says how it goes on there. -/
theorem bytesAt_unread {front : List (BitVec 8)} (split_ : t.bytes.drop n ++ later = front ++ rest)
    (inside : n + front.length ≤ t.recvLen) : bytesAt t.rxbuffer n front.length = front := by
  have taken := congrArg (List.take front.length) split_
  rw [List.take_left, unread_eq, List.take_append_of_le_length (by rw [length_bytesAt]; omega),
    take_bytesAt (by omega)] at taken
  exact taken

theorem drop_unread {front : List (BitVec 8)} (split_ : t.bytes.drop n ++ later = front ++ rest)
    (inside : n + front.length ≤ t.recvLen) : t.bytes.drop (n + front.length) ++ later = rest := by
  have left_ := congrArg (List.drop front.length) split_
  rw [List.drop_left, List.drop_append_of_le_length (by rw [unread_eq, length_bytesAt]; omega),
    List.drop_drop] at left_
  exact left_

theorem length_unread (t : Transfer) (n : Nat) : (t.bytes.drop n).length = t.recvLen - n := by
  rw [unread_eq, length_bytesAt]

theorem recvFrom_end (ended : t.recvLen ≤ n) : recvFrom pool t d n = .ok (d, cOk) := by
  rw [recvFrom, if_neg (Nat.not_lt_of_le ended)]
  rfl

theorem recvFrom_begin (pool : PbufPool) (idle : d.remainingLen = 0) (here : n < t.recvLen)
    (clean : errorSummary (read32 t.rxbuffer n) = false)
    (length : ¬(1500 < frameLength (read32 t.rxbuffer n) ∨ frameLength (read32 t.rxbuffer n) = 0)) :
    recvFrom pool t d n = (do
      let d' ← beginPacket pool t d n (frameLength (read32 t.rxbuffer n))
      recvFrom pool t d' (align4 (n + (frameLength (read32 t.rxbuffer n) + 4)))) := by
  rw [recvFrom, if_pos here, if_neg (by omega)]
  simp only [clean, Bool.false_eq_true, ↓reduceIte]
  rw [if_neg length]

/-- A frame that is announced gets a payload, and is copied as far as it has arrived. -/
theorem recvFrom_frame (idle : d.remainingLen = 0) (here : n < t.recvLen)
    (announced : Announces header frame) (status : read32 t.rxbuffer n = wordOf header) :
    recvFrom pool t d n = (do
      let d' ← beginPacket pool t d n frame.bytes.length
      recvFrom pool t d' (align4 (n + (frame.bytes.length + 4)))) := by
  have some_ := frame.some_
  have short := frame.short
  have length : frameLength (read32 t.rxbuffer n) = frame.bytes.length := by
    rw [status, announced.length]
  rw [recvFrom_begin pool idle here (by rw [status, announced.clean]) (by omega), length]

theorem beginPacket_whole
    (allocated : pool.alloc d.allocated (frame.bytes.length + 10) = some payload)
    (arrived : bytesAt t.rxbuffer (n + 4) frame.bytes.length = frame.bytes)
    (inside : n + 4 + frame.bytes.length ≤ t.recvLen) :
    ∃ d' payload', beginPacket pool t d n frame.bytes.length = .ok d' ∧
      d'.remainingLen = d.remainingLen ∧ d'.delivered = d.delivered ++ [payload'] ∧
      Holds payload' frame := by
  have size := pool.sized _ _ _ allocated
  have fits : 0 + frame.bytes.length ≤ payload.length := by omega
  refine ⟨{ d with allocated := d.allocated + 1,
                   delivered := d.delivered ++ [overlay payload 0 frame.bytes] },
    overlay payload 0 frame.bytes, ?_, rfl, rfl, ?_, ?_⟩
  · rw [beginPacket]
    simp only [allocated, if_pos inside, arrived, copy_inside fits]
    rfl
  · rw [length_copied fits, size]
  · have taken := take_copied payload 0 frame.bytes (Nat.zero_le _)
    rw [Nat.zero_add] at taken
    rw [taken]
    rfl

theorem beginPacket_part
    (allocated : pool.alloc d.allocated (frame.bytes.length + 10) = some payload)
    (arrived : bytesAt t.rxbuffer (n + 4) (t.recvLen - (n + 4)) =
      frame.bytes.take (t.recvLen - (n + 4)))
    (announced : n + 4 ≤ t.recvLen) (part : t.recvLen < n + 4 + frame.bytes.length) :
    ∃ d', beginPacket pool t d n frame.bytes.length = .ok d' ∧ d'.delivered = d.delivered ∧
      d'.curLen = t.recvLen - (n + 4) ∧ d'.curLen + d'.remainingLen = frame.bytes.length ∧
      d'.lastPbuf.length = frame.bytes.length + 10 ∧
      d'.lastPbuf.take d'.curLen = frame.bytes.take d'.curLen := by
  have size := pool.sized _ _ _ allocated
  have few : (frame.bytes.take (t.recvLen - (n + 4))).length = t.recvLen - (n + 4) := by
    rw [List.length_take]
    omega
  have fits : 0 + (frame.bytes.take (t.recvLen - (n + 4))).length ≤ payload.length := by omega
  refine ⟨{ d with allocated := d.allocated + 1,
                   lastPbuf := overlay payload 0 (frame.bytes.take (t.recvLen - (n + 4))),
                   curLen := t.recvLen - (n + 4),
                   remainingLen := frame.bytes.length - (t.recvLen - (n + 4)) },
    ?_, rfl, rfl, ?_, ?_, ?_⟩
  · rw [beginPacket]
    simp only [allocated, if_neg (Nat.not_le_of_lt part),
      if_neg (Nat.not_lt_of_le announced), arrived,
      copy_inside fits]
    rfl
  · dsimp only
    omega
  · exact (length_copied fits).trans size
  · have taken := take_copied payload 0 (frame.bytes.take (t.recvLen - (n + 4))) (Nat.zero_le _)
    rw [Nat.zero_add, few] at taken
    rw [taken]
    rfl

/-- From a status word on, the driver takes the frames that the transfer has, and the beginning of
the one that it has in part. -/
theorem recvFrom_took (given : ∀ call size, (pool.alloc call size).isSome)
    (stream : Stream frames (t.bytes.drop n ++ later)) (aligned : n % 4 = 0)
    (idle : d.remainingLen = 0) (cut : t.recvLen % 4 = 0 ∨ later = []) :
    ∃ d', recvFrom pool t d n = .ok (d', cOk) ∧ Took d d' frames later := by
  induction frames generalizing d n with
  | nil =>
    generalize split_ : t.bytes.drop n ++ later = whole at stream
    cases stream
    obtain ⟨ended, rfl⟩ := List.append_eq_nil_iff.mp split_
    have none_ := length_unread t n
    rw [ended, List.length_nil] at none_
    exact ⟨d, recvFrom_end (by omega), .of_awaits (.idle idle .nil)⟩
  | cons frame frames ih =>
    rcases Nat.lt_or_ge n t.recvLen with here | ended
    · generalize split_ : t.bytes.drop n ++ later = whole at stream
      cases stream with
      | @cons _ _ header padding rest announced padded more =>
        have total := congrArg List.length split_
        simp only [List.length_append, length_unread, announced.four] at total
        have headed : n + header.length ≤ t.recvLen := by
          rw [announced.four]
          rcases cut with words | rfl
          · omega
          · simp only [List.length_nil] at total
            omega
        have status : read32 t.rxbuffer n = wordOf header := by
          rw [← wordOf_bytesAt, ← announced.four, bytesAt_unread split_ headed]
        have split' := drop_unread split_ headed
        rw [announced.four] at headed split'
        obtain ⟨payload, allocated⟩ := Option.isSome_iff_exists.mp
          (given d.allocated (frame.bytes.length + 10))
        rw [recvFrom_frame idle here announced status]
        have next : align4 (n + (frame.bytes.length + 4)) = n + 4 + align4 frame.bytes.length := by
          rw [Nat.add_comm frame.bytes.length, ← Nat.add_assoc, align4_add (by omega)]
        rw [next]
        rcases Nat.lt_or_ge t.recvLen (n + 4 + frame.bytes.length) with part | whole
        · -- the rest of the frame comes with later transfers
          have words : t.recvLen % 4 = 0 := by
            rcases cut with words | rfl
            · exact words
            · simp only [List.length_nil] at total
              omega
          have arrived : bytesAt t.rxbuffer (n + 4) (t.recvLen - (n + 4)) =
              frame.bytes.take (t.recvLen - (n + 4)) := by
            have taken := congrArg (List.take (t.recvLen - (n + 4))) split'
            rw [unread_eq, List.take_append_of_le_length (by simp), take_bytesAt (Nat.le_refl _),
              List.take_append_of_le_length (by omega)] at taken
            exact taken
          obtain ⟨d', result, same, cur, sum, size, front⟩ :=
            beginPacket_part allocated arrived headed part
          have behind := le_align4 frame.bytes.length
          have remaining : 0 < d'.remainingLen := by omega
          refine ⟨d', ?_, ⟨[], _, [], rfl, by rw [same, List.append_nil], .nil, ?_⟩⟩
          · rw [result]
            exact recvFrom_end (by omega)
          · have rest_ : frame.bytes.drop d'.curLen ++ (padding ++ rest) = later := by
              have left_ := congrArg (List.drop (t.recvLen - (n + 4))) split'
              rw [unread_eq, List.drop_append_of_le_length (by simp), drop_bytesAt,
                List.drop_append_of_le_length (by omega)] at left_
              simpa [bytesAt, cur] using left_.symm
            have same_gap : gap d'.remainingLen = gap frame.bytes.length := by
              rw [gap, gap, align4, align4]
              omega
            rw [← rest_]
            exact .within remaining size sum front (by rwa [Padded, same_gap]) more
        · have arrived := bytesAt_unread split' whole
          obtain ⟨d', payload', result, kept, delivered, holds⟩ :=
            beginPacket_whole allocated arrived whole
          have behind := behind_frame (n := frame.bytes.length) split' padded
            (by rw [length_unread]; omega) rfl more
            (by rw [length_unread]; exact cut.imp_left (by omega))
          rw [List.drop_drop] at behind
          have rounded := align4_mod frame.bytes.length
          obtain ⟨d'', rest', took⟩ := ih (d := d') (n := n + 4 + align4 frame.bytes.length)
            (by rw [behind]; exact more) (by omega) (by rw [kept, idle])
          exact ⟨d'', by rw [result]; exact rest', took.cons delivered holds⟩
    · have none_ : t.bytes.drop n = [] := List.drop_eq_nil_of_le (by
        rw [Transfer.bytes, length_bytesAt]
        exact ended)
      rw [none_, List.nil_append] at stream
      exact ⟨d, recvFrom_end ended, .of_awaits (.idle idle stream)⟩

theorem continuePacket_rest
    (arrived : bytesAt t.rxbuffer 0 d.remainingLen = frame.bytes.drop d.curLen)
    (size : d.lastPbuf.length = frame.bytes.length + 10)
    (whole : d.curLen + d.remainingLen = frame.bytes.length)
    (front : d.lastPbuf.take d.curLen = frame.bytes.take d.curLen)
    (inside : d.remainingLen ≤ t.recvLen) :
    ∃ d' payload, continuePacket t d = .ok d' ∧ d'.remainingLen = 0 ∧
      d'.delivered = d.delivered ++ [payload] ∧ Holds payload frame := by
  have length : (frame.bytes.drop d.curLen).length = d.remainingLen := by
    rw [List.length_drop]
    omega
  have fits : d.curLen + (frame.bytes.drop d.curLen).length ≤ d.lastPbuf.length := by omega
  refine ⟨{ d with lastPbuf := overlay d.lastPbuf d.curLen (frame.bytes.drop d.curLen),
                   remainingLen := 0, curLen := 0,
                   delivered := d.delivered ++
                     [overlay d.lastPbuf d.curLen (frame.bytes.drop d.curLen)] },
    overlay d.lastPbuf d.curLen (frame.bytes.drop d.curLen), ?_, rfl, rfl, ?_, ?_⟩
  · rw [continuePacket, if_pos inside, arrived, copy_inside fits]
    rfl
  · rw [length_copied fits, size]
  · have taken := take_copied d.lastPbuf d.curLen (frame.bytes.drop d.curLen) (by omega)
    rw [length, whole, front, List.take_append_drop] at taken
    exact taken

theorem continuePacket_part (arrived : bytesAt t.rxbuffer 0 t.recvLen =
      (frame.bytes.drop d.curLen).take t.recvLen)
    (size : d.lastPbuf.length = frame.bytes.length + 10)
    (whole : d.curLen + d.remainingLen = frame.bytes.length)
    (front : d.lastPbuf.take d.curLen = frame.bytes.take d.curLen)
    (part : t.recvLen < d.remainingLen) :
    ∃ d', continuePacket t d = .ok d' ∧ d'.delivered = d.delivered ∧
      d'.remainingLen = d.remainingLen - t.recvLen ∧ d'.curLen = d.curLen + t.recvLen ∧
      d'.lastPbuf.length = frame.bytes.length + 10 ∧
      d'.lastPbuf.take d'.curLen = frame.bytes.take d'.curLen := by
  have length : ((frame.bytes.drop d.curLen).take t.recvLen).length = t.recvLen := by
    rw [List.length_take, List.length_drop]
    omega
  have fits : d.curLen + ((frame.bytes.drop d.curLen).take t.recvLen).length ≤
    d.lastPbuf.length := by
    omega
  refine ⟨{ d with lastPbuf := overlay d.lastPbuf d.curLen
                     ((frame.bytes.drop d.curLen).take t.recvLen),
                   remainingLen := d.remainingLen - t.recvLen,
                   curLen := d.curLen + t.recvLen }, ?_, rfl, rfl, rfl, ?_, ?_⟩
  · rw [continuePacket, if_neg (Nat.not_le_of_lt part), arrived, copy_inside fits]
    rfl
  · exact (length_copied fits).trans size
  · have taken := take_copied d.lastPbuf d.curLen ((frame.bytes.drop d.curLen).take t.recvLen)
      (by omega)
    rw [length, front, ← List.take_add] at taken
    exact taken

theorem recvFrom_continue {d' : SMSC95xx} (some_ : 0 < d.remainingLen) (here : n < t.recvLen)
    (result : continuePacket t d = .ok d') :
    recvFrom pool t d n = recvFrom pool t d' (align4 (n + min d.remainingLen t.recvLen)) := by
  rw [recvFrom, if_pos here, if_pos some_, result]
  rfl

/-- What one transfer brings. -/
theorem handleTransfer_took (given : ∀ call size, (pool.alloc call size).isSome)
    (awaits : Awaits d frames (t.bytes ++ later)) (cut : t.recvLen % 4 = 0 ∨ later = []) :
    ∃ d', handleTransfer pool d t = .ok d' ∧ Took d d' frames later := by
  rcases Nat.eq_zero_or_pos t.recvLen with empty | here
  · have none_ : t.bytes = [] := by
      rw [Transfer.bytes, empty]
      rfl
    rw [none_, List.nil_append] at awaits
    exact ⟨d, by rw [handleTransfer, if_neg (by omega)]; rfl, .of_awaits awaits⟩
  · suffices received : ∃ d', recvFrom pool t d 0 = .ok (d', cOk) ∧ Took d d' frames later by
      obtain ⟨d', result, took⟩ := received
      refine ⟨d', ?_, took⟩
      rw [handleTransfer, if_pos here, recv, if_neg (by omega), result]
      rfl
    generalize split_ : t.bytes ++ later = whole at awaits
    cases awaits with
    | idle none_ stream =>
      rw [← split_] at stream
      exact recvFrom_took given (by rwa [List.drop_zero]) rfl none_ cut
    | @within frame frames padding rest some_ size whole front padded more =>
      have total := congrArg List.length split_
      have split' : t.bytes.drop 0 ++ later = frame.bytes.drop d.curLen ++ (padding ++ rest) := by
        rw [List.drop_zero, split_]
      simp only [List.length_append, Transfer.bytes, length_bytesAt] at total
      have length : (frame.bytes.drop d.curLen).length = d.remainingLen := by
        rw [List.length_drop]
        omega
      rcases Nat.lt_or_ge t.recvLen d.remainingLen with part | inside
      · have words : t.recvLen % 4 = 0 := by
          rcases cut with words | rfl
          · exact words
          · simp only [List.length_nil] at total
            omega
        have arrived : bytesAt t.rxbuffer 0 t.recvLen =
          (frame.bytes.drop d.curLen).take t.recvLen := by
          have taken := congrArg (List.take t.recvLen) split'
          rw [unread_eq, List.take_append_of_le_length (by simp), take_bytesAt (by omega),
            List.take_append_of_le_length (by omega)] at taken
          exact taken
        obtain ⟨d', result, same, left_, cur, size', front'⟩ :=
          continuePacket_part arrived size whole front part
        refine ⟨d', ?_, ⟨[], _, [], rfl, by rw [same, List.append_nil], .nil, ?_⟩⟩
        · rw [recvFrom_continue some_ here result]
          exact recvFrom_end (by rw [Nat.zero_add, Nat.min_eq_right (by omega)]; exact le_align4 _)
        · have rest_ : frame.bytes.drop d'.curLen ++ (padding ++ rest) = later := by
            have dropped := congrArg (List.drop t.recvLen) split'
            rw [unread_eq, List.drop_append_of_le_length (by simp), drop_bytesAt,
              List.drop_append_of_le_length (by omega), List.drop_drop] at dropped
            simpa [bytesAt, cur] using dropped.symm
          have same_gap : gap d'.remainingLen = gap d.remainingLen := by
            rw [left_, gap, gap, align4, align4]
            omega
          rw [← rest_]
          exact .within (by omega) size' (by omega) front' (by rwa [Padded, same_gap]) more
      · have arrived : bytesAt t.rxbuffer 0 d.remainingLen = frame.bytes.drop d.curLen := by
          have unread := bytesAt_unread split' (by omega)
          rwa [length] at unread
        obtain ⟨d', payload, result, none_, delivered, holds⟩ :=
          continuePacket_rest arrived size whole front inside
        have behind := behind_frame split' padded (by rw [length, length_unread]; omega)
          (by rw [length]) more (by rw [length_unread]; exact cut)
        rw [length, List.drop_drop, Nat.zero_add] at behind
        obtain ⟨d'', rest', took⟩ := recvFrom_took (d := d') (n := align4 d.remainingLen) given
          (by rw [behind]; exact more) (align4_mod _) none_ cut
        refine ⟨d'', ?_, took.cons delivered holds⟩
        rw [recvFrom_continue some_ here result, Nat.min_eq_left inside, Nat.zero_add]
        exact rest'

end Invariant

/-! ### All transfers -/

section Transfers

variable {pool : PbufPool} {d : SMSC95xx} {frames : List Frame}

/-- The transfers of a stream, from what a driver awaits. -/
theorem transfers_took (given : ∀ call size, (pool.alloc call size).isSome)
    (transfers : List Transfer)
    (awaits : Awaits d frames (transfers.map Transfer.bytes).flatten)
    (cut : ∀ t ∈ transfers.dropLast, t.recvLen % 4 = 0) :
    ∃ d', transfers.foldlM (handleTransfer pool) d = .ok d' ∧ Took d d' frames [] := by
  induction transfers generalizing d frames with
  | nil => exact ⟨d, rfl, .of_awaits awaits⟩
  | cons t later ih =>
    rw [List.map_cons, List.flatten_cons] at awaits
    have cut' : t.recvLen % 4 = 0 ∨ (later.map Transfer.bytes).flatten = [] := by
      cases later with
      | nil => exact .inr rfl
      | cons t' later => exact .inl (cut t (by simp))
    obtain ⟨d', result, done, pending, new, rfl, delivered, all, awaits'⟩ :=
      handleTransfer_took given awaits cut'
    have cutLater : ∀ t ∈ later.dropLast, t.recvLen % 4 = 0 := by
      cases later with
      | nil => simp
      | cons t' later => exact fun t member => cut t (by simp [member])
    obtain ⟨d'', rest, done', pending', new', rfl, delivered', all', awaits''⟩ :=
      ih awaits' cutLater
    refine ⟨d'', ?_, done ++ done', pending', new ++ new', by rw [List.append_assoc], ?_,
      List.rel_append all all', awaits''⟩
    · rw [List.foldlM_cons, result]
      exact rest
    · rw [delivered', delivered, List.append_assoc]

/-- However the stream is cut into transfers, a driver that is within no packet gives
`ethernet_input` just the frames, in their order, and is within no packet at the end. -/
theorem frames_received (given : ∀ call size, (pool.alloc call size).isSome)
    (transfers : List Transfer) (idle : d.remainingLen = 0)
    (stream : Stream frames (transfers.map Transfer.bytes).flatten)
    (cut : ∀ t ∈ transfers.dropLast, t.recvLen % 4 = 0) :
    ∃ d' payloads, transfers.foldlM (handleTransfer pool) d = .ok d' ∧ d'.remainingLen = 0 ∧
      d'.delivered = d.delivered ++ payloads ∧ List.Forall₂ Holds payloads frames := by
  obtain ⟨d', result, done, pending, new, rfl, delivered, all, awaits⟩ :=
    transfers_took given transfers (.idle idle stream) cut
  obtain ⟨none_, rfl⟩ := awaits.end_
  exact ⟨d', new, result, none_, delivered, by rwa [List.append_nil]⟩

/-- A pool that always has a payload of zeros. -/
def zeroPool : PbufPool where
  alloc _ size := some (List.replicate size 0)
  sized _ _ _ allocated := by
    cases allocated
    exact List.length_replicate

def transferOf (bytes : List (BitVec 8)) (within : bytes.length ≤ 512 * 3) : Transfer :=
  ⟨fun i => bytes.getD i 0, bytes.length, within⟩

/-- A frame of one byte, its status word in one transfer and the byte in the next. -/
theorem frames_received_two_transfers :
    ∃ d' payloads, [transferOf [0, 0, 1, 0] (by decide), transferOf [7, 0, 0, 0] (by decide)].foldlM
        (handleTransfer zeroPool) start = .ok d' ∧ d'.remainingLen = 0 ∧
      d'.delivered = start.delivered ++ payloads ∧
      List.Forall₂ Holds payloads [⟨[7], by decide, by decide⟩] :=
  frames_received (fun _ _ => rfl) _ rfl
    (@Stream.cons _ _ [0, 0, 1, 0] [0, 0, 0] _ ⟨rfl, by decide, by decide⟩
      (.inl (by decide)) .nil) (by decide)

end Transfers

/-! ### Whatever the device sends -/

section Safety

variable {pool : PbufPool} {t : Transfer} {d d' : SMSC95xx} {n packetLen : Nat}

/-- The missing part of a packet has its place in the payload. -/
def Fits (d : SMSC95xx) : Prop :=
  0 < d.remainingLen → d.curLen + d.remainingLen + 10 = d.lastPbuf.length

theorem continuePacket_fits (fits : Fits d) (some_ : 0 < d.remainingLen) :
    ∃ d', continuePacket t d = .ok d' ∧ Fits d' := by
  have size := fits some_
  rcases Nat.lt_or_ge t.recvLen d.remainingLen with part | inside
  · have place : d.curLen + (bytesAt t.rxbuffer 0 t.recvLen).length ≤ d.lastPbuf.length := by
      rw [length_bytesAt]
      omega
    refine ⟨{ d with lastPbuf := overlay d.lastPbuf d.curLen (bytesAt t.rxbuffer 0 t.recvLen),
                     remainingLen := d.remainingLen - t.recvLen,
                     curLen := d.curLen + t.recvLen }, ?_, fun _ => ?_⟩
    · rw [continuePacket, if_neg (Nat.not_le_of_lt part), copy_inside place]
      rfl
    · dsimp only
      rw [length_copied place]
      omega
  · have place : d.curLen + (bytesAt t.rxbuffer 0 d.remainingLen).length ≤ d.lastPbuf.length := by
      rw [length_bytesAt]
      omega
    refine ⟨{ d with lastPbuf := overlay d.lastPbuf d.curLen (bytesAt t.rxbuffer 0 d.remainingLen),
                     remainingLen := 0, curLen := 0, delivered := d.delivered ++
                       [overlay d.lastPbuf d.curLen (bytesAt t.rxbuffer 0 d.remainingLen)] },
      ?_, fun some_ => absurd some_ (Nat.lt_irrefl 0)⟩
    rw [continuePacket, if_pos inside, copy_inside place]
    rfl

theorem beginPacket_fits (pool : PbufPool) (t : Transfer) (n packetLen : Nat) (fits : Fits d) :
    (∃ d', beginPacket pool t d n packetLen = .ok d' ∧ Fits d') ∨
      beginPacket pool t d n packetLen = .error .negative ∧ t.recvLen < n + 4 := by
  rw [beginPacket]
  cases allocated : pool.alloc d.allocated (packetLen + 10) with
  | none => exact .inl ⟨_, rfl, fits⟩
  | some payload =>
    have size := pool.sized _ _ _ allocated
    simp only
    rcases Nat.lt_or_ge t.recvLen (n + 4 + packetLen) with part | whole
    · rw [if_neg (Nat.not_le_of_lt part)]
      rcases Nat.lt_or_ge t.recvLen (n + 4) with cut | headed
      · rw [if_pos cut]
        exact .inr ⟨rfl, cut⟩
      · have place : 0 + (bytesAt t.rxbuffer (n + 4) (t.recvLen - (n + 4))).length ≤
          payload.length := by
          rw [length_bytesAt]
          omega
        rw [if_neg (Nat.not_lt_of_le headed), copy_inside place]
        refine .inl ⟨_, rfl, fun _ => ?_⟩
        dsimp only
        rw [length_copied place]
        omega
    · have place : 0 + (bytesAt t.rxbuffer (n + 4) packetLen).length ≤ payload.length := by
        rw [length_bytesAt]
        omega
      rw [if_pos whole, copy_inside place]
      exact .inl ⟨_, rfl, fits⟩

/-- The loop only goes wrong in a transfer that ends within a status word. -/
theorem recvFrom_fits (pool : PbufPool) (t : Transfer) (n : Nat) (fits : Fits d) :
    (∃ d' r, recvFrom pool t d n = .ok (d', r) ∧ Fits d') ∨
      recvFrom pool t d n = .error .negative ∧ ¬(t.recvLen % 4 = 0 ∧ n % 4 = 0) := by
  induction left_ : t.recvLen - n using Nat.strong_induction_on generalizing d n with
  | _ left ih =>
    -- what holds from a later multiple of 4 on holds from here on
    have later (d' : SMSC95xx) (k : Nat) (fits' : Fits d') (here : n < t.recvLen) (some_ : 0 < k)
        (step : recvFrom pool t d n = recvFrom pool t d' (align4 (n + k))) :
        (∃ d' r, recvFrom pool t d n = .ok (d', r) ∧ Fits d') ∨
          recvFrom pool t d n = .error .negative ∧ ¬(t.recvLen % 4 = 0 ∧ n % 4 = 0) := by
      have more := lt_align4 (n := n) some_
      rw [step]
      rcases ih (t.recvLen - align4 (n + k)) (by omega) _ fits' rfl with received | ⟨fault, odd⟩
      · exact .inl received
      · exact .inr ⟨fault, fun both => odd ⟨both.1, align4_mod _⟩⟩
    rcases Nat.lt_or_ge n t.recvLen with here | ended
    · by_cases some_ : 0 < d.remainingLen
      · obtain ⟨d', result, fits'⟩ := continuePacket_fits (t := t) fits some_
        exact later d' _ fits' here (by omega) (recvFrom_continue some_ here result)
      · cases clean : errorSummary (read32 t.rxbuffer n) with
        | true =>
          refine .inl ⟨d, cError, ?_, fits⟩
          rw [recvFrom, if_pos here, if_neg some_]
          simp only [clean, ↓reduceIte]
          rfl
        | false =>
          by_cases length : 1500 < frameLength (read32 t.rxbuffer n) ∨
              frameLength (read32 t.rxbuffer n) = 0
          · refine .inl ⟨d, cError, ?_, fits⟩
            rw [recvFrom, if_pos here, if_neg some_]
            simp only [clean, Bool.false_eq_true, ↓reduceIte]
            rw [if_pos length]
            rfl
          · have begun := recvFrom_begin pool (d := d) (by omega) here clean length
            rcases beginPacket_fits pool t n (frameLength (read32 t.rxbuffer n)) fits with
              ⟨d', result, fits'⟩ | ⟨fault, cut⟩
            · simp only [result, bind, Except.bind] at begun
              exact later d' (frameLength (read32 t.rxbuffer n) + 4) fits' here (by omega) begun
            · simp only [fault, bind, Except.bind] at begun
              exact .inr ⟨begun, fun both => by omega⟩
    · exact .inl ⟨d, cOk, recvFrom_end ended, fits⟩

theorem handleTransfer_fits (pool : PbufPool) (t : Transfer) (fits : Fits d) :
    (∃ d', handleTransfer pool d t = .ok d' ∧ Fits d') ∨
      handleTransfer pool d t = .error .negative ∧ t.recvLen % 4 ≠ 0 := by
  rw [handleTransfer]
  by_cases here : 0 < t.recvLen
  · rw [if_pos here, recv, if_neg (by omega)]
    rcases recvFrom_fits pool t 0 fits with ⟨d', r, result, fits'⟩ | ⟨fault, odd⟩
    · rw [result]
      exact .inl ⟨d', rfl, fits'⟩
    · rw [fault]
      exact .inr ⟨rfl, fun words => odd ⟨words, rfl⟩⟩
  · rw [if_neg here]
    exact .inl ⟨d, rfl, fits⟩

/-- Whatever the transfers hold, no copy ends behind its payload, and none has a negative length
unless a transfer has a length that is no multiple of 4. -/
theorem copies_inside (pool : PbufPool) (transfers : List Transfer) :
    (∀ fault, transfers.foldlM (handleTransfer pool) start = .error fault → fault = .negative) ∧
      ((∀ t ∈ transfers, t.recvLen % 4 = 0) →
        ∃ d, transfers.foldlM (handleTransfer pool) start = .ok d ∧ Fits d) := by
  have begins : Fits start := fun some_ => absurd some_ (Nat.lt_irrefl 0)
  generalize start = d at begins ⊢
  induction transfers generalizing d with
  | nil => exact ⟨fun fault result => (by cases result), fun _ => ⟨d, rfl, begins⟩⟩
  | cons t transfers ih =>
    rw [List.foldlM_cons]
    rcases handleTransfer_fits pool t begins with ⟨d', result, fits'⟩ | ⟨fault, odd⟩
    · rw [result]
      exact ⟨(ih d' fits').1, fun words => (ih d' fits').2 fun t later => words t (by simp [later])⟩
    · rw [fault]
      refine ⟨fun fault' same => ?_, fun words => absurd (words t (by simp)) odd⟩
      cases same
      rfl

end Safety

end Orcos.Guarantees.ReceivedFrames
