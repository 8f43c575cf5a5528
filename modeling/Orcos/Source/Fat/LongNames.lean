import Orcos.Source.Fat.Directory

/-!
# Long names in the entries of a directory

Which entry opened the array for a long name that a later entry writes to. The
loop of `populateDirectory` is a fold over the entries it visits.
-/
namespace Orcos.Source.Fat
open Lib.Loop Lib.ByteMemory

namespace DirEntry

/-- The entry opens a new long name. -/
def Opens (e : DirEntry) : Prop := ¬e.Free ∧ e.LongName ∧ e.First

/-- The entry goes on with a long name. -/
def GoesOn (e : DirEntry) : Prop := ¬e.Free ∧ e.LongName ∧ ¬e.First

/-- The entry gives the directory a resource. -/
def IsShort (e : DirEntry) : Prop := ¬e.Free ∧ ¬e.LongName ∧ ¬e.Volume

instance (e : DirEntry) : Decidable e.Opens := inferInstanceAs (Decidable (_ ∧ _))
instance (e : DirEntry) : Decidable e.GoesOn := inferInstanceAs (Decidable (_ ∧ _))
instance (e : DirEntry) : Decidable e.IsShort := inferInstanceAs (Decidable (_ ∧ _))

/-- A long name that was opened before is not dropped at this entry. -/
def Keeps (first e : DirEntry) : Prop :=
  e.Free ∨ (e.GoesOn ∧ e.chksum = first.chksum) ∨ ¬e.Free ∧ ¬e.LongName ∧ e.Volume

end DirEntry

/-- The long name that this entry opened is still open behind the entries. -/
def OpenName (es : List DirEntry) (first : DirEntry) : Prop :=
  ∃ pre mid, es = pre ++ first :: mid ∧ first.Opens ∧ ∀ e ∈ mid, first.Keeps e

/-- The visited entries taken one after the other. -/
def decode (fs : FATFileSystem) (fresh : Memory) (slots : List Slot) (s : Names) : Option Names :=
  slots.foldlM (fun s slot => takeEntry fs fresh slot s) s

/-- The entries that `populateDirectory` takes in so many rounds. -/
def Cursor.slots (fs : FATFileSystem) : Nat → Cursor → List Slot
  | 0, _ => []
  | n + 1, c =>
    if c.slot.entry.name0 = 0 then []
    else c.slot :: match c.advance fs with
      | .at c => slots fs n c
      | _ => []

/-- The array for the long name that an entry opened: it ends with a zero. -/
def ArrayFor (first : DirEntry) (name : List Byte) : Prop :=
  name.length = 13 * first.order + 1 ∧ name.getLast? = some 0

/-- What the variables hold behind the entries. -/
structure Tracks (es : List DirEntry) (s : Names) : Prop where
  opened : ∀ first, OpenName es first →
    (∃ name, s.longname = some name ∧ ArrayFor first name) ∧ s.chksum = first.chksum
  array : ∀ name, s.longname = some name → ∃ first, OpenName es first ∧ ArrayFor first name
  entry : s.longNameEntry.isSome = s.longname.isSome

variable {fs : FATFileSystem} {fresh : Memory} {es : List DirEntry} {e first : DirEntry}
  {slot : Slot} {s s' : Names}

theorem openName_nil : ¬OpenName [] first := by
  rintro ⟨pre, mid, nil, _⟩
  simp at nil

theorem openName_append : OpenName (es ++ [e]) first ↔
    (e.Opens ∧ first = e) ∨ (OpenName es first ∧ first.Keeps e) := by
  constructor
  · rintro ⟨pre, mid, whole, opens, keeps⟩
    rcases List.eq_nil_or_concat mid with rfl | ⟨mid, last, rfl⟩
    · obtain ⟨_, same⟩ := List.append_inj' whole rfl
      obtain rfl := List.singleton_inj.mp same
      exact .inl ⟨opens, rfl⟩
    · rw [List.concat_eq_append, ← List.cons_append, ← List.append_assoc] at whole
      obtain ⟨front, same⟩ := List.append_inj' whole rfl
      obtain rfl := List.singleton_inj.mp same
      exact .inr ⟨⟨pre, mid, front, opens, fun e member => keeps e (by simp [member])⟩,
        keeps e (by simp)⟩
  · rintro (⟨opens, rfl⟩ | ⟨⟨pre, mid, rfl, opens, keeps⟩, last⟩)
    · exact ⟨es, [], rfl, opens, by simp⟩
    · refine ⟨pre, mid ++ [e], by simp, opens, fun e' member => ?_⟩
      rcases List.mem_append.mp member with earlier | here
      · exact keeps e' earlier
      · rwa [List.mem_singleton.mp here]

theorem DirEntry.Opens.not_keeps (opens : e.Opens) : ¬first.Keeps e := by
  rintro (free | ⟨⟨_, _, notFirst⟩, _⟩ | ⟨_, notLong, _⟩)
  · exact opens.1 free
  · exact notFirst opens.2.2
  · exact notLong opens.2.1

theorem DirEntry.IsShort.not_keeps (short : e.IsShort) : ¬first.Keeps e := by
  rintro (free | ⟨⟨_, long, _⟩, _⟩ | ⟨_, _, volume⟩)
  · exact short.1 free
  · exact short.2.1 long
  · exact short.2.2 volume

theorem arrayFor_nameBuffer (fresh : Memory) (e : DirEntry) :
    ArrayFor e (nameBuffer fresh e.order) := by
  constructor
  · simp [nameBuffer]
  · simp [nameBuffer]

/-- A part that fits keeps the array; the zero at its end is not written to. -/
theorem overwrite_arrayFor {name : List Byte} (array : ArrayFor first name) {n : Nat}
    (some : 0 < n) (fits : n ≤ first.order) :
    ∃ name', overwrite name (13 * (n - 1)) e.longChars = .some name' ∧ ArrayFor first name' := by
  obtain ⟨length, last⟩ := array
  have thirteen : e.longChars.length = 13 := rfl
  refine ⟨_, if_pos (by omega), ?_, ?_⟩
  · simp only [List.length_append, List.length_take, List.length_drop, thirteen]
    omega
  · rw [List.getLast?_append, List.getLast?_drop, if_neg (by omega), last]
    rfl

theorem overwrite_outside {name : List Byte} (array : ArrayFor first name) {n : Nat}
    (high : first.order < n) : overwrite name (13 * (n - 1)) e.longChars = none := by
  have length := array.1
  have thirteen : e.longChars.length = 13 := rfl
  exact if_neg (by omega)

section Entries

variable (fs fresh)

theorem takeEntry_free (free : slot.entry.Free) : takeEntry fs fresh slot s = some s :=
  if_pos free

theorem takeEntry_opens (opens : slot.entry.Opens) :
    ∃ name, (∀ s, takeEntry fs fresh slot s = some { s with
        longname := some name
        chksum := slot.entry.chksum
        longNameEntry := some (slot.sector, slot.number) }) ∧ ArrayFor slot.entry name := by
  obtain ⟨notFree, long, isFirst⟩ := opens
  have start := arrayFor_nameBuffer fresh slot.entry
  by_cases some : 0 < slot.entry.order
  · obtain ⟨name, written, array⟩ := overwrite_arrayFor (e := slot.entry) start some (Nat.le_refl _)
    refine ⟨name, fun s => ?_, array⟩
    simp [takeEntry, takeLong, notFree, long, isFirst, some, written]
  · refine ⟨_, fun s => ?_, start⟩
    simp [takeEntry, takeLong, notFree, long, isFirst, some]

theorem takeEntry_drops (on : slot.entry.GoesOn) (other : slot.entry.chksum ≠ s.chksum) :
    takeEntry fs fresh slot s = some { s with longname := none, longNameEntry := none } := by
  obtain ⟨notFree, long, notFirst⟩ := on
  simp [takeEntry, takeLong, notFree, long, notFirst, other]

theorem takeEntry_closed (on : slot.entry.GoesOn) (same : slot.entry.chksum = s.chksum)
    (closed : s.longname = none) : takeEntry fs fresh slot s = some s := by
  obtain ⟨notFree, long, notFirst⟩ := on
  simp [takeEntry, takeLong, notFree, long, notFirst, same, closed]

theorem takeEntry_part (on : slot.entry.GoesOn) (same : slot.entry.chksum = s.chksum)
    {name : List Byte} (opened : s.longname = some name) :
    takeEntry fs fresh slot s =
      if 0 < slot.entry.order then
        (overwrite name (13 * (slot.entry.order - 1)) slot.entry.longChars).map fun name =>
          { s with longname := some name }
      else some s := by
  obtain ⟨notFree, long, notFirst⟩ := on
  simp [takeEntry, takeLong, notFree, long, notFirst, same, opened]

theorem takeEntry_volume (notFree : ¬slot.entry.Free) (notLong : ¬slot.entry.LongName)
    (volume : slot.entry.Volume) : takeEntry fs fresh slot s = some s := by
  simp [takeEntry, takeShort, notFree, notLong, volume]

theorem takeEntry_short (short : slot.entry.IsShort) :
    takeEntry fs fresh slot s = some { s with
      longname := none
      longNameEntry := none
      resources := s.resources ++ [namedResource fs slot s] } := by
  obtain ⟨notFree, notLong, notVolume⟩ := short
  rw [takeEntry, if_neg notFree, if_neg notLong, takeShort, if_neg notVolume]

end Entries

/-- The kinds of entries. -/
theorem DirEntry.kinds (e : DirEntry) :
    e.Free ∨ e.Opens ∨ e.GoesOn ∨ (¬e.Free ∧ ¬e.LongName ∧ e.Volume) ∨ e.IsShort := by
  unfold Opens GoesOn IsShort
  by_cases free : e.Free
  · exact .inl free
  · by_cases long : e.LongName
    · by_cases isFirst : e.First
      · exact .inr (.inl ⟨free, long, isFirst⟩)
      · exact .inr (.inr (.inl ⟨free, long, isFirst⟩))
    · by_cases volume : e.Volume
      · exact .inr (.inr (.inr (.inl ⟨free, long, volume⟩)))
      · exact .inr (.inr (.inr (.inr ⟨free, long, volume⟩)))

/-- The entry writes a part of a name behind the array that was made for it. -/
def Overruns (es : List DirEntry) (e : DirEntry) : Prop :=
  ∃ first, OpenName es first ∧ e.GoesOn ∧ e.chksum = first.chksum ∧ first.order < e.order

theorem Overruns.goesOn (overruns : Overruns es e) : e.GoesOn := by
  obtain ⟨_, _, on, _⟩ := overruns
  exact on

theorem DirEntry.GoesOn.not_volume (on : e.GoesOn) : ¬(¬e.Free ∧ ¬e.LongName ∧ e.Volume) :=
  fun volume => volume.2.1 on.2.1

/-- Names are written outside of their array just at the entries that are numbered
too high. -/
theorem takeEntry_none_iff (fs : FATFileSystem) (fresh : Memory) (tracks : Tracks es s) :
    takeEntry fs fresh slot s = none ↔ Overruns es slot.entry := by
  rcases slot.entry.kinds with free | opens | on | volume | short
  · rw [takeEntry_free fs fresh free]
    exact iff_of_false (by simp) fun overruns => overruns.goesOn.1 free
  · obtain ⟨name, taken, _⟩ := takeEntry_opens fs fresh opens
    rw [taken]
    exact iff_of_false (by simp) fun overruns => overruns.goesOn.2.2 opens.2.2
  · by_cases same : slot.entry.chksum = s.chksum
    · cases opened : s.longname with
      | none =>
        rw [takeEntry_closed fs fresh on same opened]
        refine iff_of_false (by simp) ?_
        rintro ⟨first, known, _⟩
        obtain ⟨⟨name, some, _⟩, _⟩ := tracks.opened first known
        rw [opened] at some
        cases some
      | some name =>
        obtain ⟨first, known, array⟩ := tracks.array name opened
        obtain ⟨_, chksum⟩ := tracks.opened first known
        rw [takeEntry_part fs fresh on same opened]
        constructor
        · intro outside
          refine ⟨first, known, on, same.trans chksum, ?_⟩
          by_contra fits
          split at outside
          · next some =>
            obtain ⟨name', written, _⟩ := overwrite_arrayFor (e := slot.entry) array some
              (Nat.le_of_not_lt fits)
            rw [written] at outside
            cases outside
          · cases outside
        · rintro ⟨first', known', _, _, high⟩
          obtain ⟨⟨name', some, array'⟩, _⟩ := tracks.opened first' known'
          obtain rfl : name = name' := Option.some.inj (opened.symm.trans some)
          rw [if_pos (by omega), overwrite_outside array' high]
          rfl
    · rw [takeEntry_drops fs fresh on same]
      refine iff_of_false (by simp) ?_
      rintro ⟨first, known, _, chksum, _⟩
      exact same (chksum.trans (tracks.opened first known).2.symm)
  · rw [takeEntry_volume fs fresh volume.1 volume.2.1 volume.2.2]
    exact iff_of_false (by simp) fun overruns => overruns.goesOn.not_volume volume
  · rw [takeEntry_short fs fresh short]
    exact iff_of_false (by simp) fun overruns => short.2.1 overruns.goesOn.2.1

/-- Behind an entry that neither opens nor drops a name the same one is open. -/
theorem Tracks.keep (tracks : Tracks es s) (not : ¬e.Opens)
    (keeps : ∀ first, OpenName es first → DirEntry.Keeps first e) : Tracks (es ++ [e]) s := by
  have same (first : DirEntry) : OpenName (es ++ [e]) first ↔ OpenName es first := by
    rw [openName_append]
    exact ⟨fun either => (either.resolve_left fun opens => not opens.1).1,
      fun known => .inr ⟨known, keeps first known⟩⟩
  refine ⟨fun first known => tracks.opened first ((same first).mp known), fun name some => ?_,
    tracks.entry⟩
  obtain ⟨first, known, array⟩ := tracks.array name some
  exact ⟨first, (same first).mpr known, array⟩

/-- Behind an entry that drops the name none is open. -/
theorem Tracks.drop (not : ¬e.Opens) (drops : ∀ first, OpenName es first → ¬DirEntry.Keeps first e)
    (closed : s'.longname = none) (entry : s'.longNameEntry = none) : Tracks (es ++ [e]) s' := by
  refine ⟨fun first known => ?_, fun name some => ?_, by rw [closed, entry]; rfl⟩
  · rcases openName_append.mp known with opens | ⟨earlier, keeps⟩
    · exact absurd opens.1 not
    · exact absurd keeps (drops first earlier)
  · rw [closed] at some
    cases some

/-- Behind an entry that opens a name this one is open. -/
theorem Tracks.open_ (opens : e.Opens) {name : List Byte} (array : ArrayFor e name)
    (longname : s'.longname = some name) (chksum : s'.chksum = e.chksum)
    (entry : s'.longNameEntry.isSome) : Tracks (es ++ [e]) s' := by
  have only (first : DirEntry) : OpenName (es ++ [e]) first ↔ first = e := by
    rw [openName_append]
    exact ⟨fun either => (either.resolve_right fun kept => opens.not_keeps kept.2).2,
      fun same => .inl ⟨opens, same⟩⟩
  refine ⟨fun first known => ?_, fun name' some => ?_, by rw [longname, entry]; rfl⟩
  · obtain rfl := (only first).mp known
    exact ⟨⟨name, longname, array⟩, chksum⟩
  · obtain rfl := Option.some.inj (some.symm.trans longname)
    exact ⟨e, (only e).mpr rfl, array⟩

/-- A part of a name that fits changes the array only. -/
theorem Tracks.part (tracks : Tracks es s) (on : slot.entry.GoesOn)
    (same : slot.entry.chksum = s.chksum) {name : List Byte} (opened : s.longname = some name)
    (taken : takeEntry fs fresh slot s = some s') : Tracks es s' := by
  rw [takeEntry_part fs fresh on same opened] at taken
  split at taken
  · next some =>
    obtain ⟨name', written, rfl⟩ := Option.map_eq_some_iff.mp taken
    have kept (first : DirEntry) (array : ArrayFor first name) : ArrayFor first name' := by
      by_cases fits : slot.entry.order ≤ first.order
      · obtain ⟨name'', written', array'⟩ := overwrite_arrayFor (e := slot.entry) array some fits
        rwa [Option.some.inj (written.symm.trans written')]
      · rw [overwrite_outside array (Nat.lt_of_not_le fits)] at written
        cases written
    refine ⟨fun first known => ?_, fun name'' here => ?_, ?_⟩
    · obtain ⟨⟨before, here, array⟩, chksum⟩ := tracks.opened first known
      obtain rfl := Option.some.inj (opened.symm.trans here)
      exact ⟨⟨name', rfl, kept first array⟩, chksum⟩
    · obtain rfl := Option.some.inj here
      obtain ⟨first, known, array⟩ := tracks.array name opened
      exact ⟨first, known, kept first array⟩
    · rw [tracks.entry, opened]
      rfl
  · rw [Option.some.injEq] at taken
    subst taken
    exact tracks

/-- The name goes on behind the same entry. -/
theorem Tracks.step (tracks : Tracks es s) (taken : takeEntry fs fresh slot s = some s') :
    Tracks (es ++ [slot.entry]) s' := by
  rcases slot.entry.kinds with free | opens | on | volume | short
  · rw [takeEntry_free fs fresh free, Option.some.injEq] at taken
    subst taken
    exact tracks.keep (fun opens => opens.1 free) fun _ _ => .inl free
  · obtain ⟨name, result, array⟩ := takeEntry_opens fs fresh opens
    rw [result, Option.some.injEq] at taken
    subst taken
    exact .open_ opens array rfl rfl rfl
  · have notOpens : ¬slot.entry.Opens := fun opens => on.2.2 opens.2.2
    by_cases same : slot.entry.chksum = s.chksum
    · cases opened : s.longname with
      | none =>
        rw [takeEntry_closed fs fresh on same opened, Option.some.injEq] at taken
        subst taken
        refine .drop notOpens (fun first known _ => ?_) opened ?_
        · obtain ⟨⟨name, some, _⟩, _⟩ := tracks.opened first known
          rw [opened] at some
          cases some
        · have entry := tracks.entry
          rw [opened] at entry
          exact Option.isSome_eq_false_iff.mp entry |> Option.isNone_iff_eq_none.mp
      | some name =>
        refine Tracks.keep (tracks.part on same opened taken) notOpens fun first known => ?_
        exact .inr (.inl ⟨on, same.trans (tracks.opened first known).2⟩)
    · rw [takeEntry_drops fs fresh on same, Option.some.injEq] at taken
      subst taken
      refine .drop notOpens (fun first known keeps => ?_) rfl rfl
      rcases keeps with free | ⟨_, chksum⟩ | volume
      · exact on.1 free
      · exact same (chksum.trans (tracks.opened first known).2.symm)
      · exact on.not_volume volume
  · rw [takeEntry_volume fs fresh volume.1 volume.2.1 volume.2.2, Option.some.injEq] at taken
    subst taken
    exact tracks.keep (fun opens => volume.2.1 opens.2.1) fun _ _ => .inr (.inr volume)
  · rw [takeEntry_short fs fresh short, Option.some.injEq] at taken
    subst taken
    exact .drop (fun opens => short.2.1 opens.2.1) (fun _ _ => short.not_keeps) rfl rfl

theorem tracks_start (chksum : Byte) (resources : List Resource) :
    Tracks [] ⟨none, chksum, none, resources⟩ :=
  ⟨fun _ known => absurd known openName_nil, (fun _ some => nomatch some), rfl⟩

variable {slots : List Slot}

theorem decode_cons (taken : takeEntry fs fresh slot s = some s') :
    decode fs fresh (slot :: slots) s = decode fs fresh slots s' := by
  rw [decode, List.foldlM_cons, taken]
  rfl

theorem decode_cons_none (outside : takeEntry fs fresh slot s = none) :
    decode fs fresh (slot :: slots) s = none := by
  rw [decode, List.foldlM_cons, outside]
  rfl

/-- What is open behind all the entries. -/
theorem Tracks.decode (tracks : Tracks es s) (decoded : decode fs fresh slots s = some s') :
    Tracks (es ++ slots.map Slot.entry) s' := by
  induction slots generalizing es s with
  | nil =>
    obtain rfl := Option.some.inj decoded
    simpa using tracks
  | cons slot slots ih =>
    cases taken : takeEntry fs fresh slot s with
    | none =>
      rw [decode_cons_none taken] at decoded
      cases decoded
    | some next =>
      rw [decode_cons taken] at decoded
      simpa using ih (tracks.step taken) decoded

/-- The entries are taken without a write outside of an array, or one of them is
numbered too high. -/
theorem decode_none_iff (fs : FATFileSystem) (fresh : Memory) (tracks : Tracks es s) :
    decode fs fresh slots s = none ↔
    ∃ pre slot rest, slots = pre ++ slot :: rest ∧
      Overruns (es ++ pre.map Slot.entry) slot.entry := by
  induction slots generalizing es s with
  | nil =>
    refine iff_of_false (fun none => Option.some_ne_none _ none) ?_
    rintro ⟨pre, slot, rest, nil, _⟩
    simp at nil
  | cons slot slots ih =>
    cases taken : takeEntry fs fresh slot s with
    | none =>
      have overruns := (takeEntry_none_iff fs fresh tracks).mp taken
      exact iff_of_true (decode_cons_none taken) ⟨[], slot, slots, rfl, by simpa using overruns⟩
    | some next =>
      rw [decode_cons taken, ih (tracks.step taken)]
      constructor
      · rintro ⟨pre, other, rest, rfl, overruns⟩
        exact ⟨slot :: pre, other, rest, rfl, by simpa using overruns⟩
      · rintro ⟨pre, other, rest, whole, overruns⟩
        cases pre with
        | nil =>
          obtain ⟨rfl, rfl⟩ := List.cons.inj whole
          rw [List.map_nil, List.append_nil, ← takeEntry_none_iff fs fresh tracks,
            taken] at overruns
          cases overruns
        | cons first pre =>
          obtain ⟨rfl, rfl⟩ := List.cons.inj whole
          exact ⟨pre, other, rest, rfl, by simpa using overruns⟩

section Populate

variable {c c' : Cursor} {n : Nat}

theorem populateEntry_end (ends : c.slot.entry.name0 = 0) :
    populateEntry fs fresh (c, s) = .done (.ended c s) := by
  rw [populateEntry]
  exact if_pos ends

/-- The loop leaves the arrays within so many rounds just as the fold over the
entries does. -/
theorem loop_outside_iff : loop (populateEntry fs fresh) n (c, s) = some .outside ↔
    decode fs fresh (c.slots fs n) s = none := by
  induction n generalizing c s with
  | zero => simp [loop, Cursor.slots, decode]
  | succ n ih =>
    by_cases ends : c.slot.entry.name0 = 0
    · rw [loop_done (populateEntry_end ends), Cursor.slots, if_pos ends]
      simp [decode]
    · rw [Cursor.slots, if_neg ends]
      cases taken : takeEntry fs fresh c.slot s with
      | none =>
        have outside : populateEntry fs fresh (c, s) = .done .outside := by
          simp only [populateEntry, if_neg ends, taken]
        simp [loop_done outside, decode_cons_none taken]
      | some next =>
        rw [decode_cons taken]
        cases moved : c.advance fs with
        | «at» c' =>
          have again : populateEntry fs fresh (c, s) = .again (c', next) := by
            simp only [populateEntry, if_neg ends, taken, moved]
          rw [loop_again again]
          exact ih
        | ended c' =>
          have done : populateEntry fs fresh (c, s) = .done (.ended c' next) := by
            simp only [populateEntry, if_neg ends, taken, moved]
          simp [loop_done done, decode]
        | failed c' =>
          have done : populateEntry fs fresh (c, s) = .done (.failed c' next) := by
            simp only [populateEntry, if_neg ends, taken, moved]
          simp [loop_done done, decode]

/-- A round of the loop takes one entry. -/
theorem populateEntry_again {next : Cursor × Names}
    (again : populateEntry fs fresh (c, s) = .again next) :
    c.slot.entry.name0 ≠ 0 ∧ takeEntry fs fresh c.slot s = some next.2 ∧
      c.advance fs = .at next.1 := by
  rw [populateEntry] at again
  split at again
  · cases again
  · next goes =>
    split at again
    · cases again
    · next taken =>
      split at again
      · next moved =>
        cases again
        exact ⟨goes, taken, moved⟩
      · cases again
      · cases again

/-- Rounds that all go on take the entries they visit. -/
theorem decode_of_rounds {start reached : Cursor × Names}
    (rounds : Rounds (populateEntry fs fresh) n start reached) :
    decode fs fresh (start.1.slots fs n) start.2 = some reached.2 := by
  induction rounds with
  | none s => rfl
  | more step _ ih =>
    obtain ⟨goes, taken, moved⟩ := populateEntry_again step
    rw [Cursor.slots, if_neg goes, moved, decode_cons taken]
    exact ih

end Populate

end Orcos.Source.Fat
