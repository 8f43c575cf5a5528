import Orcos.Source.Files.Directory

/-!
# Reading a directory into a buffer

Source: src/source/filesystem/Directory.cc, `readBytes`.

An entry is written when it fits. Where one does not, the rest of the buffer is
marked from a place on that lies as far behind the pointer as the pointer lies
behind the start of the buffer.
-/
namespace Orcos.Guarantees.DirectoryReads
open Orcos.Source Orcos.Source.Files Orcos.Lib.ByteMemory

/-- The bytes of the entries in a buffer. -/
def recordsLength (rs : List Resource) : Nat := (rs.map Resource.recordLength).sum

/-- The entries that fit into a buffer behind a position. -/
def fitting (length : Nat) : Nat → List Resource → List Resource
  | _, [] => []
  | pos, r :: rs =>
    if pos + r.recordLength < length then r :: fitting length (pos + r.recordLength) rs else []

@[simp] theorem recordsLength_nil : recordsLength [] = 0 := rfl

@[simp] theorem recordsLength_cons {r : Resource} {rs : List Resource} :
    recordsLength (r :: rs) = r.recordLength + recordsLength rs := List.sum_cons

section Inside

/-- The bytes of a write lie in a buffer of this length. -/
def Inside (length : Nat) (write : Write) : Prop :=
  ∀ i < write.bytes.length, write.offset + i < length

/-- The names of entries that lie one behind the other end in the buffer. -/
def NamesFit (length : Nat) : Nat → List Resource → Prop
  | _, [] => True
  | pos, r :: rs => pos + 23 + r.namelen ≤ length ∧ NamesFit length (pos + r.recordLength) rs

/-- The contract of a call: it writes only inside the buffer and reports no more than
its length. -/
def KeepsBuffer (d : Directory) (length : Nat) : Prop :=
  (∀ write ∈ (d.readBytes length).2.1.writes, Inside length write) ∧
    (d.readBytes length).2.1.length ≤ length

/-- Nothing is marked behind an entry, or no more than what is left. -/
def MarksInside (length : Nat) (rest out : List Resource) : Prop :=
  out = rest ∨ out = [] ∨ recordsLength out + 1 = length

variable {length pos : Nat} {r : Resource} {rs : List Resource}

theorem marks_inside_iff (inside : pos < length) (word : length < 2 ^ 32) :
    Inside length ⟨pos + pos, List.replicate (wordSub (wordSub length pos) 1) 0xff⟩ ↔
      pos ≤ 1 ∨ pos + 1 = length := by
  have left : wordSub (wordSub length pos) 1 = length - pos - 1 := by
    rw [wordSub_eq (Nat.le_of_lt inside) word, wordSub_eq (by omega) (by omega)]
  unfold Inside
  rw [left, List.length_replicate]
  constructor
  · intro all
    by_contra other
    have last := all (length - pos - 2) (by omega)
    simp only at last
    omega
  · intro either i below
    simp only
    omega

/-- An entry that fits is written inside the buffer but for a name that is too
long. -/
theorem writes_inside_iff (room : pos + r.recordLength < length) :
    (∀ write ∈ r.writes pos, Inside length write) ↔ pos + 23 + r.namelen ≤ length := by
  have size : entrySize ≤ r.recordLength := entrySize_le
  rw [entrySize] at size
  simp only [Resource.writes, List.mem_cons, List.not_mem_nil, or_false, forall_eq_or_imp,
    forall_eq, Inside, length_fields, length_name]
  constructor
  · rintro ⟨_, name⟩
    rcases Nat.eq_zero_or_pos r.namelen with none | some
    · omega
    · have last := name (r.namelen - 1) (by omega)
      omega
  · intro fits
    exact ⟨fun i below => by omega, fun i below => by omega⟩

/-- What the loop writes from a position on. -/
theorem readEntries_inside_iff (word : length < 2 ^ 32) (small : pos + recordsLength rs < 2 ^ 32)
    (inside : pos < length) :
    (∀ write ∈ (readEntries length rs pos pos).writes, Inside length write) ↔
      NamesFit length pos (fitting length pos rs) ∧
        (fitting length pos rs = rs ∨ pos + recordsLength (fitting length pos rs) ≤ 1 ∨
          pos + recordsLength (fitting length pos rs) + 1 = length) := by
  induction rs generalizing pos with
  | nil => simp [readEntries, fitting, NamesFit]
  | cons r rs ih =>
    rw [recordsLength_cons] at small
    have next : wordAdd pos r.recordLength = pos + r.recordLength := wordAdd_eq (by omega)
    by_cases room : pos + r.recordLength < length
    · rw [readEntries_goes (by omega), next, fitting, if_pos room]
      simp only [List.mem_append, or_imp, forall_and, NamesFit, recordsLength_cons,
        List.cons.injEq, true_and]
      rw [writes_inside_iff room, ih (by omega) room, and_assoc]
      have size : entrySize ≤ r.recordLength := entrySize_le
      simp only [Nat.add_assoc]
    · rw [readEntries_stops (by omega), fitting, if_neg room]
      simp only [List.mem_singleton, forall_eq, marks_inside_iff inside word, NamesFit, true_and,
        recordsLength_nil, Nat.add_zero, List.nil_eq, reduceCtorEq, false_or]

/-- A call keeps to the buffer exactly when it has room for all the entries that
are left or for none, or leaves one byte, and the names of the entries written end in
the buffer. -/
theorem readBytes_keepsBuffer_iff {d : Directory} (word : length < 2 ^ 32)
    (small : recordsLength d.remaining < 2 ^ 32) :
    KeepsBuffer d length ↔
      NamesFit length 0 (fitting length 0 d.remaining) ∧
        MarksInside length d.remaining (fitting length 0 d.remaining) := by
  unfold KeepsBuffer MarksInside
  rw [Directory.readBytes]
  split
  · next none =>
    have nothing : fitting length 0 d.remaining = [] := by
      cases d.remaining with
      | nil => rfl
      | cons r rs => exact if_neg (by omega)
    rw [nothing]
    simp [NamesFit]
  · next some =>
    have reported := length_readEntries d.remaining 0 (show 0 < length by omega)
    rw [and_iff_left (Nat.le_of_lt reported),
      readEntries_inside_iff word (by omega) (by omega), Nat.zero_add]
    have few : recordsLength (fitting length 0 d.remaining) ≤ 1 ↔
        fitting length 0 d.remaining = [] := by
      cases fitting length 0 d.remaining with
      | nil => simp
      | cons r rs =>
        have size : entrySize ≤ r.recordLength := entrySize_le
        rw [entrySize] at size
        simp only [recordsLength_cons, reduceCtorEq, iff_false]
        omega
    rw [few]

/-- A directory with the directories `a` and `b`. -/
def twoDirectories : Directory :=
  ⟨[⟨[0x61], 1, cDirectory, 0, 0, 0⟩, ⟨[0x62], 2, cDirectory, 0, 0, 0⟩], 0⟩

theorem readBytes_keepsBuffer_iff_twoDirectories :
    KeepsBuffer twoDirectories 40 ↔
      NamesFit 40 0 (fitting 40 0 twoDirectories.remaining) ∧
        MarksInside 40 twoDirectories.remaining (fitting 40 0 twoDirectories.remaining) :=
  readBytes_keepsBuffer_iff (by decide) (by decide)

/-- With room for one of two entries, bytes 56 to 66 of a buffer of 40 are written. -/
theorem marks_behind_buffer : ¬∀ d length, length < 2 ^ 32 → KeepsBuffer d length := by
  intro keeps
  have all := (keeps twoDirectories 40 (by decide)).1 ⟨56, List.replicate 11 0xff⟩ (by decide)
  exact absurd (all 0 (by decide)) (by decide)

end Inside

section Delivered

/-- A call with a buffer of a length, and what the buffer held before. -/
structure Call where
  length : Nat
  buffer : Memory

/-- The room for an entry with its whole name. -/
def needed (r : Resource) : Nat := entrySize + (r.name.length + 1 + 3) / 4 * 4

/-- The entry of a resource, with its whole name before the place where the length of
the name puts the next entry. -/
structure RecordAt (m : Memory) (o : Nat) (r : Resource) : Prop where
  id : read32 m (o + 12) = r.id.toNat
  type : read32 m (o + 16) = r.type.toNat
  name : bytesAt m (o + 23) (r.name.length + 1) = r.name ++ [0]
  whole : r.name.length ≤ (m (o + 22)).toNat

/-- The entries of the resources, one behind the other as their lengths say. -/
inductive Records (m : Memory) : Nat → List Resource → Nat → Prop
  | none (o : Nat) : Records m o [] o
  | more {o : Nat} {r : Resource} {rs : List Resource} {e : Nat} (first : RecordAt m o r)
      (rest : Records m (o + entrySize + (m (o + 22)).toNat) rs e) : Records m o (r :: rs) e

/-- Calls that deliver the resources and then report the end. -/
inductive Delivers : Directory → List Call → List Resource → Prop
  | ended {d : Directory} {c : Call} {cs : List Call}
      (none : (d.readBytes c.length).2.1.length = 0) : Delivers d (c :: cs) []
  | more {d : Directory} {c : Call} {cs : List Call} {rs rs' : List Resource}
      (some : 0 < (d.readBytes c.length).2.1.length)
      (records : Records (stored (d.readBytes c.length).2.1.writes c.buffer) 0 rs
        (d.readBytes c.length).2.1.length)
      (rest : Delivers (d.readBytes c.length).1 cs rs') : Delivers d (c :: cs) (rs ++ rs')

/-- The property holds at every one of the calls. -/
def Along (p : Directory → Call → Prop) : Directory → List Call → Prop
  | _, [] => True
  | d, c :: cs => p d c ∧ Along p (d.readBytes c.length).1 cs

/-- The buffer has room for the next entry, if there is one. -/
def Fits (d : Directory) (c : Call) : Prop := ∀ r ∈ d.remaining.head?, needed r ≤ c.length

/-- The buffer is longer than the next entry, if there is one. -/
def Exceeds (d : Directory) (c : Call) : Prop := ∀ r ∈ d.remaining.head?, needed r < c.length

variable {m m' : Memory} {o pos length : Nat} {r : Resource} {rs rs' : List Resource}

theorem recordLength_of_short (short : r.name.length ≤ 251) : r.recordLength = needed r := by
  rw [Resource.recordLength, Resource.namelen2, Resource.namelen, needed]
  omega

/-- The byte for the length of a name tells it only for names of at most 251
characters. -/
theorem short_iff : r.name.length ≤ (BitVec.ofNat 8 r.namelen2).toNat ↔ r.name.length ≤ 251 := by
  rw [BitVec.toNat_ofNat, Resource.namelen2, Resource.namelen]
  omega

theorem namelen2_of_short (short : r.name.length ≤ 251) :
    (BitVec.ofNat 8 r.namelen2).toNat = r.namelen2 := by
  rw [BitVec.toNat_ofNat, Resource.namelen2, Resource.namelen]
  omega

/-- Writes from an offset on leave what lies before it. -/
theorem stored_before {writes : List Write} (behind : ∀ write ∈ writes, o ≤ write.offset)
    (m : Memory) {x : Nat} (before : x < o) : stored writes m x = m x := by
  induction writes generalizing m with
  | nil => rfl
  | cons write writes ih =>
    have first := behind write (by simp)
    rw [stored, List.foldl_cons, ← stored, ih fun w member => behind w (by simp [member])]
    exact copyInto_changedIn m write.offset write.bytes x (by omega)

theorem stored_append (first second : List Write) (m : Memory) :
    stored (first ++ second) m = stored second (stored first m) := List.foldl_append

/-- The loop writes nothing before its pointer. -/
theorem readEntries_behind (length : Nat) (rs : List Resource) (bytes pos : Nat) :
    ∀ write ∈ (readEntries length rs bytes pos).writes, bytes ≤ write.offset := by
  induction rs generalizing bytes pos with
  | nil => simp [readEntries]
  | cons r rs ih =>
    by_cases full : length ≤ wordAdd pos r.recordLength
    · rw [readEntries_stops full]
      simp
    · rw [readEntries_goes full]
      simp only [List.mem_append]
      rintro write (here | later)
      · simp only [Resource.writes, List.mem_cons, List.not_mem_nil, or_false] at here
        rcases here with rfl | rfl
        · exact Nat.le_refl _
        · exact Nat.le_add_right _ _
      · exact Nat.le_trans (Nat.le_add_right _ _) (ih _ _ write later)

/-- What a reader finds in the bytes of one entry. -/
theorem fields_written (m : Memory) (o : Nat) (r : Resource) :
    read32 (stored (r.writes o) m) (o + 12) = r.id.toNat ∧
      read32 (stored (r.writes o) m) (o + 16) = r.type.toNat ∧
      stored (r.writes o) m (o + 22) = BitVec.ofNat 8 r.namelen2 ∧
      bytesAt (stored (r.writes o) m) (o + 23) r.namelen = strncpy r.name r.namelen := by
  have byte (i : Nat) (below : i < r.fields.length) :
      stored (r.writes o) m (o + i) = r.fields[i] := by
    have few : i < 23 := by rwa [length_fields] at below
    exact (copyInto_changedIn _ (o + 23) _ (o + i) (by omega)).trans (copyInto_inside below)
  have id := r.id.isLt
  have type := r.type.isLt
  refine ⟨?_, ?_, byte 22 (by simp), ?_⟩
  · rw [read32, byte 12 (by simp), Nat.add_assoc, byte 13 (by simp), Nat.add_assoc,
      byte 14 (by simp), Nat.add_assoc, byte 15 (by simp)]
    simp only [Resource.fields, le32, List.cons_append, List.nil_append, List.getElem_cons_succ,
      List.getElem_cons_zero, BitVec.toNat_ofNat]
    omega
  · rw [read32, byte 16 (by simp), Nat.add_assoc, byte 17 (by simp), Nat.add_assoc,
      byte 18 (by simp), Nat.add_assoc, byte 19 (by simp)]
    simp only [Resource.fields, le32, List.cons_append, List.nil_append, List.getElem_cons_succ,
      List.getElem_cons_zero, BitVec.toNat_ofNat]
    omega
  · have written := bytesAt_copyInto (copyInto m o r.fields) (o + 23) (strncpy r.name r.namelen)
    rw [length_name] at written
    exact written

/-- The loop at an entry that fits: what a reader finds of it at the end. -/
theorem entry_delivered (rs : List Resource) (small : pos + r.recordLength < 2 ^ 32)
    (room : pos + r.recordLength < length) (m : Memory) :
    let out := stored (readEntries length (r :: rs) pos pos).writes m
    out (pos + 22) = BitVec.ofNat 8 r.namelen2 ∧ (RecordAt out pos r ↔ r.name.length ≤ 251) := by
  have next : wordAdd pos r.recordLength = pos + r.recordLength := wordAdd_eq small
  obtain ⟨id, type, lead, name⟩ := fields_written m pos r
  have size : entrySize ≤ r.recordLength := entrySize_le
  rw [entrySize] at size
  rw [readEntries_goes (by omega), next]
  simp only [stored_append]
  generalize stored (r.writes pos) m = m₁ at id type lead name
  have kept (x : Nat) (before : x < pos + r.recordLength) :=
    stored_before (readEntries_behind length rs (pos + r.recordLength) (pos + r.recordLength)) m₁
      before
  generalize stored _ m₁ = out at kept
  have lead' : out (pos + 22) = BitVec.ofNat 8 r.namelen2 := by rw [kept _ (by omega), lead]
  refine ⟨lead', fun record => short_iff.mp (by rw [← lead']; exact record.whole), fun short => ?_⟩
  have agree : AgreeOn m₁ out pos r.recordLength := fun x _ below => kept x below
  have exact_ : r.namelen = r.name.length + 1 := by
    rw [Resource.namelen]
    omega
  have held : r.namelen ≤ r.namelen2 + 1 := namelen_le (by omega)
  have text : strncpy r.name r.namelen = r.name ++ [0] := by
    rw [strncpy, exact_, List.take_of_length_le (by omega), if_pos (by omega)]
  refine ⟨?_, ?_, ?_, ?_⟩
  · rw [agree.read32 (by omega) (by omega), id]
  · rw [agree.read32 (by omega) (by omega), type]
  · have rest : AgreeOn m₁ out (pos + 23) (r.name.length + 1) := fun x low below => by
      rw [Resource.recordLength, entrySize] at kept
      exact kept x (by omega)
    rw [rest.bytesAt, ← exact_, name, text]
  · rw [lead']
    exact short_iff.mpr short

/-- Where the loop ends, and after how many entries. -/
theorem readEntries_eq (length : Nat) (small : pos + recordsLength rs < 2 ^ 32) (bytes : Nat) :
    (readEntries length rs bytes pos).length = pos + recordsLength (fitting length pos rs) ∧
      (readEntries length rs bytes pos).count = (fitting length pos rs).length := by
  induction rs generalizing bytes pos with
  | nil => exact ⟨rfl, rfl⟩
  | cons r rs ih =>
    rw [recordsLength_cons] at small
    have next : wordAdd pos r.recordLength = pos + r.recordLength := wordAdd_eq (by omega)
    by_cases room : pos + r.recordLength < length
    · obtain ⟨reported, count⟩ := ih
        (show pos + r.recordLength + recordsLength rs < 2 ^ 32 by omega) (bytes + r.recordLength)
      rw [readEntries_goes (by omega), fitting, if_pos room, next]
      simp only [reported, count, recordsLength_cons, List.length_cons, and_true]
      omega
    · rw [readEntries_stops (by omega), fitting, if_neg room]
      exact ⟨rfl, rfl⟩

/-- Entries with names of at most 251 characters can be read one after the other. -/
theorem records_of_short (small : pos + recordsLength rs < 2 ^ 32) (m : Memory)
    (short : ∀ r ∈ rs, r.name.length ≤ 251) :
    Records (stored (readEntries length rs pos pos).writes m) pos (fitting length pos rs)
      (readEntries length rs pos pos).length := by
  induction rs generalizing pos m with
  | nil => exact .none pos
  | cons r rs ih =>
    have few := short r (by simp)
    rw [recordsLength_cons] at small
    have next : wordAdd pos r.recordLength = pos + r.recordLength := wordAdd_eq (by omega)
    by_cases room : pos + r.recordLength < length
    · obtain ⟨lead, record⟩ := entry_delivered rs (by omega) room m
      rw [fitting, if_pos room]
      refine .more (record.mpr few) ?_
      rw [lead, namelen2_of_short few, readEntries_goes (by omega), next]
      simp only [stored_append]
      have rest := ih (show pos + r.recordLength + recordsLength rs < 2 ^ 32 by omega)
        (stored (r.writes pos) m) fun r' member => short r' (by simp [member])
      rwa [Resource.recordLength, ← Nat.add_assoc] at rest ⊢
    · rw [readEntries_stops (by omega), fitting, if_neg room]
      exact .none pos

theorem Records.ends_nil {e : Nat} (records : Records m o [] e) : e = o := by
  cases records
  rfl

theorem Records.le {e : Nat} (records : Records m o rs e) : o + 24 * rs.length ≤ e := by
  induction records with
  | none o => exact Nat.le_refl _
  | more first rest ih =>
    rw [entrySize] at ih
    rw [List.length_cons]
    omega

/-- What can be read are the entries that were written, and their names are short. -/
theorem short_of_records (small : pos + recordsLength (rs ++ rs') < 2 ^ 32) (m : Memory)
    (records : Records (stored (readEntries length (rs ++ rs') pos pos).writes m) pos rs
      (readEntries length (rs ++ rs') pos pos).length) :
    rs = fitting length pos (rs ++ rs') ∧ ∀ r ∈ rs, r.name.length ≤ 251 := by
  induction rs generalizing pos m with
  | nil =>
    rw [List.nil_append] at records ⊢ small
    have ended := records.ends_nil
    rw [(readEntries_eq length small pos).1] at ended
    refine ⟨?_, by simp⟩
    cases rest : fitting length pos rs' with
    | nil => rfl
    | cons r rs =>
      have size : entrySize ≤ r.recordLength := entrySize_le
      rw [rest, recordsLength_cons] at ended
      rw [entrySize] at size
      omega
  | cons r rs ih =>
    have advance := records.le
    rw [List.cons_append, recordsLength_cons] at small
    have next : wordAdd pos r.recordLength = pos + r.recordLength := wordAdd_eq (by omega)
    rw [List.cons_append] at records advance ⊢
    by_cases room : pos + r.recordLength < length
    · obtain ⟨lead, record⟩ := entry_delivered (rs ++ rs') (by omega) room m
      cases records with
      | more first rest =>
        have few := record.mp first
        rw [lead, namelen2_of_short few, readEntries_goes (by omega), next] at rest
        simp only [stored_append] at rest
        have place : pos + entrySize + r.namelen2 = pos + r.recordLength := Nat.add_assoc _ _ _
        rw [place] at rest
        obtain ⟨same, all⟩ := ih (by omega) _ rest
        rw [fitting, if_pos room, ← same]
        refine ⟨rfl, fun r' member => ?_⟩
        rcases List.mem_cons.mp member with rfl | later
        · exact few
        · exact all r' later
    · rw [readEntries_stops (by omega), List.length_cons] at advance
      simp only at advance
      omega

theorem fitting_append (length pos : Nat) (rs : List Resource) :
    fitting length pos rs ++ rs.drop (fitting length pos rs).length = rs := by
  induction rs generalizing pos with
  | nil => rfl
  | cons r rs ih =>
    rw [fitting]
    split
    · rw [List.cons_append, List.length_cons, List.drop_succ_cons, ih]
    · rfl

/-- What a call leaves of a directory whose entries can be counted. -/
theorem readBytes_remaining {d : Directory} (length : Nat)
    (small : recordsLength d.content < 2 ^ 32)
    (placed : d.position ≤ d.content.length) :
    (d.readBytes length).1.content = d.content ∧
      (d.readBytes length).1.position ≤ d.content.length ∧
      (d.readBytes length).1.remaining =
        d.remaining.drop (fitting length 0 d.remaining).length := by
  have few (rs : List Resource) : 24 * rs.length ≤ recordsLength rs := by
    induction rs with
    | nil => exact Nat.le_refl _
    | cons r rs ih =>
      have size : entrySize ≤ r.recordLength := entrySize_le
      rw [entrySize] at size
      rw [recordsLength_cons, List.length_cons]
      omega
  have count := few d.content
  have whole := congrArg List.length (fitting_append length 0 d.remaining)
  have left : d.remaining.length = d.content.length - d.position := List.length_drop
  rw [List.length_append, List.length_drop] at whole
  rw [Directory.readBytes]
  split
  · next none =>
    have nothing : fitting length 0 d.remaining = [] := by
      cases d.remaining with
      | nil => rfl
      | cons r rs => exact if_neg (by omega)
    rw [nothing]
    exact ⟨rfl, placed, rfl⟩
  · have part : recordsLength d.remaining ≤ recordsLength d.content := by
      have parts : recordsLength (d.content.take d.position) + recordsLength d.remaining =
          recordsLength d.content := by
        rw [recordsLength, recordsLength, ← List.sum_append, ← List.map_append]
        exact congrArg recordsLength (List.take_append_drop d.position d.content)
      omega
    have counted := (readEntries_eq length
      (show 0 + recordsLength d.remaining < 2 ^ 32 by omega) 0).2
    have next : wordAdd d.position (readEntries length d.remaining 0 0).count =
        d.position + (fitting length 0 d.remaining).length := by
      rw [counted, wordAdd_eq (by omega)]
    refine ⟨rfl, ?_, ?_⟩
    · simp only [next]
      omega
    · exact (congrArg (d.content.drop ·) next).trans List.drop_drop.symm

theorem readBytes_reported {d : Directory} (length : Nat)
    (small : recordsLength d.remaining < 2 ^ 32) :
    (d.readBytes length).2.1.length = recordsLength (fitting length 0 d.remaining) := by
  rw [Directory.readBytes]
  split
  · next none =>
    cases d.remaining with
    | nil => exact Nat.lt_one_iff.mp none
    | cons r rs =>
      rw [fitting, if_neg (by omega)]
      exact Nat.lt_one_iff.mp none
  · exact (readEntries_eq length (by omega) 0).1.trans (Nat.zero_add _)

theorem recordsLength_remaining_le (d : Directory) :
    recordsLength d.remaining ≤ recordsLength d.content := by
  have parts : recordsLength (d.content.take d.position) + recordsLength d.remaining =
      recordsLength d.content := by
    rw [recordsLength, recordsLength, ← List.sum_append, ← List.map_append]
    exact congrArg recordsLength (List.take_append_drop d.position d.content)
  omega

/-- A call that is not the last one leaves its entries in the buffer. -/
theorem readBytes_records {d : Directory} {rs rs' : List Resource} (m : Memory)
    (small : recordsLength d.remaining < 2 ^ 32) (whole : d.remaining = rs ++ rs')
    (records : Records (stored (d.readBytes length).2.1.writes m) 0 rs
      (d.readBytes length).2.1.length) (some : 0 < (d.readBytes length).2.1.length) :
    rs = fitting length 0 d.remaining ∧ ∀ r ∈ rs, r.name.length ≤ 251 := by
  have room : ¬length < 1 := by
    intro none
    rw [Directory.readBytes, if_pos none] at some
    exact absurd some (Nat.not_lt.mpr (Nat.le_of_lt_succ none))
  rw [Directory.readBytes, if_neg room] at records
  simp only [whole] at records small ⊢
  exact short_of_records (by omega) m records

/-- At the end nothing more is to be delivered. -/
theorem along_of_ended {p : Directory → Call → Prop} (holds : ∀ d c, d.remaining = [] → p d c)
    {d : Directory} {cs : List Call} (small : recordsLength d.content < 2 ^ 32)
    (placed : d.position ≤ d.content.length) (ended : d.remaining = []) : Along p d cs := by
  induction cs generalizing d with
  | nil => trivial
  | cons c cs ih =>
    obtain ⟨content, position, rest⟩ := readBytes_remaining c.length small placed
    exact ⟨holds d c ended, ih (by rwa [content]) (by rwa [content])
      (by rw [rest, ended, List.drop_nil])⟩

theorem exceeds_of_ended (d : Directory) (c : Call) (ended : d.remaining = []) : Exceeds d c := by
  intro r first
  rw [ended] at first
  cases first

/-- With short names and room to spare the calls deliver all entries. -/
theorem delivers_of_short {d : Directory} {cs : List Call}
    (small : recordsLength d.content < 2 ^ 32) (placed : d.position ≤ d.content.length)
    (enough : d.remaining.length < cs.length) (short : ∀ r ∈ d.remaining, r.name.length ≤ 251)
    (exceeds : Along Exceeds d cs) : Delivers d cs d.remaining := by
  induction cs generalizing d with
  | nil => exact absurd enough (Nat.not_lt_zero _)
  | cons c cs ih =>
    obtain ⟨content, position, rest⟩ := readBytes_remaining c.length small placed
    have part := recordsLength_remaining_le d
    have reported := readBytes_reported (d := d) c.length (by omega)
    have split := fitting_append c.length 0 d.remaining
    cases first : d.remaining with
    | nil =>
      refine .ended ?_
      rw [reported, first]
      rfl
    | cons r rs =>
      have few := short r (by simp [first])
      have more : 0 + r.recordLength < c.length := by
        rw [recordLength_of_short few, Nat.zero_add]
        exact exceeds.1 r (by rw [first]; rfl)
      have size : entrySize ≤ r.recordLength := entrySize_le
      rw [entrySize] at size
      have some : 0 < (d.readBytes c.length).2.1.length := by
        rw [reported, first, fitting, if_pos more, recordsLength_cons]
        omega
      have records : Records (stored (d.readBytes c.length).2.1.writes c.buffer) 0
          (fitting c.length 0 d.remaining) (d.readBytes c.length).2.1.length := by
        rw [Directory.readBytes, if_neg (by omega)]
        exact records_of_short (by omega) c.buffer short
      rw [← first, ← split, ← rest]
      refine .more some records (ih (by rwa [content]) (by rwa [content]) ?_ ?_ exceeds.2)
      · rw [rest, List.length_drop, first, fitting, if_pos more, List.length_cons,
          List.length_cons]
        rw [first, List.length_cons, List.length_cons] at enough
        omega
      · intro r' member
        rw [rest] at member
        exact short r' (List.mem_of_mem_drop member)

/-- Calls that deliver all entries met short names, and room to spare. -/
theorem short_of_delivers {d : Directory} {cs : List Call}
    (small : recordsLength d.content < 2 ^ 32) (placed : d.position ≤ d.content.length)
    (delivers : Delivers d cs d.remaining) :
    (∀ r ∈ d.remaining, r.name.length ≤ 251) ∧ Along Exceeds d cs := by
  generalize whole : d.remaining = rs at delivers
  induction delivers with
  | @ended d c cs none =>
    refine ⟨by simp, along_of_ended exceeds_of_ended small placed whole⟩
  | @more d c cs rs rs' some records rest ih =>
    have part := recordsLength_remaining_le d
    obtain ⟨content, position, left⟩ := readBytes_remaining c.length small placed
    obtain ⟨same, short⟩ := readBytes_records c.buffer (by omega) whole records some
    have behind : (d.readBytes c.length).1.remaining = rs' := by
      rw [left, ← same, whole, List.drop_left]
    obtain ⟨short', exceeds⟩ := ih (by rwa [content]) (by rwa [content]) behind
    have all : ∀ r ∈ rs ++ rs', r.name.length ≤ 251 := fun r member =>
      (List.mem_append.mp member).elim (short r) (short' r)
    refine ⟨all, fun r first => ?_, exceeds⟩
    rw [readBytes_reported _ (by omega)] at some
    rw [Option.mem_def, whole] at first
    obtain ⟨rest', cons⟩ := List.head?_eq_some_iff.mp first
    have few := all r (by rw [cons]; simp)
    rw [whole, cons, fitting] at some
    split at some
    · next room =>
      rw [← recordLength_of_short few]
      omega
    · exact absurd some (by simp)

/-- Enough calls deliver all of a directory and then report its end exactly when no
name is longer than 251 characters and each buffer is longer than the next entry. -/
theorem readBytes_delivers_iff {d : Directory} {cs : List Call}
    (small : recordsLength d.content < 2 ^ 32) (enough : d.content.length < cs.length) :
    Delivers d.resetPosition cs d.content ↔
      (∀ r ∈ d.content, r.name.length ≤ 251) ∧ Along Exceeds d.resetPosition cs := by
  have all : d.resetPosition.remaining = d.content := List.drop_zero
  have start : d.resetPosition.position ≤ d.resetPosition.content.length := Nat.zero_le _
  constructor
  · intro delivers
    rw [← all] at delivers ⊢
    exact short_of_delivers small start delivers
  · rintro ⟨short, exceeds⟩
    rw [← all] at short enough ⊢
    exact delivers_of_short small start enough short exceeds

/-- Three calls with buffers of 40 bytes. -/
def threeCalls : List Call := List.replicate 3 ⟨40, fun _ => 0⟩

theorem readBytes_delivers_iff_twoDirectories :
    Delivers twoDirectories.resetPosition threeCalls twoDirectories.content ↔
      (∀ r ∈ twoDirectories.content, r.name.length ≤ 251) ∧
        Along Exceeds twoDirectories.resetPosition threeCalls :=
  readBytes_delivers_iff (by decide) (by decide)

/-- A resource with a name of 252 characters. -/
def longEntry : Resource := ⟨List.replicate 252 0x61, 1, cDirectory, 0, 0, 0⟩

theorem fits_of_content {d : Directory} {r : Resource} (content : d.content = [r])
    (long : r.name.length = 252) (buffer : Memory) : Fits d ⟨512, buffer⟩ := by
  intro r' first
  have member : r' ∈ [r] := by
    rw [← content]
    exact List.mem_of_mem_drop (List.mem_of_mem_head? first)
  rw [List.mem_singleton.mp member, needed, long]
  exact (by decide : entrySize + (252 + 1 + 3) / 4 * 4 ≤ 512)

/-- The byte for the length of this name is zero. -/
theorem long_name_not_delivered :
    ¬∀ (d : Directory) (cs : List Call), recordsLength d.content < 2 ^ 32 →
      d.content.length < cs.length → Along Fits d.resetPosition cs →
        Delivers d.resetPosition cs d.content := by
  intro delivers
  obtain ⟨d, r, whole, long⟩ : ∃ (d : Directory) (r : Resource), d.content = [r] ∧
      r.name.length = 252 := ⟨⟨[longEntry], 0⟩, longEntry, rfl, List.length_replicate⟩
  have most : r.namelen2 ≤ 256 := namelen2_le
  have small : recordsLength d.content < 2 ^ 32 := by
    rw [whole, recordsLength_cons, recordsLength_nil, Resource.recordLength, entrySize]
    omega
  have start : d.resetPosition.position ≤ d.resetPosition.content.length := Nat.zero_le _
  obtain ⟨content, _⟩ := readBytes_remaining (d := d.resetPosition) 512 small start
  have all := delivers d [⟨512, fun _ => 0⟩, ⟨512, fun _ => 0⟩] small
    (by rw [whole]; exact (by decide : 1 < 2))
    ⟨fits_of_content (d := d.resetPosition) whole long _,
      fits_of_content (content.trans whole) long _, trivial⟩
  have short := (short_of_delivers (d := d.resetPosition) small start all).1 r
    (by simp [Directory.remaining, Directory.resetPosition, whole])
  omega

end Delivered

end Orcos.Guarantees.DirectoryReads
