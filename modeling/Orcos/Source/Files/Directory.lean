import Orcos.Lib.ByteMemory
import Orcos.Source.Alignment
import Orcos.Lib.Parts

/-!
# Reading a directory

Source: src/source/filesystem/Directory.cc, `readBytes`; src/library/inc/orcos_types.h,
`Directory_Entry_t`; src/source/inc/stringtools.cc, `strncpy`.

A name is the list of its characters, without the zero behind them. What a call
writes is kept as the blocks it copies, at their offsets from the start of the
caller's buffer; the fields of an entry are one block.
-/
namespace Orcos.Source.Files
open Lib.ByteMemory

abbrev Byte := BitVec 8

def cDirectory : BitVec 32 := 1 <<< 0
def cFile : BitVec 32 := 1 <<< 4

/-- A resource as far as it is described to a reader. The last three fields are those
of a file. -/
structure Resource where
  name : List Byte
  id : BitVec 32
  type : BitVec 32
  filesize : BitVec 32
  flags : BitVec 32
  dateTime : BitVec 32
  deriving DecidableEq

/-- The state of a `Directory`. -/
structure Directory where
  content : List Resource
  position : Nat
  deriving DecidableEq

/-- Bytes that are copied to an offset. -/
structure Write where
  offset : Nat
  bytes : List Byte
  deriving DecidableEq

/-- `sizeof(Directory_Entry_t)`; the name starts one byte before the end. -/
def entrySize : Nat := 24

def strncpy (src : List Byte) (maxChars : Nat) : List Byte :=
  src.take maxChars ++ if src.length < maxChars then [0] else []

/-- The bytes of a word. -/
def le32 (v : BitVec 32) : List Byte :=
  [BitVec.ofNat 8 v.toNat, BitVec.ofNat 8 (v.toNat / 2 ^ 8), BitVec.ofNat 8 (v.toNat / 2 ^ 16),
    BitVec.ofNat 8 (v.toNat / 2 ^ 24)]

namespace Resource

variable (r : Resource)

def IsFile : Prop := r.type &&& cFile ≠ 0

instance : Decidable r.IsFile := inferInstanceAs (Decidable (_ ≠ _))

/-- The length of the name with its zero, in 16 bits. -/
def namelen : Nat := (r.name.length + 1) % 2 ^ 16

/-- The length rounded up to words, in 16 bits, and cut to 256. -/
def namelen2 : Nat := min ((r.namelen + 3) / 4 * 4 % 2 ^ 16) 256

/-- The bytes a reader has to leave for the entry. -/
def recordLength : Nat := entrySize + r.namelen2

/-- The fields of the entry up to the name; the length of the name is a byte. -/
def fields : List Byte :=
  le32 (if r.IsFile then r.flags else 0) ++ le32 (if r.IsFile then r.filesize else 0) ++
    le32 (if r.IsFile then r.dateTime else 0) ++ le32 r.id ++ le32 r.type ++
    [0, 0, BitVec.ofNat 8 r.namelen2]

def writes (bytes : Nat) : List Write :=
  [⟨bytes, r.fields⟩, ⟨bytes + 23, strncpy r.name r.namelen⟩]

end Resource

/-- What the loop of `readBytes` does: the writes, the position in the buffer at its
end and the number of entries. `bytes` is the offset the pointer is at. -/
structure Answer where
  writes : List Write
  length : Nat
  count : Nat
  deriving DecidableEq

/-- The loop over the entries. Where the next one does not fit the rest of the
buffer is marked, from a place behind the pointer on. -/
def readEntries (length : Nat) : List Resource → Nat → Nat → Answer
  | [], _, pos => ⟨[], pos, 0⟩
  | r :: rs, bytes, pos =>
    if length ≤ wordAdd pos r.recordLength then
      ⟨[⟨bytes + pos, List.replicate (wordSub (wordSub length pos) 1) 0xff⟩], pos, 0⟩
    else
      let rest := readEntries length rs (bytes + r.recordLength) (wordAdd pos r.recordLength)
      ⟨r.writes bytes ++ rest.writes, rest.length, rest.count + 1⟩

namespace Directory

variable (d : Directory)

/-- The entries that were not read so far. -/
def remaining : List Resource := d.content.drop d.position

def readBytes (length : Nat) : Directory × Answer × ErrorT :=
  if length < 1 then (d, ⟨[], length, 0⟩, cOk)
  else
    let answer := readEntries length d.remaining 0 0
    ({ d with position := wordAdd d.position answer.count }, answer, cOk)

def resetPosition : Directory := { d with position := 0 }

end Directory

/-- The buffer after the writes of a call. -/
def stored (writes : List Write) (buffer : Memory) : Memory :=
  writes.foldl (fun buffer write => copyInto buffer write.offset write.bytes) buffer

section Facts

variable {r : Resource} {rs : List Resource} {length bytes pos : Nat}

theorem length_strncpy (src : List Byte) (maxChars : Nat) :
    (strncpy src maxChars).length = min (src.length + 1) maxChars := by
  rw [strncpy, List.length_append, List.length_take]
  split
  · rw [List.length_singleton]
    omega
  · rw [List.length_nil]
    omega

@[simp] theorem length_fields : r.fields.length = 23 := by
  simp [Resource.fields, le32]

theorem length_name : (strncpy r.name r.namelen).length = r.namelen := by
  rw [length_strncpy, Resource.namelen]
  omega

theorem namelen2_le : r.namelen2 ≤ 256 := Nat.min_le_right _ _

/-- The room for a name holds it with its zero when it is not too long. -/
theorem namelen_le (short : r.namelen ≤ 257) : r.namelen ≤ r.namelen2 + 1 := by
  unfold Resource.namelen2
  omega

theorem entrySize_le : entrySize ≤ r.recordLength := Nat.le_add_right _ _

/-- Nothing is left of the buffer for the entry. -/
theorem readEntries_stops (full : length ≤ wordAdd pos r.recordLength) :
    readEntries length (r :: rs) bytes pos =
      ⟨[⟨bytes + pos, List.replicate (wordSub (wordSub length pos) 1) 0xff⟩], pos, 0⟩ := by
  rw [readEntries, if_pos full]

theorem readEntries_goes (room : ¬length ≤ wordAdd pos r.recordLength) :
    readEntries length (r :: rs) bytes pos =
      let rest := readEntries length rs (bytes + r.recordLength) (wordAdd pos r.recordLength)
      ⟨r.writes bytes ++ rest.writes, rest.length, rest.count + 1⟩ := by
  rw [readEntries, if_neg room]

/-- The length that is reported stays below the length of the buffer. -/
theorem length_readEntries (rs : List Resource) (bytes : Nat) (inside : pos < length) :
    (readEntries length rs bytes pos).length < length := by
  induction rs generalizing bytes pos with
  | nil => exact inside
  | cons r rs ih =>
    by_cases full : length ≤ wordAdd pos r.recordLength
    · rw [readEntries_stops full]
      exact inside
    · rw [readEntries_goes full]
      exact ih _ (Nat.lt_of_not_le full)

end Facts

end Orcos.Source.Files

/-! ## Character strings

Source: src/source/inc/stringtools.cc, `strncmp`, `strpos2`, `basename`.

A string is the list of its characters; none of them is zero, and the zero behind them
is what is read where the list ends. A pointer into a string is what is left of it.
-/
namespace Orcos.Source.Files
open Lib.Parts

/-- A character of a string. -/
abbrev Letter := {b : Byte // b ≠ 0}

def slash : Letter := ⟨47, by decide⟩
def dot : Letter := ⟨46, by decide⟩

/-- The character with a code. -/
def letter (code : Byte) : Letter := if some_ : code ≠ 0 then ⟨code, some_⟩ else slash

/-- The character a pointer points to. -/
def charAt : List Letter → Byte
  | [] => 0
  | c :: _ => c.1

/-- The loop of `strncmp`, which leaves the last character to compare. -/
def strncmpFrom : List Letter → List Letter → Nat → Int
  | c :: s, d :: t, n + 2 => if c = d then strncmpFrom s t (n + 1) else c.1.toNat - d.1.toNat
  | s, t, _ => (charAt s).toNat - (charAt t).toNat

def strncmp (s1 s2 : List Letter) (nameLen : Nat) : Int :=
  strncmpFrom s1 s2 (if nameLen = 0 then 255 else nameLen)

def strpos2 (s : List Letter) (c : Letter) : Nat := (s.takeWhile (· ≠ c)).length

/-- The loop of `basename`, with the last component so far. -/
def basenameFrom (base : List Letter) : List Letter → List Letter
  | [] => base
  | c :: name => basenameFrom (if c = slash then name else base) name

def basename (name : List Letter) : List Letter := basenameFrom name name

/-- `while (token[0] == '/') token++`. -/
def skipSlashes (token : List Letter) : List Letter := token.dropWhile (· = slash)

variable {s t name : List Letter} {n : Nat}

theorem charAt_eq_iff : (charAt s).toNat = (charAt t).toNat ↔ s.head? = t.head? := by
  cases s with
  | nil =>
    cases t with
    | nil => simp
    | cons d t =>
      have nonzero : d.1 ≠ 0 := d.2
      simp [charAt, BitVec.toNat_eq, eq_comm] at nonzero ⊢
      exact nonzero
  | cons c s =>
    have nonzero : c.1 ≠ 0 := c.2
    cases t with
    | nil =>
      simp [charAt, BitVec.toNat_eq] at nonzero ⊢
      exact nonzero
    | cons d t => simp [charAt, BitVec.toNat_inj, Subtype.val_inj]

theorem charAt_sub_eq_zero_iff :
    ((charAt s).toNat : Int) - (charAt t).toNat = 0 ↔ s.head? = t.head? := by
  rw [Int.sub_eq_zero, Int.ofNat_inj, charAt_eq_iff]

theorem strncmpFrom_eq_zero_iff :
    strncmpFrom s t (n + 1) = 0 ↔ s.take (n + 1) = t.take (n + 1) := by
  induction n generalizing s t with
  | zero =>
    have last : strncmpFrom s t 1 = (charAt s).toNat - (charAt t).toNat := by
      cases s <;> cases t <;> rfl
    rw [last, charAt_sub_eq_zero_iff]
    cases s <;> cases t <;> simp
  | succ n ih =>
    cases s with
    | nil =>
      change ((charAt []).toNat : Int) - (charAt t).toNat = 0 ↔ _
      rw [charAt_sub_eq_zero_iff]
      cases t <;> simp
    | cons c s =>
      cases t with
      | nil =>
        change ((charAt (c :: s)).toNat : Int) - (charAt []).toNat = 0 ↔ _
        rw [charAt_sub_eq_zero_iff]
        simp
      | cons d t =>
        rw [strncmpFrom]
        split
        · next same => simp [ih, same]
        · next other =>
          have apart : ¬c.1.toNat = d.1.toNat := fun same =>
            other (Subtype.ext (BitVec.eq_of_toNat_eq same))
          simp only [List.take_succ_cons, List.cons.injEq, other, false_and, iff_false]
          omega

/-- A comparison over the length of the second string. -/
theorem strncmp_eq_zero_iff (some_ : t ≠ []) : strncmp s t t.length = 0 ↔ s.take t.length = t := by
  obtain ⟨n, length⟩ := Nat.exists_eq_succ_of_ne_zero fun none_ =>
    some_ (List.length_eq_zero_iff.mp none_)
  rw [strncmp, length, if_neg (Nat.succ_ne_zero n), strncmpFrom_eq_zero_iff, ← Nat.succ_eq_add_one,
    ← length, List.take_length]

/-- Without a length a comparison with the empty string. -/
theorem strncmp_nil : strncmp s [] 0 = 0 ↔ s = [] := by
  have last : strncmp s [] 0 = (charAt s).toNat - (charAt []).toNat := by
    cases s <;> rfl
  rw [last, charAt_sub_eq_zero_iff]
  simp

theorem take_strpos2 (s : List Letter) (c : Letter) :
    s.take (strpos2 s c) = s.takeWhile (· ≠ c) :=
  (List.prefix_iff_eq_take.mp (List.takeWhile_prefix _)).symm

theorem drop_strpos2 (s : List Letter) (c : Letter) :
    s.drop (strpos2 s c) = s.dropWhile (· ≠ c) :=
  calc s.drop (strpos2 s c)
      _ = (s.takeWhile (· ≠ c) ++ s.dropWhile (· ≠ c)).drop (strpos2 s c) := by
        rw [List.takeWhile_append_dropWhile]
      _ = s.dropWhile (· ≠ c) := List.drop_left

theorem skipSlashes_head (token : List Letter) : (skipSlashes token).head? ≠ some slash := by
  intro here
  have stop := List.head?_dropWhile_not (· = slash) token
  rw [skipSlashes] at here
  rw [here] at stop
  simp at stop

/-- The components of a path: what stands between slashes. -/
def components (path : List Letter) : List (List Letter) := parts slash path

@[simp] theorem components_skipSlashes (path : List Letter) :
    components (skipSlashes path) = components path := parts_dropWhile path

/-- A token without slashes in front is the first component, when there is one. -/
theorem components_token (skipped : s.head? ≠ some slash) :
    (strpos2 s slash = 0 ∧ components s = []) ∨ strpos2 s slash ≠ 0 ∧
      components s =
        s.take (strpos2 s slash) :: components (skipSlashes (s.drop (strpos2 s slash))) := by
  by_cases none_ : strpos2 s slash = 0
  · have empty := parts_eq_nil (List.length_eq_zero_iff.mp none_) skipped
    exact .inl ⟨none_, by rw [empty]; exact parts_nil⟩
  · refine .inr ⟨none_, ?_⟩
    rw [components_skipSlashes, take_strpos2, drop_strpos2]
    exact parts_takeWhile fun empty => none_ (List.length_eq_zero_iff.mpr empty)

end Orcos.Source.Files
