import Orcos.Source.Fat.DirectoryEntry

/-!
# FAT files

Source: src/source/filesystem/fat/FATFile.cc. The buffer is shared by all
files; the mutex and the log are left out. The position in a sector of 512
bytes is cut off the position by a mask.
-/
namespace Orcos.Source.Fat
open Lib.ByteMemory

/-- A file, the medium it lies on and the buffer. -/
structure FileState where
  medium : Medium
  buffer : Memory
  file : FATFile

/-- A word as a signed number. -/
def int4 (word : Nat) : Int := (BitVec.ofNat 32 word).toInt

/-- `(unint4) value`. -/
def unint4 (value : Int) : Nat := (BitVec.ofInt 32 value).toNat

/-- The length that is read, written or passed over in the current sector. -/
def sectorLen (sectorPos length : Nat) : Nat :=
  if length < 512 - sectorPos then length else 512 - sectorPos

theorem sectorLen_pos {sectorPos length : Nat} (inside : sectorPos < 512) (some : 0 < length) :
    0 < sectorLen sectorPos length := by
  rw [sectorLen]
  split <;> omega

theorem toNat_sub_lt {value : Int} {len : Nat} (some : 0 < value) (positive : 0 < len) :
    (value - len).toNat < value.toNat := by
  omega

theorem sectorLen_le (sectorPos length : Nat) : sectorLen sectorPos length ≤ length := by
  rw [sectorLen]
  split <;> omega

namespace FATFile

variable (f : FATFile)

def sectorPos : Nat := f.position &&& (512 - 1)

theorem sectorPos_lt : f.sectorPos < 512 := Nat.lt_of_le_of_lt Nat.and_le_right (by decide)

theorem sectorPos_eq : f.sectorPos = f.position % 512 := by
  have low : f.position &&& 2 ^ 9 - 1 = f.position % 2 ^ 9 := Nat.and_two_pow_sub_one_eq_mod _ 9
  exact low

/-- The first byte of the file is the next one. -/
def rewind (fs : FATFileSystem) : FATFile :=
  { f with
    currentCluster := f.clusterStart
    currentSector := fs.clusterToSector f.clusterStart
    position := 0 }

/-- The position `seek` is called for; it stays in the range of a word. -/
def newPosition (seekValue : Int) : Nat :=
  let newPosition := unint4 (f.position + seekValue)
  if seekValue < 0 ∧ f.position < newPosition then 0
  else if 0 < seekValue ∧ newPosition < f.position then 2 ^ 32 - 1
  else newPosition

end FATFile

namespace FileState

variable (fs : FATFileSystem) (s : FileState)

/-- The position is behind these bytes of the current sector. -/
def pass (len : Nat) : FileState :=
  { s with file := { s.file with position := wordAdd s.file.position len } }

/-- The next sector of the file, `false` when there is none. -/
def nextSector (allocate : Bool) : FileState × Bool :=
  let (m, sector) := fs.getNextSector s.medium s.file.currentSector s.file.currentCluster allocate
  let s := { s with
    medium := m
    file := { s.file with currentSector := sector } }
  if sector = EOC then (s, false)
  else ({ s with file := { s.file with currentCluster := fs.sectorToCluster sector } }, true)

theorem nextSector_file (allocate : Bool) :
    (s.nextSector fs allocate).1.file =
      { s.file with
        currentSector := (s.nextSector fs allocate).1.file.currentSector
        currentCluster := (s.nextSector fs allocate).1.file.currentCluster } := by
  simp only [nextSector]
  split <;> rfl

@[simp] theorem pass_position (len : Nat) :
    (s.pass len).file.position = wordAdd s.file.position len := rfl

/-- What a call of `readBytes` answers: the bytes that were copied and the length
the caller gets back. -/
structure Answer where
  status : ErrorT
  bytes : List Byte
  length : Nat
  deriving DecidableEq

/-- The body of the loop of `readBytes` up to the end of the sector. -/
def readSector (readlength : Nat) : FileState × Except ErrorT (List Byte) :=
  let sectorPos := s.file.sectorPos
  let len := sectorLen sectorPos readlength
  match s.medium.readSectors s.file.currentSector with
  | (m, .error error) => ({ s with medium := m }, .error error)
  | (m, .ok buffer) =>
    ({ s with
      medium := m
      buffer := buffer }.pass len, .ok (bytesAt buffer sectorPos len))

/-- The loop of `readBytes`, for a call with this length. -/
def readLoop (length : Nat) (s : FileState) (readlength : Nat) (bytes : List Byte) :
    FileState × Answer :=
  if _more : 0 < readlength then
    let sectorPos := s.file.sectorPos
    let rest := readlength - sectorLen sectorPos readlength
    match s.readSector readlength with
    | (s, .error error) => (s, ⟨error, bytes, length⟩)
    | (s, .ok read) =>
      if readlength < 512 - sectorPos then readLoop length s rest (bytes ++ read)
      else
        match s.nextSector fs false with
        | (s, false) => (s, ⟨cEOF, bytes ++ read, (bytes ++ read).length⟩)
        | (s, true) => readLoop length s rest (bytes ++ read)
  else (s, ⟨cOk, bytes, bytes.length⟩)
termination_by readlength
decreasing_by
  all_goals exact Nat.sub_lt _more (sectorLen_pos (FATFile.sectorPos_lt _) _more)

def readBytes (length : Nat) : FileState × Answer :=
  let rest := wordSub s.file.filesize s.file.position
  let readlength := if rest < length then rest else length
  if readlength = 0 then (s, ⟨cEOF, [], length⟩)
  else readLoop fs length s readlength []

/-- A sector behind the end of the file is not read. -/
def loadSector (newSector : Bool) : Medium × Except ErrorT Memory :=
  if newSector then (s.medium, .ok s.buffer) else s.medium.readSectors s.file.currentSector

/-- The body of the loop of `writeBytes` up to the end of the sector. -/
def writeSector (bytes : List Byte) (newSector : Bool) : FileState × ErrorT :=
  let sectorPos := s.file.sectorPos
  let len := sectorLen sectorPos bytes.length
  match s.loadSector newSector with
  | (m, .error error) => ({ s with medium := m }, error)
  | (m, .ok buffer) =>
    let buffer := copyInto buffer sectorPos (bytes.take len)
    let (m, error) := m.writeSectors s.file.currentSector buffer
    let s := { s with
      medium := m
      buffer := buffer }
    if isError error then (s, error) else (s.pass len, cOk)

theorem writeSector_file (bytes : List Byte) (newSector : Bool) :
    (s.writeSector bytes newSector).1.file =
      { s.file with position := (s.writeSector bytes newSector).1.file.position } := by
  rw [writeSector]
  cases s.loadSector newSector with
  | mk m read =>
    cases read with
    | error error => rfl
    | ok buffer =>
      simp only
      split <;> rfl

/-- The loop of `writeBytes`; the status is that of an early return. -/
def writeLoop (s : FileState) (bytes : List Byte) (newSector : Bool) : FileState × Option ErrorT :=
  if _more : 0 < bytes.length then
    let sectorPos := s.file.sectorPos
    let rest := bytes.drop (sectorLen sectorPos bytes.length)
    let (s, error) := s.writeSector bytes newSector
    if isError error then (s, some error)
    else if bytes.length < 512 - sectorPos then writeLoop s rest newSector
    else
      match s.nextSector fs true with
      | (s, false) => (s, some cDeviceMemoryExhausted)
      | (s, true) => writeLoop s rest (s.file.filesize < s.file.position)
  else (s, none)
termination_by bytes.length
decreasing_by
  all_goals
    rw [List.length_drop]
    exact Nat.sub_lt _more (sectorLen_pos (FATFile.sectorPos_lt _) _more)

/-- The size of a file that has grown is set in its entry. -/
def updateSize : FileState × ErrorT :=
  if s.file.filesize < s.file.position then
    match s.medium.readSectors s.file.directorySector with
    | (m, .error error) => ({ s with medium := m }, error)
    | (m, .ok buffer) =>
      let file := { s.file with filesize := s.file.position }
      let buffer := write32 buffer (file.directoryEntryNumber * 32 + 28) file.filesize
      let (m, error) := m.writeSectors file.directorySector buffer
      (⟨m, buffer, file⟩, if isError error then error else cOk)
  else (s, cOk)

def writeBytes (bytes : List Byte) : FileState × ErrorT :=
  match writeLoop fs s bytes false with
  | (s, some error) => (s, error)
  | (s, none) => s.updateSize

def resetPosition : FileState × ErrorT := ({ s with file := s.file.rewind fs }, cOk)

/-- The loop of `seek`. -/
def seekLoop (s : FileState) (seekValue : Int) : FileState × ErrorT :=
  if _more : 0 < seekValue then
    let sectorPos := s.file.sectorPos
    let len := sectorLen sectorPos seekValue.toNat
    let s := s.pass len
    if seekValue.toNat < 512 - sectorPos then seekLoop s (seekValue - len)
    else
      match s.nextSector fs false with
      | (s, false) => (s, cError)
      | (s, true) => seekLoop s (seekValue - len)
  else (s, cOk)
termination_by seekValue.toNat
decreasing_by
  all_goals exact toNat_sub_lt _more (sectorLen_pos (FATFile.sectorPos_lt _) (by omega))

/-- `seek` to a position in the file. -/
def seekInside (seekValue : Int) : FileState × ErrorT :=
  if seekValue = 0 then (s, cOk)
  else if s.file.newPosition seekValue < s.file.position then
    seekLoop fs { s with file := s.file.rewind fs } (int4 (s.file.newPosition seekValue))
  else seekLoop fs s seekValue

/-- The first bytes of `fill_buffer`. -/
def zeros (n : Nat) : List Byte := List.replicate n 0

@[simp] theorem length_zeros (n : Nat) : (zeros n).length = n := List.length_replicate

/-- The file is filled up with zeros; errors are not looked at. -/
def fillLoop (s : FileState) (fillLength : Nat) : FileState :=
  if _more : 0 < fillLength then
    if 512 < fillLength then fillLoop (s.writeBytes fs (zeros 512)).1 (fillLength - 512)
    else (s.writeBytes fs (zeros fillLength)).1
  else s
termination_by fillLength
decreasing_by omega

/-- The call of itself for the end of the file never comes to fill the file. -/
def seek (seekValue : Int) : FileState × ErrorT :=
  let newPosition := s.file.newPosition seekValue
  if seekValue ≠ 0 ∧ s.file.position ≤ newPosition ∧ s.file.filesize < newPosition then
    let s := (s.seekInside fs (int4 (wordSub s.file.filesize s.file.position))).1
    (fillLoop fs s (wordSub newPosition s.file.filesize), cOk)
  else s.seekInside fs seekValue

end FileState

end Orcos.Source.Fat

/-! ## Where a seek in a FAT file ends

Source: src/source/filesystem/fat/FATFile.cc, `seek`, `writeBytes`.

A seek forward goes on along the chain, and behind the end of the file it writes zeros. The
position moves by as much as the chain and the medium allow.
-/
namespace Orcos.Source.Fat
open Lib.ByteMemory

theorem int4_of_lt {word : Nat} (small : word < 2 ^ 31) : int4 word = word := by
  rw [int4, BitVec.toInt_ofNat', Int.bmod_def]
  omega

theorem int4_of_le {word : Nat} (large : 2 ^ 31 ≤ word) (inside : word < 2 ^ 32) :
    int4 word = word - 2 ^ 32 := by
  rw [int4, BitVec.toInt_ofNat', Int.bmod_def]
  omega

theorem unint4_eq (value : Int) : (unint4 value : Int) = value % 2 ^ 32 := by
  rw [unint4, BitVec.toNat_ofInt]
  omega

/-- Behind each sector that so many bytes go over there is another one. -/
inductive Goes (fs : FATFileSystem) : FileState → Nat → Prop
  | inside {s : FileState} {n : Nat} (short : n < 512 - s.file.sectorPos) : Goes fs s n
  | next {s s' : FileState} {n : Nat} (full : 512 - s.file.sectorPos ≤ n)
      (moved : (s.pass (512 - s.file.sectorPos)).nextSector fs false = (s', true))
      (rest : Goes fs s' (n - (512 - s.file.sectorPos))) : Goes fs s n

/-- The bytes are written sector by sector, and there is a next one for those left. -/
inductive Stores (fs : FATFileSystem) : FileState → List Byte → Bool → Prop
  | nothing {s : FileState} {newSector : Bool} : Stores fs s [] newSector
  | last {s s' : FileState} {bytes : List Byte} {newSector : Bool}
      (short : bytes.length ≤ 512 - s.file.sectorPos)
      (written : s.writeSector bytes newSector = (s', cOk)) : Stores fs s bytes newSector
  | next {s s' s'' : FileState} {bytes : List Byte} {newSector : Bool}
      (full : 512 - s.file.sectorPos < bytes.length)
      (written : s.writeSector bytes newSector = (s', cOk))
      (moved : s'.nextSector fs true = (s'', true))
      (rest : Stores fs s'' (bytes.drop (sectorLen s.file.sectorPos bytes.length))
        (s''.file.filesize < s''.file.position)) : Stores fs s bytes newSector

/-- Each block of zeros is stored. -/
inductive Fills (fs : FATFileSystem) : FileState → Nat → Prop
  | last {s : FileState} {n : Nat} (short : n ≤ 512)
      (stored : Stores fs s (FileState.zeros n) false) : Fills fs s n
  | block {s : FileState} {n : Nat} (long : 512 < n)
      (stored : Stores fs s (FileState.zeros 512) false)
      (rest : Fills fs (s.writeBytes fs (FileState.zeros 512)).1 (n - 512)) : Fills fs s n

variable {fs : FATFileSystem} {s s' : FileState} {n : Nat}

theorem goes_iff_next (full : 512 - s.file.sectorPos ≤ n) :
    Goes fs s n ↔
      ∃ s', (s.pass (512 - s.file.sectorPos)).nextSector fs false = (s', true) ∧
        Goes fs s' (n - (512 - s.file.sectorPos)) := by
  constructor
  · intro goes
    cases goes with
    | inside short => omega
    | next full moved rest => exact ⟨_, moved, rest⟩
  · rintro ⟨s', moved, rest⟩
    exact .next full moved rest

theorem Goes.mono {m : Nat} (goes : Goes fs s n) (less : m ≤ n) : Goes fs s m := by
  induction goes generalizing m with
  | inside short => exact .inside (by omega)
  | @next s s' n full moved rest ih =>
    by_cases short : m < 512 - s.file.sectorPos
    · exact .inside short
    · exact .next (by omega) moved (ih (by omega))

/-- What is longer than the rest of the sector is stored in two parts. -/
theorem stores_iff_next {bytes : List Byte} {newSector : Bool}
    (written : s.writeSector bytes newSector = (s', cOk))
    (full : 512 - s.file.sectorPos < bytes.length) :
    Stores fs s bytes newSector ↔ ∃ s'', s'.nextSector fs true = (s'', true) ∧
      Stores fs s'' (bytes.drop (sectorLen s.file.sectorPos bytes.length))
        (s''.file.filesize < s''.file.position) := by
  constructor
  · intro stored
    cases stored with
    | nothing => exact absurd full (Nat.not_lt_zero _)
    | last short written => omega
    | next full written' moved rest =>
      cases written.symm.trans written'
      exact ⟨_, moved, rest⟩
  · rintro ⟨s'', moved, rest⟩
    exact .next full written moved rest

theorem not_stores_of_failed {bytes : List Byte} {newSector : Bool} (some_ : bytes ≠ [])
    (failed : isError (s.writeSector bytes newSector).2 = true) : ¬Stores fs s bytes newSector := by
  have refused : (s.writeSector bytes newSector).2 ≠ cOk := by
    intro ok
    rw [ok] at failed
    revert failed
    decide
  intro stored
  cases stored with
  | nothing => exact some_ rfl
  | last short written => exact refused (congrArg Prod.snd written)
  | next full written moved rest => exact refused (congrArg Prod.snd written)

theorem position_nextSector {allocate more : Bool}
    (moved : s.nextSector fs allocate = (s', more)) : s'.file.position = s.file.position := by
  have same := congrArg FATFile.position (s.nextSector_file fs allocate)
  rw [moved] at same
  exact same

theorem filesize_nextSector {allocate more : Bool}
    (moved : s.nextSector fs allocate = (s', more)) : s'.file.filesize = s.file.filesize := by
  have same := congrArg FATFile.filesize (s.nextSector_file fs allocate)
  rw [moved] at same
  exact same

namespace FileState

theorem seekLoop_stay {value : Int} (none_ : value ≤ 0) : seekLoop fs s value = (s, cOk) := by
  rw [seekLoop, dif_neg (Int.not_lt.mpr none_)]

/-- A round of the loop that stays in the sector is the last one. -/
theorem seekLoop_inside (some_ : 0 < n) (short : n < 512 - s.file.sectorPos) :
    seekLoop fs s n = (s.pass n, cOk) := by
  have len : sectorLen s.file.sectorPos n = n := if_pos short
  have rest : (n : Int) - (n : Nat) = 0 := by omega
  rw [seekLoop, dif_pos (by omega)]
  simp only [Int.toNat_natCast, len, if_pos short, rest]
  exact seekLoop_stay (Int.le_refl 0)

theorem seekLoop_over (full : 512 - s.file.sectorPos ≤ n) :
    seekLoop fs s n =
      match (s.pass (512 - s.file.sectorPos)).nextSector fs false with
      | (s', false) => (s', cError)
      | (s', true) => seekLoop fs s' (n - (512 - s.file.sectorPos) : Nat) := by
  have sector := s.file.sectorPos_lt
  have len : sectorLen s.file.sectorPos n = 512 - s.file.sectorPos := if_neg (by omega)
  have rest : (n : Int) - (512 - s.file.sectorPos : Nat) =
      (n - (512 - s.file.sectorPos) : Nat) := by omega
  rw [seekLoop, dif_pos (by omega)]
  simp only [Int.toNat_natCast, len, if_neg (Nat.not_lt.mpr full), rest]

/-- The loop succeeds when the chain goes on behind the last byte. -/
theorem seekLoop_ok_iff : (seekLoop fs s n).2 = cOk ↔ Goes fs s n := by
  induction n using Nat.strong_induction_on generalizing s with
  | _ n ih =>
    have sector := s.file.sectorPos_lt
    by_cases short : n < 512 - s.file.sectorPos
    · refine iff_of_true ?_ (.inside short)
      by_cases none_ : n = 0
      · subst none_
        rw [show ((0 : Nat) : Int) = 0 from rfl, seekLoop_stay (Int.le_refl 0)]
      · rw [seekLoop_inside (by omega) short]
    · have full : 512 - s.file.sectorPos ≤ n := Nat.le_of_not_lt short
      rw [seekLoop_over full, goes_iff_next full]
      cases (s.pass (512 - s.file.sectorPos)).nextSector fs false with
      | mk s' more =>
        cases more with
        | false => exact iff_of_false (show ¬cError = cOk by decide) (by simp)
        | true =>
          simp only [ih (n - (512 - s.file.sectorPos)) (by omega)]
          simp

theorem seekLoop_position_lt (fs : FATFileSystem) (n : Nat)
    (inside : s.file.position < 2 ^ 32) :
    (seekLoop fs s n).1.file.position < 2 ^ 32 := by
  have passed (len : Nat) : (s.pass len).file.position < 2 ^ 32 := Nat.mod_lt _ (by decide)
  induction n using Nat.strong_induction_on generalizing s with
  | _ n ih =>
    have sector := s.file.sectorPos_lt
    by_cases none_ : n = 0
    · subst none_
      rwa [show ((0 : Nat) : Int) = 0 from rfl, seekLoop_stay (Int.le_refl 0)]
    by_cases short : n < 512 - s.file.sectorPos
    · rw [seekLoop_inside (by omega) short]
      exact passed n
    · rw [seekLoop_over (Nat.le_of_not_lt short)]
      cases moved : (s.pass (512 - s.file.sectorPos)).nextSector fs false with
      | mk s' more =>
        have position : s'.file.position < 2 ^ 32 := by
          rw [position_nextSector moved]
          exact passed _
        cases more with
        | false => exact position
        | true => exact ih _ (by omega) position fun _ => Nat.mod_lt _ (by decide)

/-- The loop moves the position as far as the chain goes on. -/
theorem seekLoop_moves (fits : s.file.position + n < 2 ^ 32) :
    (seekLoop fs s n).1.file.filesize = s.file.filesize ∧
      ∃ k ≤ n, (seekLoop fs s n).1.file.position = s.file.position + k ∧
        (k = n ↔ n = 0 ∨ Goes fs s (n - 1)) := by
  induction n using Nat.strong_induction_on generalizing s with
  | _ n ih =>
    have sector := s.file.sectorPos_lt
    by_cases none_ : n = 0
    · subst none_
      rw [show ((0 : Nat) : Int) = 0 from rfl, seekLoop_stay (Int.le_refl 0)]
      exact ⟨rfl, 0, Nat.le_refl 0, rfl, by simp⟩
    by_cases short : n < 512 - s.file.sectorPos
    · rw [seekLoop_inside (by omega) short]
      have moved : (s.pass n).file.position = s.file.position + n := wordAdd_eq fits
      exact ⟨rfl, n, Nat.le_refl n, moved, iff_of_true rfl (.inr (.inside (by omega)))⟩
    · have full : 512 - s.file.sectorPos ≤ n := Nat.le_of_not_lt short
      have passed : (s.pass (512 - s.file.sectorPos)).file.position =
          s.file.position + (512 - s.file.sectorPos) := wordAdd_eq (by omega)
      rw [seekLoop_over full]
      cases moved : (s.pass (512 - s.file.sectorPos)).nextSector fs false with
      | mk s' more =>
        have position := position_nextSector moved
        have filesize := filesize_nextSector moved
        cases more with
        | false =>
          refine ⟨filesize, 512 - s.file.sectorPos, full, position.trans passed, ?_⟩
          constructor
          · intro last
            exact .inr (.inside (by omega))
          · rintro (zero | goes)
            · exact absurd zero none_
            · by_contra longer
              obtain ⟨s'', moved', _⟩ := (goes_iff_next (by omega)).mp goes
              rw [moved] at moved'
              cases moved'
        | true =>
          obtain ⟨size, k, below, moves, all⟩ :=
            ih (n - (512 - s.file.sectorPos)) (by omega) (s := s') (by omega)
          refine ⟨size.trans filesize, 512 - s.file.sectorPos + k, by omega, ?_, ?_⟩
          · exact moves.trans (by omega)
          · by_cases last : n = 512 - s.file.sectorPos
            · have done : k = 0 := by omega
              exact iff_of_true (by omega) (.inr (.inside (by omega)))
            · have onward : Goes fs s (n - 1) ↔
                  Goes fs s' (n - (512 - s.file.sectorPos) - 1) := by
                rw [goes_iff_next (by omega), moved, Nat.sub_right_comm]
                simp
              rw [onward]
              constructor
              · intro whole
                exact .inr ((all.mp (by omega)).resolve_left (by omega))
              · intro goes
                have := all.mpr (.inr (goes.resolve_left none_))
                omega

theorem seekLoop_arrives (fits : s.file.position + n < 2 ^ 32) (goes : Goes fs s n) :
    (seekLoop fs s n).1.file.position = s.file.position + n := by
  obtain ⟨_, k, _, moves, all⟩ := seekLoop_moves fits
  rw [moves, all.mpr (.inr (goes.mono (Nat.sub_le n 1)))]

theorem writeSector_cases (bytes : List Byte) (newSector : Bool) :
    (isError (s.writeSector bytes newSector).2 = true ∧
      (s.writeSector bytes newSector).1.file.position = s.file.position) ∨
    (s.writeSector bytes newSector).2 = cOk ∧
      (s.writeSector bytes newSector).1.file.position =
        wordAdd s.file.position (sectorLen s.file.sectorPos bytes.length) := by
  rw [writeSector]
  have failed : ∀ error, (s.loadSector newSector).2 = .error error → isError error = true := by
    intro error read
    unfold loadSector Medium.readSectors at read
    split at read
    · cases read
    · dsimp only at read
      split at read
      · next bad =>
        cases read
        exact bad
      · cases read
  cases loaded : s.loadSector newSector with
  | mk m read =>
    rw [loaded] at failed
    cases read with
    | error error => exact .inl ⟨failed error rfl, rfl⟩
    | ok buffer =>
      simp only
      split
      · next bad => exact .inl ⟨bad, rfl⟩
      · exact .inr ⟨rfl, rfl⟩

/-- The loop moves the position by all bytes when they are stored, and else by less. -/
theorem writeLoop_moves (bytes : List Byte) {newSector : Bool}
    (fits : s.file.position + bytes.length < 2 ^ 32) :
    ∃ k ≤ bytes.length, (writeLoop fs s bytes newSector).1.file.position = s.file.position + k ∧
      (k = bytes.length ↔ Stores fs s bytes newSector) := by
  induction length : bytes.length using Nat.strong_induction_on generalizing s bytes newSector with
  | _ n ih =>
    subst length
    have sector := s.file.sectorPos_lt
    by_cases none_ : bytes.length = 0
    · have empty := List.length_eq_zero_iff.mp none_
      subst empty
      rw [writeLoop, dif_neg (by simp)]
      exact ⟨0, Nat.le_refl 0, rfl, iff_of_true rfl .nothing⟩
    have positive : 0 < bytes.length := Nat.pos_of_ne_zero none_
    have below := sectorLen_le s.file.sectorPos bytes.length
    rw [writeLoop, dif_pos positive]
    obtain ⟨failed, stays⟩ | ⟨ok, moves⟩ := writeSector_cases (s := s) bytes newSector
    · simp only [failed, if_true]
      exact ⟨0, Nat.zero_le _, stays, iff_of_false (by omega)
        (not_stores_of_failed (List.ne_nil_of_length_pos positive) failed)⟩
    · rw [wordAdd_eq (by omega)] at moves
      have written : s.writeSector bytes newSector = ((s.writeSector bytes newSector).1, cOk) :=
        Prod.ext rfl ok
      generalize (s.writeSector bytes newSector).1 = s' at moves written
      simp only [written, show isError cOk = false from rfl, Bool.false_eq_true, if_false]
      by_cases short : bytes.length < 512 - s.file.sectorPos
      · have len : sectorLen s.file.sectorPos bytes.length = bytes.length := if_pos short
        rw [len] at moves
        rw [if_pos short, len, List.drop_length, writeLoop, dif_neg (by simp)]
        exact ⟨_, Nat.le_refl _, moves, iff_of_true rfl (.last (by omega) written)⟩
      · have len : sectorLen s.file.sectorPos bytes.length = 512 - s.file.sectorPos :=
          if_neg short
        rw [if_neg short]
        by_cases last : bytes.length ≤ 512 - s.file.sectorPos
        · have rest : bytes.drop (sectorLen s.file.sectorPos bytes.length) = [] := by
            rw [List.drop_eq_nil_iff]
            omega
          cases moved : s'.nextSector fs true with
          | mk s'' more =>
            have position := position_nextSector moved
            have same : s''.file.position = s.file.position + bytes.length := by omega
            have stored : Stores fs s bytes newSector := .last last written
            cases more with
            | false => exact ⟨_, Nat.le_refl _, same, iff_of_true rfl stored⟩
            | true =>
              simp only
              rw [rest, writeLoop, dif_neg (by simp)]
              exact ⟨_, Nat.le_refl _, same, iff_of_true rfl stored⟩
        · rw [stores_iff_next written (by omega)]
          cases moved : s'.nextSector fs true with
          | mk s'' more =>
            have position := position_nextSector moved
            cases more with
            | false =>
              refine ⟨512 - s.file.sectorPos, by omega, by simp only; omega, ?_⟩
              exact iff_of_false (by omega) (by simp)
            | true =>
              have dropped := List.length_drop (i := sectorLen s.file.sectorPos bytes.length)
                (l := bytes)
              have shorter : s''.file.position +
                  (bytes.drop (sectorLen s.file.sectorPos bytes.length)).length < 2 ^ 32 := by
                omega
              obtain ⟨k, inside, moves', all⟩ := ih _ (by omega)
                (bytes.drop (sectorLen s.file.sectorPos bytes.length)) shorter rfl
              refine ⟨512 - s.file.sectorPos + k, by omega, moves'.trans (by omega), ?_⟩
              simp only [Prod.mk.injEq, and_true, exists_eq_left', ← all]
              omega

theorem updateSize_position : s.updateSize.1.file.position = s.file.position := by
  unfold updateSize
  split
  · cases s.medium.readSectors s.file.directorySector with
    | mk m read => cases read <;> rfl
  · rfl

theorem writeBytes_position (bytes : List Byte) :
    (s.writeBytes fs bytes).1.file.position =
      (writeLoop fs s bytes false).1.file.position := by
  unfold writeBytes
  cases writeLoop fs s bytes false with
  | mk s' early =>
    cases early with
    | some error => rfl
    | none => exact updateSize_position

/-- The file grows by all bytes when each block is stored, and else by less. -/
theorem fillLoop_moves (fs : FATFileSystem) (fits : s.file.position + n < 2 ^ 32) :
    ∃ k ≤ n, (fillLoop fs s n).file.position = s.file.position + k ∧ (k = n ↔ Fills fs s n) := by
  induction n using Nat.strong_induction_on generalizing s with
  | _ n ih =>
    rw [fillLoop]
    by_cases short : n ≤ 512
    · obtain ⟨k, inside, moves, all⟩ :=
        writeLoop_moves (s := s) (zeros n) (by rwa [length_zeros])
      rw [length_zeros] at inside all
      have filled : Stores fs s (zeros n) false ↔ Fills fs s n := by
        constructor
        · exact fun stored => .last short stored
        · intro fills
          cases fills with
          | last short stored => exact stored
          | block long stored rest => omega
      refine ⟨k, inside, ?_, all.trans filled⟩
      by_cases some_ : 0 < n
      · rw [dif_pos some_, if_neg (Nat.not_lt.mpr short), writeBytes_position, moves]
      · rw [dif_neg some_]
        omega
    · obtain ⟨k, inside, moves, all⟩ :=
        writeLoop_moves (s := s) (zeros 512) (by rw [length_zeros]; omega)
      rw [length_zeros] at inside all
      rw [← writeBytes_position] at moves
      rw [dif_pos (by omega), if_pos (by omega)]
      generalize moved : (s.writeBytes fs (zeros 512)).1 = s' at moves
      obtain ⟨k', inside', moves', all'⟩ := ih (n - 512) (by omega) (s := s') (by omega)
      refine ⟨k + k', by omega, by omega, ?_⟩
      constructor
      · intro whole
        have rest := all'.mp (by omega)
        rw [← moved] at rest
        exact .block (by omega) (all.mp (by omega)) rest
      · intro fills
        cases fills with
        | last short' stored => omega
        | block long stored rest =>
          rw [moved] at rest
          have := all.mpr stored
          have := all'.mpr rest
          omega

end FileState

namespace FATFile

variable {f : FATFile} {v : Int}

theorem newPosition_lt (f : FATFile) (v : Int) : f.newPosition v < 2 ^ 32 := by
  unfold newPosition
  simp only
  split
  · decide
  · split
    · decide
    · exact BitVec.isLt _

/-- A seek backwards is not to a place behind the position. -/
theorem newPosition_le (f : FATFile) {v : Int} (back : v < 0) : f.newPosition v ≤ f.position := by
  unfold newPosition
  simp only
  split
  · exact Nat.zero_le _
  · next inside =>
    rw [if_neg (by omega)]
    omega

theorem newPosition_before (word : f.position < 2 ^ 32) (low : -2 ^ 31 ≤ v)
    (before : f.position + v < 0) : f.newPosition v = 0 := by
  have sum := unint4_eq (f.position + v)
  rw [newPosition, if_pos (by omega)]

theorem newPosition_inside (low : 0 ≤ f.position + v) (high : f.position + v < 2 ^ 32) :
    (f.newPosition v : Int) = f.position + v := by
  have sum := unint4_eq (f.position + v)
  rw [newPosition, if_neg (by omega), if_neg (by omega)]
  omega

theorem newPosition_beyond (word : f.position < 2 ^ 32) (high : v < 2 ^ 31)
    (beyond : 2 ^ 32 ≤ f.position + v) : f.newPosition v = 2 ^ 32 - 1 := by
  have sum := unint4_eq (f.position + v)
  rw [newPosition, if_neg (by omega), if_pos (by omega)]

end FATFile

namespace FileState

variable {v : Int}

/-- The file at its first byte. -/
def rewound (fs : FATFileSystem) (s : FileState) : FileState :=
  { s with file := s.file.rewind fs }

theorem seekInside_forward (some_ : 0 < v) (high : v < 2 ^ 31) (word : s.file.position < 2 ^ 32) :
    s.seekInside fs v = seekLoop fs s v := by
  have onward : ¬s.file.newPosition v < s.file.position := by
    by_cases inside : s.file.position + v < 2 ^ 32
    · have := FATFile.newPosition_inside (f := s.file) (v := v) (by omega) inside
      omega
    · rw [FATFile.newPosition_beyond word high (by omega)]
      omega
  rw [seekInside, if_neg (by omega), if_neg onward]

theorem seekInside_backward (back : v < 0) (inside : 0 ≤ s.file.position + v)
    (word : s.file.position < 2 ^ 32) :
    s.seekInside fs v = seekLoop fs (s.rewound fs) (int4 (s.file.position + v).toNat) := by
  have place := FATFile.newPosition_inside (f := s.file) (v := v) inside (by omega)
  have less : s.file.newPosition v < s.file.position := by omega
  have same : (s.file.position + v).toNat = s.file.newPosition v := by omega
  rw [seekInside, if_neg (by omega), if_pos less, same]
  rfl

/-- From a position before the first byte nothing is passed. -/
theorem seekInside_before (fs : FATFileSystem) (low : -2 ^ 31 ≤ v)
    (before : s.file.position + v < 0)
    (word : s.file.position < 2 ^ 32) :
    (s.seekInside fs v).2 = cOk ∧ (s.seekInside fs v).1.file.position = 0 ∧
      (s.seekInside fs v).1.file.filesize = s.file.filesize := by
  rw [seekInside, if_neg (by omega), FATFile.newPosition_before word low before]
  by_cases first : s.file.position = 0
  · rw [if_neg (by omega), seekLoop_stay (by omega)]
    exact ⟨rfl, first, rfl⟩
  · rw [if_pos (by omega), seekLoop_stay (show int4 0 ≤ 0 by decide)]
    exact ⟨rfl, rfl, rfl⟩

/-- The end of the file can be reached along its chain, counted from the position or, when
that is behind the end, from the first byte. The way is counted in a signed word. -/
def EndReachable (fs : FATFileSystem) (s : FileState) : Prop :=
  let start := if s.file.filesize < s.file.position then s.rewound fs else s
  let way := s.file.filesize - start.file.position
  way < 2 ^ 31 ∧ (way = 0 ∨ Goes fs start (way - 1))

/-- The file after a seek in it. -/
def sought (fs : FATFileSystem) (s : FileState) (v : Int) : FileState := (s.seekInside fs v).1

theorem sought_eq : s.sought fs v = (s.seekInside fs v).1 := rfl

/-- The file after the seek to its end that comes before it is filled up. -/
def atEnd (fs : FATFileSystem) (s : FileState) : FileState :=
  s.sought fs (int4 (wordSub s.file.filesize s.file.position))

theorem atEnd_moves (word : s.file.position < 2 ^ 32) (size : s.file.filesize < 2 ^ 32)
    (near : s.file.position ≤ s.file.filesize + 2 ^ 31) :
    (s.atEnd fs).file.filesize = s.file.filesize ∧
      (s.atEnd fs).file.position ≤ s.file.filesize ∧
      ((s.atEnd fs).file.position = s.file.filesize ↔ s.EndReachable fs) := by
  have back : (s.rewound fs).file.position = 0 := rfl
  have keeps : (s.rewound fs).file.filesize = s.file.filesize := rfl
  rw [atEnd, sought_eq, EndReachable]
  by_cases beyond : s.file.filesize < s.file.position
  · have value : int4 (wordSub s.file.filesize s.file.position) =
        s.file.filesize - s.file.position := by
      have sum : wordSub s.file.filesize s.file.position =
          s.file.filesize + 2 ^ 32 - s.file.position := by
        rw [wordSub]
        omega
      rw [sum, int4_of_le (by omega) (by omega)]
      omega
    have target : (s.file.position + ((s.file.filesize : Int) - s.file.position)).toNat =
        s.file.filesize := by omega
    rw [value, seekInside_backward (by omega) (by omega) word, target]
    simp only [if_pos beyond, back, Nat.sub_zero]
    by_cases small : s.file.filesize < 2 ^ 31
    · rw [int4_of_lt small]
      obtain ⟨filesize, k, below, moves, all⟩ :=
        seekLoop_moves (s := s.rewound fs) (n := s.file.filesize) (by omega)
      rw [and_iff_right small, ← all]
      omega
    · rw [int4_of_le (by omega) size, seekLoop_stay (by omega)]
      simp only [back, keeps]
      exact ⟨trivial, Nat.zero_le _, iff_of_false (by omega) (by omega)⟩
  · have sum := wordSub_eq (Nat.le_of_not_lt beyond) size
    simp only [if_neg beyond, sum]
    by_cases small : s.file.filesize - s.file.position < 2 ^ 31
    · rw [int4_of_lt small, and_iff_right small]
      by_cases here : s.file.filesize = s.file.position
      · rw [seekInside, if_pos (by omega)]
        exact ⟨rfl, Nat.le_of_eq here.symm, iff_of_true here.symm (.inl (by omega))⟩
      · rw [seekInside_forward (by omega) (by omega) word]
        obtain ⟨filesize, k, below, moves, all⟩ :=
          seekLoop_moves (s := s) (n := s.file.filesize - s.file.position) (by omega)
        rw [← all]
        omega
    · have value : int4 (s.file.filesize - s.file.position) =
          (s.file.filesize - s.file.position : Nat) - 2 ^ 32 :=
        int4_of_le (by omega) (by omega)
      obtain ⟨_, first, filesize⟩ := seekInside_before fs (s := s)
        (v := int4 (s.file.filesize - s.file.position)) (by omega) (by omega) word
      exact ⟨filesize, by omega, iff_of_false (by omega) (by omega)⟩

/-- A seek far behind a position that is far behind the end calls itself without end. -/
def SeekReturns (s : FileState) (v : Int) : Prop :=
  v = 0 ∨ s.file.newPosition v < s.file.position ∨ s.file.newPosition v ≤ s.file.filesize ∨
    s.file.position ≤ s.file.filesize + 2 ^ 31

instance : Decidable (s.SeekReturns v) := inferInstanceAs (Decidable (_ ∨ _))

/-- When a seek that succeeds is at the sum: not in front of a position from 2 GB on that is
counted from the first byte, not behind the range of a word, and behind the end only when the
zeros are written there. -/
def SeekFits (fs : FATFileSystem) (s : FileState) (v : Int) : Prop :=
  let sum := s.file.position + v
  sum < 0 ∨ v = 0 ∨ (v < 0 ∧ sum < 2 ^ 31) ∨ (0 < v ∧ sum ≤ s.file.filesize) ∨
    (s.file.filesize < sum ∧ 0 < v ∧ sum < 2 ^ 32 ∧ s.EndReachable fs ∧
      Fills fs (s.atEnd fs) (sum - s.file.filesize).toNat) ∨
    (2 ^ 32 ≤ sum ∧ s.file.filesize = 2 ^ 32 - 1 ∧ ¬Goes fs s v.toNat)

/-- The position after a seek that succeeds. -/
def SeekExact (fs : FATFileSystem) (s : FileState) (v : Int) : Prop :=
  (s.seek fs v).2 = cOk → ((s.seek fs v).1.file.position : Int) = max 0 (s.file.position + v)

theorem seek_inside (here : v = 0 ∨ s.file.newPosition v < s.file.position ∨
    s.file.newPosition v ≤ s.file.filesize) : s.seek fs v = s.seekInside fs v := by
  rw [seek, if_neg (by omega)]

theorem seek_behind (some_ : 0 < v) (onward : s.file.position ≤ s.file.newPosition v)
    (behind : s.file.filesize < s.file.newPosition v)
    (same : (s.atEnd fs).file.filesize = s.file.filesize) :
    s.seek fs v =
      (fillLoop fs (s.atEnd fs) (s.file.newPosition v - s.file.filesize), cOk) := by
  have word := s.file.newPosition_lt v
  rw [atEnd, sought_eq] at same ⊢
  rw [seek, if_pos ⟨by omega, onward, behind⟩]
  generalize int4 (wordSub s.file.filesize s.file.position) = way at same ⊢
  simp only [same, wordSub_eq (Nat.le_of_lt behind) word]

/-- A seek backward succeeds with the sum, or counts from the first byte too far. -/
theorem seekExact_backward_iff (word : s.file.position < 2 ^ 32) (low : -2 ^ 31 ≤ v)
    (back : v < 0) : s.SeekExact fs v ↔ s.file.position + v < 2 ^ 31 := by
  by_cases before : s.file.position + v < 0
  · have place := FATFile.newPosition_before word low before
    obtain ⟨_, first, _⟩ := seekInside_before fs low before word
    rw [SeekExact, seek_inside (.inr (.inr (by omega)))]
    exact iff_of_true (fun _ => by omega) (by omega)
  · have place := FATFile.newPosition_inside (f := s.file) (v := v) (by omega) (by omega)
    rw [SeekExact, seek_inside (.inr (.inl (by omega))),
      seekInside_backward back (by omega) word]
    have start : (s.rewound fs).file.position = 0 := rfl
    by_cases small : s.file.position + v < 2 ^ 31
    · refine iff_of_true (fun ok => ?_) small
      rw [int4_of_lt (by omega)] at ok ⊢
      rw [seekLoop_arrives (by omega) (seekLoop_ok_iff.mp ok)]
      omega
    · rw [int4_of_le (by omega) (by omega), seekLoop_stay (by omega)]
      refine iff_of_false (fun exact_ => ?_) small
      have zero := exact_ rfl
      simp only [start] at zero
      omega

/-- A seek forward in the file succeeds with the sum. -/
theorem seekExact_inside (word : s.file.position < 2 ^ 32) (high : v < 2 ^ 31) (onward : 0 < v)
    (inside : s.file.position + v ≤ s.file.filesize) (size : s.file.filesize < 2 ^ 32) :
    s.SeekExact fs v := by
  have place := FATFile.newPosition_inside (f := s.file) (v := v) (by omega) (by omega)
  obtain ⟨n, rfl⟩ := Int.eq_ofNat_of_zero_le (Int.le_of_lt onward)
  intro ok
  rw [seek_inside (.inr (.inr (by omega))), seekInside_forward onward high word] at ok ⊢
  rw [seekLoop_arrives (by omega) (seekLoop_ok_iff.mp ok)]
  omega

/-- A seek behind the end of the file has the sum as its position when the file is filled up
to it. -/
theorem seekExact_behind_iff (word : s.file.position < 2 ^ 32) (onward : 0 < v)
    (behind : s.file.filesize < s.file.position + v) (inside : s.file.position + v < 2 ^ 32)
    (near : s.file.position ≤ s.file.filesize + 2 ^ 31) :
    s.SeekExact fs v ↔ s.EndReachable fs ∧
      Fills fs (s.atEnd fs) (s.file.position + v - s.file.filesize).toNat := by
  have place := FATFile.newPosition_inside (f := s.file) (v := v) (by omega) inside
  obtain ⟨same, before, reached⟩ := atEnd_moves word (by omega) near
  have length : s.file.newPosition v - s.file.filesize =
      (s.file.position + v - s.file.filesize).toNat := by omega
  rw [SeekExact, seek_behind onward (by omega) (by omega) same, length]
  obtain ⟨k, below, moves, all⟩ := fillLoop_moves fs (s := s.atEnd fs)
    (n := (s.file.position + v - s.file.filesize).toNat) (by omega)
  rw [← reached, ← all]
  simp only [moves, forall_const]
  omega

/-- A seek behind the range of a word is never at the sum; it fails in a file of the largest
size whose chain ends before. -/
theorem seekExact_beyond_iff (word : s.file.position < 2 ^ 32) (size : s.file.filesize < 2 ^ 32)
    (high : v < 2 ^ 31) (beyond : 2 ^ 32 ≤ s.file.position + v)
    (near : s.file.filesize = 2 ^ 32 - 1 ∨ s.file.position ≤ s.file.filesize + 2 ^ 31) :
    s.SeekExact fs v ↔ s.file.filesize = 2 ^ 32 - 1 ∧ ¬Goes fs s v.toNat := by
  have place := FATFile.newPosition_beyond word high beyond
  obtain ⟨n, rfl⟩ := Int.eq_ofNat_of_zero_le (show 0 ≤ v by omega)
  by_cases largest : s.file.filesize = 2 ^ 32 - 1
  · rw [SeekExact, seek_inside (.inr (.inr (by omega))), seekInside_forward (by omega) high word,
      seekLoop_ok_iff, and_iff_right largest, Int.toNat_natCast]
    have less := seekLoop_position_lt fs n word
    constructor
    · intro exact_ goes
      have := exact_ goes
      omega
    · exact fun ends goes => absurd goes ends
  · obtain ⟨same, before, _⟩ := atEnd_moves word size (near.resolve_left largest)
    rw [SeekExact, seek_behind (by omega) (by omega) (by omega) same]
    obtain ⟨k, below, moves, _⟩ := fillLoop_moves fs (s := s.atEnd fs)
      (n := s.file.newPosition n - s.file.filesize) (by omega)
    refine iff_of_false (fun exact_ => ?_) fun both => largest both.1
    have := exact_ rfl
    simp only [moves] at this
    omega

theorem seekExact_iff (fs : FATFileSystem) (word : s.file.position < 2 ^ 32)
    (size : s.file.filesize < 2 ^ 32)
    (low : -2 ^ 31 ≤ v) (high : v < 2 ^ 31) (returns : s.SeekReturns v) :
    s.SeekExact fs v ↔ s.SeekFits fs v := by
  rw [SeekFits]
  rcases Int.lt_trichotomy v 0 with back | stay | onward
  · rw [seekExact_backward_iff word low back]
    constructor
    · exact fun small => .inr (.inr (.inl ⟨back, small⟩))
    · rintro (before | zero | ⟨_, small⟩ | ⟨some_, _⟩ | ⟨_, some_, _⟩ | ⟨far, _⟩) <;> omega
  · refine iff_of_true (fun _ => ?_) (.inr (.inl stay))
    rw [seek_inside (.inl stay), seekInside, if_pos stay, stay, Int.add_zero]
    exact (Int.max_eq_right (Int.natCast_nonneg _)).symm
  · by_cases beyond : 2 ^ 32 ≤ s.file.position + v
    · have place := FATFile.newPosition_beyond word high beyond
      rw [seekExact_beyond_iff word size high beyond (by unfold SeekReturns at returns; omega)]
      constructor
      · exact fun both => .inr (.inr (.inr (.inr (.inr ⟨beyond, both⟩))))
      · rintro (before | zero | ⟨back, _⟩ | ⟨_, inside⟩ | ⟨_, _, inside, _⟩ | ⟨_, both⟩)
        · omega
        · omega
        · omega
        · omega
        · omega
        · exact both
    · have place := FATFile.newPosition_inside (f := s.file) (v := v) (by omega) (by omega)
      by_cases inside : s.file.position + v ≤ s.file.filesize
      · exact iff_of_true (seekExact_inside word high onward inside size)
          (.inr (.inr (.inr (.inl ⟨onward, inside⟩))))
      · rw [seekExact_behind_iff word onward (by omega) (by omega)
          (by unfold SeekReturns at returns; omega)]
        constructor
        · exact fun both => .inr (.inr (.inr (.inr (.inl ⟨by omega, onward, by omega, both⟩))))
        · rintro (before | zero | ⟨back, _⟩ | ⟨_, inside'⟩ | ⟨_, _, _, both⟩ | ⟨far, _⟩)
          · omega
          · omega
          · omega
          · omega
          · exact both
          · omega

end FileState

end Orcos.Source.Fat
