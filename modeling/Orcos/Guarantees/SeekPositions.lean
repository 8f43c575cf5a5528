import Orcos.Source.Seeking

/-!
# Positions after a seek

Source: src/source/syscalls/sc_io.cc, `sc_fseek`; src/source/filesystem/Directory.hh,
`seek`; src/source/hal/CharacterDevice.hh, `seek`; src/source/filesystem/fat/FATFile.cc,
`seek`.

A directory and a file of the ram file system take the sum as it wraps around, which is
wrong for each negative sum. A FAT file keeps to the range of a word, but takes a position
from 2 GB on for a negative one where it counts from the first byte, and does not look at
whether the zeros behind its end were written.
-/
namespace Orcos.Guarantees.SeekPositions
open Source Source.Files Source.Fat

/-- Positions and sizes are words. -/
def Words (res : OpenResource) : Prop := res.position < 2 ^ 32 ∧ res.maxsize < 2 ^ 32

/-- Where a seek counts from. -/
def base (res : OpenResource) (whence : Int) : Int :=
  if whence = seekSet then 0 else if whence = seekCur then res.position else res.maxsize

def sum (res : OpenResource) (offset : BitVec 32) (whence : Int) : Int :=
  base res whence + offset.toInt

/-- The sum, or 0 in place of a negative one, or in a directory at most the number of
entries. -/
def exactPosition (res : OpenResource) (offset : BitVec 32) (whence : Int) : Int :=
  match res with
  | .directory _ _ => min res.maxsize (max 0 (sum res offset whence))
  | .overlayDirectory _ _ => min res.maxsize (max 0 (sum res offset whence))
  | .ramFile _ => max 0 (sum res offset whence)
  | .fatFile _ _ => max 0 (sum res offset whence)

/-- A seek that succeeds leaves the exact position. -/
def Exact (res : OpenResource) (offset : BitVec 32) (whence : Int) : Prop :=
  ∀ res', res.scFseek offset whence = some (res', cOk) →
    (res'.position : Int) = exactPosition res offset whence

/-- When the position is right: for a directory that has entries, a sum that is not negative;
for a file of the ram file system, a sum in the range of a word; for a FAT file, one that
`seek` can reach, and from the end one below 2 GB. A seek that fails says nothing. -/
def Lands (res : OpenResource) (offset : BitVec 32) (whence : Int) : Prop :=
  (whence < seekSet ∨ seekEnd < whence) ∨ (whence = seekSet ∧ offset.toInt ≤ 0) ∨
  match res with
  | .directory _ numEntries =>
    (0 ≤ sum res offset whence ∨ numEntries.toNat = 0) ∧
      (sum res offset whence < 2 ^ 32 ∨ numEntries.toNat ≤ sum res offset whence - 2 ^ 32)
  | .overlayDirectory _ _ => True
  | .ramFile _ => 0 ≤ sum res offset whence ∧ sum res offset whence < 2 ^ 32
  | .fatFile fs s =>
    if whence = seekSet then (s.rewound fs).SeekFits fs offset.toInt
    else if whence = seekCur then s.SeekReturns offset.toInt → s.SeekFits fs offset.toInt
    else (sum res offset whence < 2 ^ 31 ∧
        (s.rewound fs).SeekFits fs (sum res offset whence)) ∨
      (2 ^ 32 ≤ sum res offset whence ∧
        ¬Goes fs (s.rewound fs) (sum res offset whence - 2 ^ 32).toNat)

variable {res : OpenResource} {offset : BitVec 32} {whence : Int}

/-- The call behind its checks: it seeks from the position, or from the first byte. -/
theorem scFseek_eq (res : OpenResource) (valid : ¬(whence < seekSet ∨ seekEnd < whence))
    (some_ : ¬(whence = seekSet ∧ offset.toInt ≤ 0)) :
    res.scFseek offset whence =
      if whence = seekSet then res.resetPosition.seek offset.toInt
      else if whence = seekCur then res.seek offset.toInt
      else res.resetPosition.seek (BitVec.ofNat 32 res.maxsize + offset).toInt := by
  rw [OpenResource.scFseek, if_neg valid]
  by_cases set : whence = seekSet
  · rw [if_pos set, if_pos set, if_pos (by omega)]
  · rw [if_neg set, if_neg set]

/-- The offset from the end is the sum, as far as a signed word goes. -/
theorem endOffset_emod (size : Nat) (offset : BitVec 32) :
    (BitVec.ofNat 32 size + offset).toInt % 2 ^ 32 = (size + offset.toInt) % 2 ^ 32 := by
  have wrapped : ((BitVec.ofNat 32 size).toInt : Int) % (2 ^ 32 : Nat) = size % (2 ^ 32 : Nat) := by
    rw [BitVec.toInt_ofNat', Int.bmod_emod]
  rw [BitVec.toInt_add, show (2 : Int) ^ 32 = (2 ^ 32 : Nat) from rfl, Int.bmod_emod, Int.add_emod,
    wrapped, ← Int.add_emod]

theorem sum_bounds (words : Words res) (offset : BitVec 32) (whence : Int) :
    -2 ^ 31 ≤ sum res offset whence ∧ sum res offset whence < 2 ^ 32 + 2 ^ 31 := by
  have low := BitVec.le_toInt offset
  have high := BitVec.toInt_lt (x := offset)
  obtain ⟨position, size⟩ := words
  unfold sum base
  split
  · omega
  · split <;> omega

theorem resetPosition_position : res.resetPosition.position = 0 := by
  cases res <;> rfl

/-- The seek starts at the position or at the first byte, and goes for the sum as a word. -/
theorem scFseek_start (valid : ¬(whence < seekSet ∨ seekEnd < whence))
    (some_ : ¬(whence = seekSet ∧ offset.toInt ≤ 0)) :
    ∃ start v, (start = res ∨ start = res.resetPosition) ∧
      res.scFseek offset whence = start.seek v ∧
      ((start.position : Int) + v) % 2 ^ 32 = sum res offset whence % 2 ^ 32 := by
  rw [scFseek_eq res valid some_]
  unfold sum base
  by_cases set : whence = seekSet
  · simp only [if_pos set]
    exact ⟨_, _, .inr rfl, rfl, by rw [resetPosition_position]; rfl⟩
  · simp only [if_neg set]
    by_cases cur : whence = seekCur
    · simp only [if_pos cur]
      exact ⟨_, _, .inl rfl, rfl, rfl⟩
    · simp only [if_neg cur]
      refine ⟨_, _, .inr rfl, rfl, ?_⟩
      rw [resetPosition_position, ← endOffset_emod res.maxsize offset, Int.natCast_zero,
        Int.zero_add]

theorem directory_exact_iff {position : Nat} {numEntries : BitVec 16}
    (words : Words (.directory position numEntries))
    (valid : ¬(whence < seekSet ∨ seekEnd < whence))
    (some_ : ¬(whence = seekSet ∧ offset.toInt ≤ 0)) :
    Exact (.directory position numEntries) offset whence ↔
      Lands (.directory position numEntries) offset whence := by
  obtain ⟨low, high⟩ := sum_bounds words offset whence
  obtain ⟨start, v, from_, seeks, same⟩ := scFseek_start valid some_
  obtain ⟨place, rfl⟩ : ∃ place, start = .directory place numEntries := by
    rcases from_ with rfl | rfl
    · exact ⟨position, rfl⟩
    · exact ⟨0, rfl⟩
  have size := numEntries.isLt
  have target := unint4_eq (place + v)
  have lands : Lands (.directory position numEntries) offset whence ↔
      (0 ≤ sum (.directory position numEntries) offset whence ∨ numEntries.toNat = 0) ∧
        (sum (.directory position numEntries) offset whence < 2 ^ 32 ∨
          numEntries.toNat ≤ sum (.directory position numEntries) offset whence - 2 ^ 32) := by
    unfold Lands
    rw [or_iff_right valid, or_iff_right some_]
  have exact_ : Exact (.directory position numEntries) offset whence ↔
      (OpenResource.seekDirectory place numEntries v : Int) =
        min (numEntries.toNat : Int)
          (max 0 (sum (.directory position numEntries) offset whence)) := by
    rw [Exact, seeks]
    constructor
    · exact fun all => all _ rfl
    · intro equal res' result
      cases result
      exact equal
  simp only [OpenResource.position] at same
  rw [lands, exact_, OpenResource.seekDirectory]
  split <;> omega

theorem ramFile_exact_iff {file : RamFile} (words : Words (.ramFile file))
    (valid : ¬(whence < seekSet ∨ seekEnd < whence))
    (some_ : ¬(whence = seekSet ∧ offset.toInt ≤ 0)) :
    Exact (.ramFile file) offset whence ↔ Lands (.ramFile file) offset whence := by
  obtain ⟨low, high⟩ := sum_bounds words offset whence
  obtain ⟨start, v, from_, seeks, same⟩ := scFseek_start valid some_
  obtain ⟨file', rfl⟩ : ∃ file', start = .ramFile file' := by
    rcases from_ with rfl | rfl
    · exact ⟨file, rfl⟩
    · exact ⟨file.resetPosition, rfl⟩
  have lands : Lands (.ramFile file) offset whence ↔
      0 ≤ sum (.ramFile file) offset whence ∧ sum (.ramFile file) offset whence < 2 ^ 32 := by
    unfold Lands
    rw [or_iff_right valid, or_iff_right some_]
  have exact_ : Exact (.ramFile file) offset whence ↔
      (((file'.position + v) % 2 ^ 32).toNat : Int) =
        max 0 (sum (.ramFile file) offset whence) := by
    rw [Exact, seeks]
    constructor
    · exact fun all => all _ rfl
    · intro equal res' result
      cases result
      exact equal
  simp only [OpenResource.position] at same
  rw [lands, exact_]
  omega

/-- What the position of a FAT file has to be after a seek that returns and succeeds. -/
theorem fatFile_exact {fs : FATFileSystem} {s : FileState} {v target : Int}
    {answer : Option (OpenResource × ErrorT)} (seeks : answer = (OpenResource.fatFile fs s).seek v)
    (returns : s.SeekReturns v) :
    (∀ res', answer = some (res', cOk) → (res'.position : Int) = target) ↔
      ((s.seek fs v).2 = cOk → ((s.seek fs v).1.file.position : Int) = target) := by
  rw [seeks, OpenResource.seek, if_pos returns]
  constructor
  · exact fun all ok => all (.fatFile fs (s.seek fs v).1) (by rw [ok])
  · intro exact_ res' result
    obtain ⟨rfl, ok⟩ := Prod.mk.inj (Option.some.inj result)
    exact exact_ ok

/-- A seek from the end of a FAT file, with the offset as a signed word. -/
theorem seekEnd_exact_iff {fs : FATFileSystem} {s : FileState} {v target : Int}
    (size : s.file.filesize < 2 ^ 32) (low : -2 ^ 31 ≤ v) (high : v < 2 ^ 31)
    (same : v % 2 ^ 32 = target % 2 ^ 32) (least : -2 ^ 31 ≤ target)
    (most : target < s.file.filesize + 2 ^ 31) :
    (((s.rewound fs).seek fs v).2 = cOk →
        (((s.rewound fs).seek fs v).1.file.position : Int) = max 0 target) ↔
      (target < 2 ^ 31 ∧ (s.rewound fs).SeekFits fs target) ∨
        (2 ^ 32 ≤ target ∧ ¬Goes fs (s.rewound fs) (target - 2 ^ 32).toNat) := by
  have first : (s.rewound fs).file.position = 0 := rfl
  have keeps : (s.rewound fs).file.filesize = s.file.filesize := rfl
  have returns : (s.rewound fs).SeekReturns v := .inr (.inr (.inr (by omega)))
  by_cases small : target < 2 ^ 31
  · obtain rfl : v = target := by omega
    have exact_ := FileState.seekExact_iff fs (s := s.rewound fs) (by omega) (by omega)
      low high returns
    rw [FileState.SeekExact, first, Int.natCast_zero, Int.zero_add] at exact_
    rw [exact_, and_iff_right small, or_iff_left (by omega)]
  · rw [or_iff_right (by omega)]
    by_cases word : target < 2 ^ 32
    · have place := FATFile.newPosition_before (f := (s.rewound fs).file) (v := v)
        (by omega) low (by omega)
      obtain ⟨ok, zero, _⟩ := FileState.seekInside_before fs (s := s.rewound fs) low
        (by omega) (by omega)
      rw [FileState.seek_inside (.inr (.inr (by omega)))]
      exact iff_of_false (fun exact_ => by have := exact_ ok; omega) (by omega)
    · obtain ⟨n, rfl⟩ := Int.eq_ofNat_of_zero_le (show 0 ≤ v by omega)
      have place := FATFile.newPosition_inside (f := (s.rewound fs).file) (v := n)
        (by omega) (by omega)
      have length : (target - 2 ^ 32).toNat = n := by omega
      rw [and_iff_right (by omega), length]
      by_cases none_ : n = 0
      · subst none_
        rw [Int.natCast_zero, FileState.seek_inside (.inl rfl), FileState.seekInside, if_pos rfl]
        refine iff_of_false (fun exact_ => ?_) (not_not.mpr (.inside (by
          have := (s.rewound fs).file.sectorPos_lt
          omega)))
        have zero := exact_ rfl
        rw [first] at zero
        omega
      · rw [FileState.seek_inside (.inr (.inr (by omega))),
          FileState.seekInside_forward (by omega) high (by omega), FileState.seekLoop_ok_iff]
        constructor
        · intro exact_ goes
          have arrives := FileState.seekLoop_arrives (by omega) goes
          have := exact_ goes
          omega
        · exact fun ends goes => absurd goes ends

theorem fatFile_exact_iff {fs : FATFileSystem} {s : FileState} (words : Words (.fatFile fs s))
    (valid : ¬(whence < seekSet ∨ seekEnd < whence))
    (some_ : ¬(whence = seekSet ∧ offset.toInt ≤ 0)) :
    Exact (.fatFile fs s) offset whence ↔ Lands (.fatFile fs s) offset whence := by
  have low := BitVec.le_toInt offset
  have high := BitVec.toInt_lt (x := offset)
  have position : s.file.position < 2 ^ 32 := words.1
  have size : s.file.filesize < 2 ^ 32 := words.2
  have first : (s.rewound fs).file.position = 0 := rfl
  have keeps : (s.rewound fs).file.filesize = s.file.filesize := rfl
  have returns (v : Int) : (s.rewound fs).SeekReturns v := .inr (.inr (.inr (by omega)))
  have lands : Lands (.fatFile fs s) offset whence ↔
      if whence = seekSet then (s.rewound fs).SeekFits fs offset.toInt
      else if whence = seekCur then s.SeekReturns offset.toInt → s.SeekFits fs offset.toInt
      else (sum (.fatFile fs s) offset whence < 2 ^ 31 ∧
          (s.rewound fs).SeekFits fs (sum (.fatFile fs s) offset whence)) ∨
        (2 ^ 32 ≤ sum (.fatFile fs s) offset whence ∧
          ¬Goes fs (s.rewound fs) (sum (.fatFile fs s) offset whence - 2 ^ 32).toNat) := by
    unfold Lands
    rw [or_iff_right valid, or_iff_right some_]
  rw [lands]
  have seeks := scFseek_eq (.fatFile fs s) valid some_
  unfold Exact exactPosition sum base
  by_cases set : whence = seekSet
  · simp only [if_pos set] at seeks ⊢
    have exact_ := FileState.seekExact_iff fs (s := s.rewound fs) (by omega) (by omega)
      low high (returns _)
    rw [FileState.SeekExact, first] at exact_
    rw [← exact_]
    exact fatFile_exact seeks (returns _)
  · by_cases cur : whence = seekCur
    · simp only [if_neg set, if_pos cur] at seeks ⊢
      by_cases returns' : s.SeekReturns offset.toInt
      · rw [imp_iff_right returns', ← FileState.seekExact_iff fs position size low high returns']
        exact fatFile_exact seeks returns'
      · refine iff_of_true (fun res' result => ?_) fun returns => absurd returns returns'
        rw [seeks, OpenResource.seek, if_neg returns'] at result
        cases result
    · simp only [if_neg set, if_neg cur] at seeks ⊢
      rw [fatFile_exact seeks (returns _)]
      exact seekEnd_exact_iff size (BitVec.le_toInt _) BitVec.toInt_lt
        (endOffset_emod s.file.filesize offset) (by simp only [OpenResource.maxsize]; omega)
        (by simp only [OpenResource.maxsize]; omega)

/-- A seek that succeeds leaves the exact position when it lands there. -/
theorem seek_exact_iff (words : Words res) : Exact res offset whence ↔ Lands res offset whence := by
  by_cases invalid : whence < seekSet ∨ seekEnd < whence
  · refine iff_of_true (fun res' result => ?_) (.inl invalid)
    rw [OpenResource.scFseek, if_pos invalid] at result
    cases result
  by_cases stay : whence = seekSet ∧ offset.toInt ≤ 0
  · refine iff_of_true (fun res' result => ?_) (.inr (.inl stay))
    obtain ⟨set, none_⟩ := stay
    rw [OpenResource.scFseek, if_neg invalid, if_pos set, if_neg (by omega)] at result
    cases result
    have first : sum res offset whence ≤ 0 := by
      rw [sum, base, if_pos set]
      omega
    rw [resetPosition_position]
    unfold exactPosition
    cases res with
    | directory position numEntries => simp only; omega
    | overlayDirectory position numEntries => simp only; omega
    | ramFile file => simp only; omega
    | fatFile fs s => simp only; omega
  cases res with
  | directory position numEntries => exact directory_exact_iff words invalid stay
  | ramFile file => exact ramFile_exact_iff words invalid stay
  | fatFile fs s => exact fatFile_exact_iff words invalid stay
  | overlayDirectory position numEntries =>
    refine iff_of_true (fun res' result => ?_) (.inr (.inr trivial))
    obtain ⟨start, v, from_, seeks, _⟩ := scFseek_start invalid stay
    rcases from_ with rfl | rfl
    · rw [seeks, OpenResource.seek] at result
      cases result
    · rw [seeks, OpenResource.resetPosition, OpenResource.seek] at result
      cases result

/-- A file of ten bytes, behind its fourth one. -/
def smallFile : OpenResource := .ramFile ⟨1, 1, 0, 4, 10⟩

theorem seek_exact_iff_smallFile : Exact smallFile 3 seekCur ↔ Lands smallFile 3 seekCur :=
  seek_exact_iff ⟨by decide, by decide⟩

/-- One byte before the first a file is at the largest position, and a directory with five
entries is behind the last. -/
theorem seek_wraps :
    (Words smallFile ∧ ¬Exact smallFile (-5) seekCur) ∧
      Words (.directory 2 5) ∧ ¬Exact (.directory 2 5) (-3) seekCur := by
  refine ⟨⟨⟨by decide, by decide⟩, fun exact_ => ?_⟩, ⟨by decide, by decide⟩, fun exact_ => ?_⟩
  · have position := exact_ (.ramFile ⟨1, 1, 0, 2 ^ 32 - 1, 10⟩) rfl
    revert position
    decide
  · have position := exact_ (.directory 5 5) rfl
    revert position
    decide

end Orcos.Guarantees.SeekPositions
