import Mathlib.Data.Nat.Basic
import Mathlib.Tactic.Linarith

/-!
# Dates from seconds

Source: src/library/src/time.cc, `time2date`.

Cycles of 400, 100, 4 and 1 years are taken off one after the other. The last one of a kind can
be a day longer, so their numbers are clamped.
-/
namespace Orcos.Source.Library

/-- `struct tm`. -/
structure Tm where
  tm_sec : BitVec 32
  tm_min : BitVec 32
  tm_hour : BitVec 32
  tm_mday : BitVec 32
  tm_mon : BitVec 32
  tm_year : BitVec 32
  tm_wday : BitVec 32
  tm_yday : BitVec 32
  tm_isdst : BitVec 32

/-- The cycles of 400, 100, 4 and 1 years since 1601, and the seconds left. -/
structure Cycles where
  quadricentennials : Nat
  centennials : Nat
  quadrennials : Nat
  annuals : Nat
  sec : Nat

def cycles (sec : Nat) : Cycles :=
  let quadricentennials := sec / 12622780800
  let sec := sec % 12622780800
  let centennials := if 3 < sec / 3155673600 then 3 else sec / 3155673600
  let sec := sec - centennials * 3155673600
  let quadrennials := if 24 < sec / 126230400 then 24 else sec / 126230400
  let sec := sec - quadrennials * 126230400
  let annuals := if 3 < sec / 31536000 then 3 else sec / 31536000
  ⟨quadricentennials, centennials, quadrennials, annuals, sec - annuals * 31536000⟩

/-- The years since 1601. -/
def Cycles.years (c : Cycles) : Nat :=
  c.quadricentennials * 400 + c.centennials * 100 + c.quadrennials * 4 + c.annuals

def isLeap (year : Nat) : Bool := year % 4 = 0 && (year % 100 ≠ 0 || year % 400 = 0)

def daysSinceJan1st (leap : Bool) : List Nat :=
  if leap then [0, 31, 60, 91, 121, 152, 182, 213, 244, 274, 305, 335, 366]
  else [0, 31, 59, 90, 120, 151, 181, 212, 243, 273, 304, 334, 365]

/-- The loop that finds the month and the day in it, with the rest of the table from the month
before on. -/
def monthLoop (yday : Nat) : Nat → List Nat → Nat × Nat
  | month, before :: days :: rest =>
    if yday < days then (month, 1 + (yday - before)) else monthLoop yday (month + 1) (days :: rest)
  | month, _ => (month, 1)

/-- The seconds since 1601, with the offset. -/
def rebias (seconds : Nat) : Nat :=
  ((seconds + (11644473600 - 2208988800)) % 2 ^ 64 + 60 * 60 * 2) % 2 ^ 64

def time2date (seconds : Nat) : Tm :=
  let sec := rebias seconds
  let wday := (sec / 86400 + 1) % 7
  let c := cycles sec
  let year := (1601 + c.years) % 2 ^ 32
  let yday := c.sec / 86400
  let sec := c.sec % 86400
  let hour := sec / 3600
  let sec := sec % 3600
  let min := sec / 60
  let sec := sec % 60
  let found := monthLoop yday 1 (daysSinceJan1st (isLeap year))
  { tm_sec := BitVec.ofNat 32 sec
    tm_min := BitVec.ofNat 32 min
    tm_hour := BitVec.ofNat 32 hour
    tm_mday := BitVec.ofNat 32 found.2
    tm_mon := BitVec.ofNat 32 found.1
    tm_year := BitVec.ofNat 32 year
    tm_wday := BitVec.ofNat 32 wday
    tm_yday := BitVec.ofNat 32 yday
    tm_isdst := -1 }

variable {sec yday month : Nat} {table : List Nat}

theorem isLeap_iff {year : Nat} :
    isLeap year = true ↔ year % 4 = 0 ∧ (year % 100 ≠ 0 ∨ year % 400 = 0) := by
  simp [isLeap]

/-- The cycles and the rest make up the seconds. Only the last cycle of each kind is clamped. -/
theorem cycles_split (sec : Nat) :
    sec = (cycles sec).quadricentennials * 12622780800 + (cycles sec).centennials * 3155673600 +
        (cycles sec).quadrennials * 126230400 + (cycles sec).annuals * 31536000 +
        (cycles sec).sec ∧
      (cycles sec).centennials ≤ 3 ∧ (cycles sec).quadrennials ≤ 24 ∧ (cycles sec).annuals ≤ 3 ∧
      (cycles sec).sec < 31622400 ∧
      ((cycles sec).annuals < 3 ∨ (cycles sec).quadrennials = 24 ∧ (cycles sec).centennials < 3 →
        (cycles sec).sec < 31536000) := by
  have whole := Nat.div_add_mod sec 12622780800
  have below := Nat.mod_lt sec (show 0 < 12622780800 by decide)
  simp only [cycles]
  generalize sec % 12622780800 = sec at *
  generalize three : (if 3 < sec / 3155673600 then 3 else sec / 3155673600) = centennials
  have centuries : centennials ≤ 3 ∧ centennials * 3155673600 ≤ sec ∧
      sec - centennials * 3155673600 < 3155760000 ∧
      (centennials < 3 → sec - centennials * 3155673600 < 3155673600) := by
    split at three <;> omega
  generalize first : sec - centennials * 3155673600 = sec' at *
  generalize four : (if 24 < sec' / 126230400 then 24 else sec' / 126230400) = quadrennials
  have fours : quadrennials ≤ 24 ∧ quadrennials * 126230400 ≤ sec' ∧
      sec' - quadrennials * 126230400 < 126230400 ∧
      (quadrennials = 24 ∧ centennials < 3 → sec' - quadrennials * 126230400 < 126144000) := by
    split at four <;> omega
  generalize second : sec' - quadrennials * 126230400 = sec'' at *
  generalize one : (if 3 < sec'' / 31536000 then 3 else sec'' / 31536000) = annuals
  have ones : annuals ≤ 3 ∧ annuals * 31536000 ≤ sec'' ∧
      sec'' - annuals * 31536000 < 31622400 ∧
      (annuals < 3 ∨ sec'' < 126144000 → sec'' - annuals * 31536000 < 31536000) := by
    split at one <;> omega
  omega

/-- The cycles and the rest make up the days and seconds, and the rest is inside the year. -/
theorem cycles_spec (sec : Nat) :
    sec = 86400 * (365 * (cycles sec).years + (cycles sec).years / 4 - (cycles sec).years / 100 +
        (cycles sec).years / 400) + (cycles sec).sec ∧
      (cycles sec).sec < 86400 * if isLeap (1601 + (cycles sec).years) then 366 else 365 := by
  obtain ⟨whole, centuries, fours, ones, rest, short⟩ := cycles_split sec
  rw [Cycles.years]
  generalize cycles sec = c at *
  constructor
  · omega
  · split
    · omega
    · next common =>
      rw [isLeap_iff] at common
      apply short
      omega

/-- The month found is the one around the day. -/
theorem monthLoop_spec (table : List Nat) (month : Nat)
    (first : ∀ before, table.head? = some before → before ≤ yday)
    (last : ∃ days ∈ table, yday < days) :
    ∃ k before days, table[k]? = some before ∧ table[k + 1]? = some days ∧ before ≤ yday ∧
      yday < days ∧ monthLoop yday month table = (month + k, 1 + (yday - before)) := by
  fun_induction monthLoop yday month table with
  | case1 month before days rest here =>
    exact ⟨0, before, days, rfl, rfl, first before rfl, here, rfl⟩
  | case2 month before days rest later ih =>
    have next : ∃ days' ∈ days :: rest, yday < days' := by
      obtain ⟨days', member, less⟩ := last
      rcases List.mem_cons.mp member with same | member
      · have := first before rfl
        omega
      · exact ⟨days', member, less⟩
    obtain ⟨k, before', days', here, behind, low, high, found⟩ :=
      ih (fun b same => by cases same; omega) next
    refine ⟨k + 1, before', days', here, behind, low, high, ?_⟩
    rw [found, Nat.add_right_comm, Nat.add_assoc]
  | case3 table month short =>
    obtain ⟨days, member, less⟩ := last
    cases table with
    | nil => cases member
    | cons before rest =>
      cases rest with
      | nil =>
        obtain rfl := List.mem_singleton.mp member
        have := first days rfl
        omega
      | cons days' rest => exact (short before days' rest rfl).elim

end Orcos.Source.Library
