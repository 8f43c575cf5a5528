import Orcos.Source.Library.Time

/-!
# Calendar dates

Source: src/library/src/time.cc, `time2date`.

The days before a year are counted year by year, and what the cycles leave is a day of the year
they lead to. A date carries that it is one of the calendar.
-/
namespace Orcos.Guarantees.CalendarDates
open Source.Library

def yearDays (year : Nat) : Nat := if isLeap year then 366 else 365

def daysInMonth (leap : Bool) (month : Nat) : Nat :=
  if month = 2 then (if leap then 29 else 28)
  else if month = 4 ∨ month = 6 ∨ month = 9 ∨ month = 11 then 30 else 31

/-- The days before a year, from the year 0 on. -/
def daysToYear : Nat → Nat
  | 0 => 0
  | year + 1 => daysToYear year + yearDays year

/-- The days of a year before a month. -/
def daysToMonth (leap : Bool) (month : Nat) : Nat :=
  ((List.range' 1 (month - 1)).map (daysInMonth leap)).sum

/-- A date of the proleptic Gregorian calendar with a time. -/
structure Date where
  year : Nat
  month : Nat
  mday : Nat
  hour : Nat
  min : Nat
  sec : Nat
  month_mem : 1 ≤ month ∧ month ≤ 12
  mday_mem : 1 ≤ mday ∧ mday ≤ daysInMonth (isLeap year) month
  hour_lt : hour < 24
  min_lt : min < 60
  sec_lt : sec < 60

namespace Date

variable (date : Date)

/-- The days since the first of January. -/
def yday : Nat := daysToMonth (isLeap date.year) date.month + (date.mday - 1)

def days : Nat := daysToYear date.year + date.yday

def seconds : Nat := ((date.days * 24 + date.hour) * 60 + date.min) * 60 + date.sec

end Date

/-- The first second of 1900. -/
def epoch : Date := ⟨1900, 1, 1, 0, 0, 0, by decide, by decide, by decide, by decide, by decide⟩

/-- The day of the week, with 0 for a Sunday. The epoch was a Monday. -/
def Date.weekday (date : Date) : Nat := (1 + (date.days - epoch.days)) % 7

/-- No sum is too large for its word. -/
def Sums (seconds : Nat) : Prop :=
  seconds + (11644473600 - 2208988800) + 60 * 60 * 2 < 2 ^ 64 ∧
    1601 + (cycles (rebias seconds)).years < 2 ^ 32

/-- The fields for a date. -/
def fields (date : Date) : Tm where
  tm_sec := BitVec.ofNat 32 date.sec
  tm_min := BitVec.ofNat 32 date.min
  tm_hour := BitVec.ofNat 32 date.hour
  tm_mday := BitVec.ofNat 32 date.mday
  tm_mon := BitVec.ofNat 32 date.month
  tm_year := BitVec.ofNat 32 date.year
  tm_wday := BitVec.ofNat 32 date.weekday
  tm_yday := BitVec.ofNat 32 date.yday
  tm_isdst := -1

theorem daysToYear_eq (year : Nat) :
    daysToYear year = 365 * year + (year + 3) / 4 - (year + 99) / 100 + (year + 399) / 400 := by
  induction year with
  | zero => rfl
  | succ year ih =>
    rw [daysToYear, ih, yearDays]
    split
    · next leap =>
      rw [isLeap_iff] at leap
      omega
    · next common =>
      rw [isLeap_iff] at common
      omega

theorem daysToYear_cycles (years : Nat) :
    daysToYear (1601 + years) =
      daysToYear 1601 + (365 * years + years / 4 - years / 100 + years / 400) := by
  rw [daysToYear_eq, daysToYear_eq]
  omega

theorem epoch_days : epoch.days = daysToYear 1601 + 109207 := by
  have january : epoch.yday = 0 := rfl
  have year : epoch.year = 1601 + 299 := rfl
  rw [Date.days, january, year, daysToYear_cycles]

/-- The table holds the days before each month and before the end of the year. -/
theorem getElem?_daysSinceJan1st (leap : Bool) (k : Nat) (inside : k < 13) :
    (daysSinceJan1st leap)[k]? = some (daysToMonth leap (k + 1)) := by
  revert k
  cases leap <;> decide

theorem daysToMonth_succ (leap : Bool) (k : Nat) :
    daysToMonth leap (k + 1 + 1) = daysToMonth leap (k + 1) + daysInMonth leap (k + 1) := by
  rw [daysToMonth, daysToMonth, Nat.add_sub_cancel, Nat.add_sub_cancel, List.range'_concat,
    List.map_append, List.sum_append]
  simp [Nat.add_comm]

/-- The month and the day in it for a day of a year. -/
theorem monthLoop_daysSinceJan1st {leap : Bool} {yday : Nat}
    (inside : yday < if leap then 366 else 365) :
    ∃ month mday, monthLoop yday 1 (daysSinceJan1st leap) = (month, mday) ∧
      (1 ≤ month ∧ month ≤ 12) ∧ (1 ≤ mday ∧ mday ≤ daysInMonth leap month) ∧
      yday = daysToMonth leap month + (mday - 1) := by
  have first : ∀ before, (daysSinceJan1st leap).head? = some before → before ≤ yday := by
    intro before here
    cases leap <;> cases here <;> omega
  have last : ∃ days ∈ daysSinceJan1st leap, yday < days := by
    cases leap
    · exact ⟨365, by decide, inside⟩
    · exact ⟨366, by decide, inside⟩
  obtain ⟨k, before, days, here, behind, low, high, found⟩ := monthLoop_spec _ 1 first last
  have length : (daysSinceJan1st leap).length = 13 := by cases leap <;> rfl
  have below := (List.getElem?_eq_some_iff.mp behind).1
  rw [getElem?_daysSinceJan1st leap k (by omega), Option.some.injEq] at here
  rw [getElem?_daysSinceJan1st leap (k + 1) (by omega), Option.some.injEq] at behind
  have step := daysToMonth_succ leap k
  refine ⟨1 + k, 1 + (yday - before), found, by omega, ?_, ?_⟩
  · rw [Nat.add_comm 1 k]
    omega
  · rw [Nat.add_comm 1 k, here]
    omega

theorem rebias_eq {seconds : Nat}
    (fits : seconds + (11644473600 - 2208988800) + 60 * 60 * 2 < 2 ^ 64) :
    rebias seconds = 109207 * 86400 + seconds + 7200 := by
  rw [rebias]
  omega

end Orcos.Guarantees.CalendarDates
