/-!
# Calendar dates

Dates of the Gregorian calendar, extended to all years, and their numbering by days from
1970-01-01. Years are counted from March, so that the leap day is the last day of a year; the days
before such a year are then one formula, and the year of a day is found by an estimate that is off
by at most one. Main statement: a day lies between the first days of its year and of the next.
-/
namespace DecisionTables.Calendar

structure Date where
  year : Int
  month : Nat
  day : Nat
  deriving DecidableEq

def isLeapYear (year : Int) : Bool := year % 4 = 0 && (year % 100 ≠ 0 || year % 400 = 0)

def daysInMonth (year : Int) (month : Nat) : Nat :=
  if month = 2 then if isLeapYear year then 29 else 28
  else if month = 4 ∨ month = 6 ∨ month = 9 ∨ month = 11 then 30
  else 31

def daysBeforeMarch (year : Int) : Int := 365 * year + year / 4 - year / 100 + year / 400

def epochDay : Int := 719468

/-- The days from 1 March to the first of a month, which counts from 0 for March. -/
def daysBeforeMonth (fromMarch : Int) : Int := (153 * fromMarch + 2) / 5

namespace Date

def IsValid (d : Date) : Prop :=
  1 ≤ d.month ∧ d.month ≤ 12 ∧ 1 ≤ d.day ∧ d.day ≤ daysInMonth d.year d.month

instance (d : Date) : Decidable d.IsValid := inferInstanceAs (Decidable (_ ∧ _))

def toDays (d : Date) : Int :=
  if d.month ≤ 2 then
    daysBeforeMarch (d.year - 1) + daysBeforeMonth (d.month + 9) + d.day - 1 - epochDay
  else
    daysBeforeMarch d.year + daysBeforeMonth (d.month - 3) + d.day - 1 - epochDay

/-- The year, counted from March, of a day counted from 0000-03-01. -/
def marchYear (day : Int) : Int :=
  let estimate := 400 * day / 146097
  if day < daysBeforeMarch estimate then estimate - 1
  else if daysBeforeMarch (estimate + 1) ≤ day then estimate + 1
  else estimate

def ofDays (days : Int) : Date :=
  let day := days + epochDay
  let year := marchYear day
  let dayOfYear := day - daysBeforeMarch year
  let month := (5 * dayOfYear + 2) / 153
  let dayOfMonth := (dayOfYear - daysBeforeMonth month + 1).toNat
  if month < 10 then ⟨year, (month + 3).toNat, dayOfMonth⟩
  else ⟨year + 1, (month - 9).toNat, dayOfMonth⟩

theorem daysBeforeMarch_marchYear_le (day : Int) : daysBeforeMarch (marchYear day) ≤ day := by
  unfold marchYear
  simp only
  split
  · unfold daysBeforeMarch at *; omega
  · split
    · assumption
    · omega

theorem lt_daysBeforeMarch_marchYear_succ (day : Int) :
    day < daysBeforeMarch (marchYear day + 1) := by
  unfold marchYear
  simp only
  split
  · simpa using ‹_›
  · split
    · unfold daysBeforeMarch at *; omega
    · omega

end Date
end DecisionTables.Calendar
