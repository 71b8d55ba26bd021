import DecisionTables.Calendar.Date
import Mathlib

/-!
# Days and dates

Days and dates correspond: the date of a day is a date of the calendar, and the number of this date
is the day.
-/
namespace DecisionTables.Calendar

/-- A year that begins in March ends with February of the next calendar year. -/
theorem daysBeforeMarch_succ (year : ℤ) : daysBeforeMarch (year + 1) =
    daysBeforeMarch year + if isLeapYear (year + 1) then 366 else 365 := by
  simp only [daysBeforeMarch, isLeapYear, Bool.and_eq_true, Bool.or_eq_true, decide_eq_true_eq]
  split_ifs <;> omega

namespace Date

/-- The date on a day of a year that begins in March, which lies in the month so many months after
March. -/
def ofMarch (year month dayOfYear : ℤ) : Date :=
  let dayOfMonth := (dayOfYear - daysBeforeMonth month + 1).toNat
  if month < 10 then ⟨year, (month + 3).toNat, dayOfMonth⟩
  else ⟨year + 1, (month - 9).toNat, dayOfMonth⟩

structure InMarchYear (year month dayOfYear : ℤ) : Prop where
  month_nonneg : 0 ≤ month
  month_le : month ≤ 11
  first_le : daysBeforeMonth month ≤ dayOfYear
  lt_next : dayOfYear < daysBeforeMonth (month + 1)
  lt_length : dayOfYear < if isLeapYear (year + 1) then 366 else 365

variable {year month dayOfYear : ℤ}

theorem toDays_ofMarch (h : InMarchYear year month dayOfYear) :
    (ofMarch year month dayOfYear).toDays = daysBeforeMarch year + dayOfYear - epochDay := by
  obtain ⟨hnonneg, hle, hfirst, -, -⟩ := h
  have hday : ((dayOfYear - daysBeforeMonth month + 1).toNat : ℤ) =
      dayOfYear - daysBeforeMonth month + 1 := Int.toNat_of_nonneg (by omega)
  by_cases hmarch : month < 10
  · have hmonth : ((month + 3).toNat : ℤ) - 3 = month := by omega
    simp only [ofMarch, toDays, hmarch, if_true]
    rw [if_neg (by omega), hmonth, hday]
    omega
  · have hmonth : ((month - 9).toNat : ℤ) + 9 = month := by omega
    simp only [ofMarch, toDays, hmarch, if_false]
    rw [if_pos (by omega), hmonth, hday, Int.add_sub_cancel]
    omega

theorem isValid_ofMarch (h : InMarchYear year month dayOfYear) :
    (ofMarch year month dayOfYear).IsValid := by
  obtain ⟨hnonneg, hle, hfirst, hnext, hlength⟩ := h
  unfold daysBeforeMonth at hfirst hnext
  unfold ofMarch IsValid daysInMonth daysBeforeMonth
  -- Each month has its own length; only the last one depends on the year.
  interval_cases month <;> simp <;> split_ifs at hlength ⊢ <;> omega

theorem exists_inMarchYear (days : ℤ) : ∃ year month dayOfYear : ℤ,
    InMarchYear year month dayOfYear ∧ daysBeforeMarch year + dayOfYear = days + epochDay ∧
    ofDays days = ofMarch year month dayOfYear := by
  have hfirst := daysBeforeMarch_marchYear_le (days + epochDay)
  have hnext := lt_daysBeforeMarch_marchYear_succ (days + epochDay)
  rw [daysBeforeMarch_succ] at hnext
  set year := marchYear (days + epochDay)
  set dayOfYear := days + epochDay - daysBeforeMarch year
  have hlength : dayOfYear < if isLeapYear (year + 1) then 366 else 365 := by omega
  have hbound : dayOfYear < 366 := by split_ifs at hlength <;> omega
  have hmonth : InMarchYear year ((5 * dayOfYear + 2) / 153) dayOfYear :=
    { month_nonneg := by omega
      month_le := by omega
      first_le := by unfold daysBeforeMonth; omega
      lt_next := by unfold daysBeforeMonth; omega
      lt_length := hlength }
  exact ⟨_, _, _, hmonth, by omega, rfl⟩

theorem isValid_ofDays (days : ℤ) : (ofDays days).IsValid := by
  obtain ⟨year, month, dayOfYear, h, -, hdate⟩ := exists_inMarchYear days
  rw [hdate]
  exact isValid_ofMarch h

theorem toDays_ofDays (days : ℤ) : (ofDays days).toDays = days := by
  obtain ⟨year, month, dayOfYear, h, hsum, hdate⟩ := exists_inMarchYear days
  rw [hdate, toDays_ofMarch h, hsum, Int.add_sub_cancel]

end Date
end DecisionTables.Calendar
