import DecisionTables.Proofs.Calendar.Days
import DecisionTables.Proofs.Calendar.Forms
import DecisionTables.Proofs.Calendar.Milliseconds
import Mathlib

/-!
# Reading written instants

A leap second that does not end a minute is written as the second after it. Main statements: any
other instant of the years 0 to 9999 is read back from its text, whichever way the text marks
universal time, and two instants of any years are written alike only if they name the same second.
-/
namespace DecisionTables.Calendar
open Text

theorem ofDigitChars_append_zeros (digits : List Char) (n : ℕ) :
    Nat.ofDigitChars 10 (digits ++ List.replicate n '0') 0 = digitsValue digits * 10 ^ n := by
  rw [Nat.ofDigitChars_append, Nat.ofDigitChars_replicate_zero, Nat.mul_comm]
  rfl

/-- A fraction of up to nine places counts nanoseconds. -/
theorem fraction_padded {places part : ℕ} {rest : List Char} (hpos : 0 < places)
    (hplaces : places ≤ 9) (hpart : part < 10 ^ places) (hrest : StartsOutside Char.isDigit rest) :
    Instant.fraction ('.' :: (padded places part ++ rest)) =
      some (part * 10 ^ (9 - places), rest) := by
  have hlength := length_padded hpos hpart
  have hdigits := isDigits_padded places part
  have hrun : (padded places part ++ rest).takeWhile Char.isDigit = padded places part :=
    takeWhile_run hdigits.2 hrest
  have hne : ¬ ((padded places part).isEmpty = true) := by simpa using hdigits.1
  simp only [Instant.fraction, hrun, if_neg hne, List.take_of_length_le (hlength.trans_le hplaces),
    ofDigitChars_append_zeros, digitsValue_padded, hlength, List.drop_left' hlength]

theorem fraction_fractionChars {nanos : ℕ} (h : nanos < 1000000000) (zone : Zone) :
    Instant.fraction (fractionChars nanos ++ zone.toChars) = some (nanos, zone.toChars) := by
  have hzone : StartsOutside Char.isDigit zone.toChars := by
    cases zone <;> exact startsOutside_cons rfl
  unfold fractionChars
  split_ifs with hzero hmilli hmicro
  · subst hzero
    cases zone <;> rfl
  · have hvalue : nanos / 1000000 * 10 ^ (9 - 3) = nanos :=
      Nat.div_mul_cancel (Nat.dvd_of_mod_eq_zero hmilli)
    rw [List.cons_append, fraction_padded (by decide) (by decide) (by omega) hzone, hvalue]
  · have hvalue : nanos / 1000 * 10 ^ (9 - 6) = nanos :=
      Nat.div_mul_cancel (Nat.dvd_of_mod_eq_zero hmicro)
    rw [List.cons_append, fraction_padded (by decide) (by decide) (by omega) hzone, hvalue]
  · rw [List.cons_append, fraction_padded (by decide) (by decide) (by omega) hzone, Nat.sub_self,
      Nat.pow_zero, Nat.mul_one]

theorem monthAndDay_padded {month day : ℕ} (hmonth : month < 100) (hday : day < 100)
    (rest : List Char) :
    monthAndDay (digits 2 2) ('-' :: (padded 2 month ++ '-' :: (padded 2 day ++ rest))) =
      some ((month, day), rest) := by
  simp [monthAndDay, expect, digits_padded, hmonth, hday]

theorem clock_padded {hour minute second : ℕ} (hhour : hour < 100) (hminute : minute < 100)
    (hsecond : second < 100) (rest : List Char) :
    clock (digits 2 2)
      (padded 2 hour ++ ':' :: (padded 2 minute ++ ':' :: (padded 2 second ++ rest))) =
      some ((hour, minute, second), rest) := by
  simp [clock, expect, digits_padded, hhour, hminute, hsecond]

namespace Instant

/-- A leap second that does not end a minute, and so cannot be shown as second 60. -/
def IsInnerLeap (a : Instant) : Prop := a.IsLeap ∧ a.seconds % 60 ≠ 59

instance (a : Instant) : Decidable a.IsInnerLeap :=
  inferInstanceAs (Decidable (a.IsLeap ∧ a.seconds % 60 ≠ 59))

/-- An instant is the one at which its date and time of day are shown, a leap second as second
60. -/
theorem ofClock?_date {a : Instant} (h : ¬ a.IsInnerLeap) : ofClock? a.date (a.secondOfDay / 3600)
    (a.secondOfDay / 60 % 60) (a.secondOfDay % 60 + a.nanos / nanosPerSecond)
    (a.nanos % nanosPerSecond) 0 = some a := by
  have hdays : a.date.toDays = a.seconds / 86400 := Date.toDays_ofDays _
  have hday : (a.secondOfDay : ℤ) = a.seconds % 86400 := by
    unfold secondOfDay
    omega
  have hfirst := a.first_le
  have hlast := a.le_last
  have hnanos := a.nanos_lt
  have hleap : nanosPerSecond ≤ a.nanos → a.seconds % 60 = 59 := by
    unfold IsInnerLeap IsLeap at h
    omega
  have hparts : ofParts? a.seconds a.nanos = some a := dif_pos ⟨hfirst, hlast, hnanos, hleap⟩
  unfold nanosPerSecond at *
  have hsecond : (if a.secondOfDay % 60 + a.nanos / 1000000000 = 60 then 1 else 0) =
      a.nanos / 1000000000 := by
    split_ifs <;> omega
  have hvalid : a.date.IsValid ∧ a.secondOfDay / 3600 ≤ 23 ∧ a.secondOfDay / 60 % 60 ≤ 59 ∧
      a.secondOfDay % 60 + a.nanos / 1000000000 ≤ 60 :=
    ⟨Date.isValid_ofDays _, by omega, by omega, by omega⟩
  rw [← hparts, ofClock?, if_pos hvalid]
  simp only [hsecond, hdays]
  congr 1
  · omega
  · unfold nanosPerSecond
    omega

def afterYear (zone : Zone) (a : Instant) : List Char :=
  '-' :: (padded 2 a.date.month ++ '-' :: (padded 2 a.date.day ++ 'T' ::
    (padded 2 (a.secondOfDay / 3600) ++ ':' :: (padded 2 (a.secondOfDay / 60 % 60) ++ ':' ::
      (padded 2 (a.secondOfDay % 60 + a.nanos / nanosPerSecond) ++
        (fractionChars (a.nanos % nanosPerSecond) ++ zone.toChars))))))

theorem toChars_eq (zone : Zone) (a : Instant) :
    a.toChars zone = yearChars a.date.year ++ a.afterYear zone := by
  simp only [toChars, afterYear, List.append_assoc, List.cons_append]

/-- The instant whose year is known, from what is written after it in RFC 3339. -/
def ofAfterYear? (year : ℤ) (text : List Char) : Option Instant := do
  let ((month, day), text) ← monthAndDay (digits 2 2) text
  let text ← (expect 'T' text).or ((expect 't' text).or (expect ' ' text))
  let ((hour, minute, second), text) ← clock (digits 2 2) text
  let (nanos, text) ← fraction text
  let offset ← offset? text
  ofClock? ⟨year, month, day⟩ hour minute second nanos offset

theorem ofRfc3339?_eq (text : List Char) :
    ofRfc3339? text = (digits 4 4 text).bind fun result => ofAfterYear? result.1 result.2 := rfl

theorem daysInMonth_le (year : ℤ) (month : ℕ) : daysInMonth year month ≤ 31 := by
  unfold daysInMonth
  split_ifs <;> decide

theorem ofAfterYear?_afterYear {a : Instant} (h : ¬ a.IsInnerLeap) (zone : Zone) :
    ofAfterYear? a.date.year (a.afterYear zone) = some a := by
  have hvalid : a.date.IsValid := Date.isValid_ofDays _
  have hnanos := a.nanos_lt
  have hday : a.secondOfDay < 86400 := by
    unfold secondOfDay
    omega
  -- Every number fits the digits that it is written with.
  have hmonth : a.date.month < 100 := hvalid.2.1.trans_lt (by decide)
  have hdayOfMonth : a.date.day < 100 :=
    (hvalid.2.2.2.trans (daysInMonth_le _ _)).trans_lt (by decide)
  have hsecond : a.secondOfDay % 60 + a.nanos / nanosPerSecond < 100 := by
    unfold nanosPerSecond at *
    omega
  have hpart : a.nanos % nanosPerSecond < 1000000000 := Nat.mod_lt _ (by decide)
  have hzone : offset? zone.toChars = some 0 := by cases zone <;> rfl
  simp only [ofAfterYear?, afterYear, monthAndDay_padded hmonth hdayOfMonth, expect, if_true,
    Option.some_or, clock_padded (show a.secondOfDay / 3600 < 100 by omega)
      (show a.secondOfDay / 60 % 60 < 100 by omega) hsecond,
    fraction_fractionChars hpart, hzone, Option.bind_eq_bind, Option.bind_some]
  exact ofClock?_date h

/-- The instant that the text of an instant names: a leap second inside a minute has the text of
the second after it. -/
def shown (a : Instant) : Instant :=
  if h : a.IsInnerLeap then
    { seconds := a.seconds + 1
      nanos := a.nanos - nanosPerSecond
      first_le := Int.le_add_one a.first_le
      le_last := by
        have hlast := a.le_last
        have hinner := h.2
        unfold lastSecond at *
        omega
      nanos_lt := (Nat.sub_le _ _).trans_lt a.nanos_lt }
  else a

theorem shown_of_not_isInnerLeap {a : Instant} (h : ¬ a.IsInnerLeap) : a.shown = a := dif_neg h

theorem parts_shown {a : Instant} (h : a.IsInnerLeap) :
    a.shown.seconds = a.seconds + 1 ∧ a.shown.nanos = a.nanos - nanosPerSecond := by
  rw [shown, dif_pos h]
  exact ⟨rfl, rfl⟩

theorem not_isInnerLeap_shown (a : Instant) : ¬ a.shown.IsInnerLeap := by
  by_cases h : a.IsInnerLeap
  · obtain ⟨-, hnanos⟩ := parts_shown h
    have hlt := a.nanos_lt
    intro hshown
    have hleap : nanosPerSecond ≤ a.shown.nanos := hshown.1
    omega
  · rwa [shown_of_not_isInnerLeap h]

theorem shown_eq_self_iff {a : Instant} : a.shown = a ↔ ¬ a.IsInnerLeap := by
  refine ⟨fun h => ?_, shown_of_not_isInnerLeap⟩
  rw [← h]
  exact not_isInnerLeap_shown a

/-- The next second lies in the same minute. -/
theorem date_shown (a : Instant) : a.shown.date = a.date := by
  by_cases h : a.IsInnerLeap
  · obtain ⟨hseconds, -⟩ := parts_shown h
    have hinner := h.2
    have hday : a.shown.seconds / 86400 = a.seconds / 86400 := by omega
    rw [date, hday, date]
  · rw [shown_of_not_isInnerLeap h]

theorem toChars_shown (zone : Zone) (a : Instant) : a.shown.toChars zone = a.toChars zone := by
  by_cases h : a.IsInnerLeap
  · obtain ⟨hseconds, hnanos⟩ := parts_shown h
    obtain ⟨hleap, hinner⟩ := h
    have hlt := a.nanos_lt
    unfold IsLeap at hleap
    have hsecondOfDay : a.shown.secondOfDay = a.secondOfDay + 1 := by
      unfold secondOfDay
      omega
    have hsecond : a.secondOfDay % 60 ≠ 59 := by
      unfold secondOfDay
      omega
    have hpart : a.shown.nanos % nanosPerSecond = a.nanos % nanosPerSecond := by
      rw [hnanos]
      exact (Nat.mod_eq_sub_mod hleap).symm
    have hquotient : a.nanos / nanosPerSecond = 1 := by
      unfold nanosPerSecond at *
      omega
    have hshown : a.shown.nanos / nanosPerSecond = 0 := by
      unfold nanosPerSecond at *
      omega
    have hhour : (a.secondOfDay + 1) / 3600 = a.secondOfDay / 3600 := by omega
    have hminute : (a.secondOfDay + 1) / 60 % 60 = a.secondOfDay / 60 % 60 := by omega
    have hlast : (a.secondOfDay + 1) % 60 + 0 = a.secondOfDay % 60 + 1 := by omega
    simp only [toChars, date_shown, hsecondOfDay, hpart, hquotient, hshown, hhour, hminute, hlast]
  · rw [shown_of_not_isInnerLeap h]

theorem localYear_yearChars (year : ℤ) {rest : List Char}
    (hrest : StartsOutside Char.isDigit rest) :
    localYear (yearChars year ++ rest) = some (year, rest) := by
  have hsigned : digits 1 (padded 4 year.natAbs ++ rest).length (padded 4 year.natAbs ++ rest) =
      some (year.natAbs, rest) := by
    have hdigits := isDigits_padded 4 year.natAbs
    rw [digits_run hdigits (List.length_pos_iff.mpr hdigits.1) (by simp) (.inr hrest),
      digitsValue_padded]
  unfold yearChars
  split_ifs with hshort hnegative
  · have hlt : year.toNat < 10 ^ 4 := by omega
    have hyear : (year.toNat : ℤ) = year := by omega
    rw [localYear_of_digits (digits_padded (by decide) hlt rest), hyear]
  · have htrim : trimLeft ('-' :: (padded 4 year.natAbs ++ rest)) =
        '-' :: (padded 4 year.natAbs ++ rest) := dropWhile_eq_self (startsOutside_cons rfl)
    have hyear : -(year.natAbs : ℤ) = year := by omega
    rw [List.cons_append, localYear, htrim]
    simp only [hsigned, Option.map_some, hyear]
  · have htrim : trimLeft ('+' :: (padded 4 year.natAbs ++ rest)) =
        '+' :: (padded 4 year.natAbs ++ rest) := dropWhile_eq_self (startsOutside_cons rfl)
    have hyear : (year.natAbs : ℤ) = year := by omega
    rw [List.cons_append, localYear, htrim]
    simp only [hsigned, Option.map_some, hyear]

/-- Two instants are written alike exactly if they are shown as one. -/
theorem toChars_eq_iff {zone : Zone} {a b : Instant} :
    a.toChars zone = b.toChars zone ↔ a.shown = b.shown := by
  refine ⟨fun h => ?_, fun h => by rw [← toChars_shown, h, toChars_shown]⟩
  have hrest : ∀ c : Instant, StartsOutside Char.isDigit (c.afterYear zone) :=
    fun c => startsOutside_cons rfl
  rw [← toChars_shown zone a, ← toChars_shown zone b, toChars_eq, toChars_eq] at h
  have hread := congrArg localYear h
  rw [localYear_yearChars _ (hrest _), localYear_yearChars _ (hrest _)] at hread
  obtain ⟨hyear, hafter⟩ := Prod.mk.inj (Option.some.inj hread)
  have ha := ofAfterYear?_afterYear (not_isInnerLeap_shown a) zone
  rw [hyear, hafter, ofAfterYear?_afterYear (not_isInnerLeap_shown b)] at ha
  exact (Option.some.inj ha).symm

theorem toText_eq_iff {zone : Zone} {a b : Instant} :
    a.toText zone = b.toText zone ↔ a.shown = b.shown := by
  rw [toText, toText, String.ofList_inj, toChars_eq_iff]

/-- The years that are written with four digits and no sign. -/
def HasShortYear (a : Instant) : Prop := 0 ≤ a.date.year ∧ a.date.year ≤ 9999

theorem yearChars_of_hasShortYear {a : Instant} (h : a.HasShortYear) :
    yearChars a.date.year = padded 4 a.date.year.toNat := if_pos h

theorem toNat_year_lt {a : Instant} (h : a.HasShortYear) : a.date.year.toNat < 10 ^ 4 := by
  have := h.2
  omega

theorem ofRfc3339?_toChars {a : Instant} (h : a.HasShortYear) (hinner : ¬ a.IsInnerLeap)
    (zone : Zone) : ofRfc3339? (a.toChars zone) = some a := by
  have hyear : (a.date.year.toNat : ℤ) = a.date.year := Int.toNat_of_nonneg h.1
  rw [toChars_eq, yearChars_of_hasShortYear h, ofRfc3339?_eq,
    digits_padded (by decide) (toNat_year_lt h), Option.bind_some, hyear,
    ofAfterYear?_afterYear hinner]

theorem trim_toChars {a : Instant} (h : a.HasShortYear) (zone : Zone) :
    trim (a.toChars zone) = a.toChars zone := by
  have hstart : trimLeft (a.toChars zone) = a.toChars zone := by
    simp only [toChars, yearChars_of_hasShortYear h, List.append_assoc]
    exact trimLeft_of_digits (digits_padded (by decide) (toNat_year_lt h) _)
  have hzone : EndsOutsideSpace zone.toChars := by
    cases zone with
    | offset => exact @endsOutsideSpace_concat ['+', '0', '0', ':', '0'] '0' rfl
    | letter => exact @endsOutsideSpace_concat [] 'Z' rfl
  have hne : zone.toChars ≠ [] := by cases zone <;> exact List.cons_ne_nil _ _
  rw [trim, hstart]
  exact trimRight_eq_self (hzone.append_left hne _)

theorem ofText?_toChars {a : Instant} (h : a.HasShortYear) (zone : Zone) :
    ofText? (a.toChars zone) = some a.shown := by
  have hshown : a.shown.HasShortYear := by rwa [HasShortYear, date_shown]
  rw [← toChars_shown, ofText?, trim_toChars hshown,
    ofRfc3339?_toChars hshown (not_isInnerLeap_shown a)]
  rfl

end Instant
end DecisionTables.Calendar
