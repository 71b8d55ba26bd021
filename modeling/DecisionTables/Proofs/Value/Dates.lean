import DecisionTables.Table.Column
import DecisionTables.Value.Basic
import DecisionTables.Proofs.Calendar.Printing
import DecisionTables.Proofs.Number.Integers
import Mathlib

/-!
# Dates as texts and as numbers

A date in a record or an output may go through its text or through its milliseconds. Main
statements: both texts of a date of the years 0 to 9999 read back to it, unless it is a leap second
inside a minute, and between dates and numbers nothing is lost but the part of a millisecond and the
fraction of a number.
-/
namespace DecisionTables.Value
open Calendar

/-- The text is read as the instant, turned into it and compared with it as equal. -/
structure StandsFor (text : String) (a : Instant) : Prop where
  reads : dateOf? text = some a
  coerces : ColumnType.date.coerce (.string text) = .date a
  equal : (string text).looseEqual (.date a) = true
  equal' : (date a).looseEqual (.string text) = true

theorem standsFor_of_dateOf? {text : String} {a : Instant} (h : dateOf? text = some a) :
    StandsFor text a := by
  have hself : a.order a = .eq := by simp [Instant.order]
  constructor
  · exact h
  · simp [ColumnType.coerce, ColumnType.coerceToDate, h]
  · simp [looseEqual, order?, h, hself]
  · simp [looseEqual, order?, h, hself]

theorem standsFor_toText {a : Instant} (h : a.HasShortYear) (zone : Zone) :
    StandsFor (a.toText zone) a.shown := by
  apply standsFor_of_dateOf?
  rw [dateOf?, Instant.toText, String.toList_ofList]
  exact Instant.ofText?_toChars h zone

/-- Only a leap second inside a minute is lost in its text. -/
theorem standsFor_toText_self_iff {a : Instant} (h : a.HasShortYear) (zone : Zone) :
    StandsFor (a.toText zone) a ↔ ¬ a.IsInnerLeap := by
  have hshown := standsFor_toText h zone
  rw [← Instant.shown_eq_self_iff]
  refine ⟨fun hself => ?_, fun heq => by rwa [heq] at hshown⟩
  exact Option.some.inj (hshown.reads.symm.trans hself.reads)

theorem exists_stem_toText (a : Instant) :
    ∃ stem : String, a.toText .offset = stem ++ "+00:00" ∧ a.toText .letter = stem ++ "Z" := by
  obtain ⟨chars, hchars⟩ : ∃ chars, ∀ zone, a.toChars zone = chars ++ zone.toChars :=
    ⟨_, fun _ => rfl⟩
  refine ⟨String.ofList chars, ?_, ?_⟩ <;>
    rw [Instant.toText, hchars, String.ofList_append] <;> rfl

/-- The last nanosecond of a leap second at the end of 29 February of the year 0. -/
def endOfLeapDay : Instant where
  seconds := -62162035201
  nanos := 1999999999
  first_le := by decide
  le_last := by decide
  nanos_lt := by decide

example : endOfLeapDay.toText .letter = "0000-02-29T23:59:60.999999999Z" := by decide

/-- A third of a second into a leap second after 23:56:04. -/
def innerLeap : Instant where
  seconds := 86164
  nanos := 1333333333
  first_le := by decide
  le_last := by decide
  nanos_lt := by decide

theorem exists_coerceToNumber_date (a : Instant) : ∃ x : FiniteNumber,
    ColumnType.number.coerce (.date a) = .number (.finite x) ∧ x.IsInt a.millis := by
  obtain ⟨x, hx, hint⟩ := Number.exists_ofInt_eq a.natAbs_millis_le
  refine ⟨x, ?_, hint⟩
  simp [ColumnType.coerce, ColumnType.coerceToNumber, Value.number?, millisNumber, hx]

theorem coerceToDate_finite (x : FiniteNumber) : ColumnType.date.coerce (.number (.finite x)) =
    ((Instant.ofMillis? x.truncate).map Value.date).getD .null := by
  rw [← Instant.ofMillis?_truncateToInt64]
  rfl

theorem exists_coerceToDate_finite {x : FiniteNumber} (h : Instant.InRange x.truncate) :
    ∃ a : Instant, ColumnType.date.coerce (.number (.finite x)) = .date a ∧
      a.millis = x.truncate := by
  obtain ⟨a, ha, -⟩ := Instant.exists_ofMillis?_eq h
  refine ⟨a, ?_, Instant.millis_of_ofMillis? ha⟩
  rw [coerceToDate_finite, ha]
  rfl

theorem coerceToDate_eq_null_iff (x : FiniteNumber) :
    ColumnType.date.coerce (.number (.finite x)) = .null ↔ ¬ Instant.InRange x.truncate := by
  rw [coerceToDate_finite, ← Instant.ofMillis?_eq_none_iff]
  cases Instant.ofMillis? x.truncate with
  | none => simp
  | some a => simp

/-- A date outside leap seconds is a whole number of milliseconds, which is the date again without
its part of a millisecond. A number without its fraction is a date if it is in range, and this date
is the same number again. -/
theorem coerce_between_dates_and_numbers :
    (∀ a : Instant, ¬ a.IsLeap → ∃ (x : FiniteNumber) (b : Instant),
      ColumnType.number.coerce (.date a) = .number (.finite x) ∧ x.IsInt a.millis ∧
      ColumnType.date.coerce (.number (.finite x)) = .date b ∧
      b.seconds = a.seconds ∧ b.nanos = a.nanos / 1000000 * 1000000) ∧
    (∀ x : FiniteNumber,
      (ColumnType.date.coerce (.number (.finite x)) = .null ↔ ¬ Instant.InRange x.truncate) ∧
      (Instant.InRange x.truncate → ∃ (a : Instant) (y : FiniteNumber),
        ColumnType.date.coerce (.number (.finite x)) = .date a ∧
        ColumnType.number.coerce (.date a) = .number (.finite y) ∧ y.IsInt x.truncate)) ∧
    (∀ x : Number, x.finite? = none → ColumnType.date.coerce (.number x) = .null) := by
  refine ⟨fun a hleap => ?_, fun x => ⟨coerceToDate_eq_null_iff x, fun hrange => ?_⟩, ?_⟩
  · obtain ⟨x, hx, hint⟩ := exists_coerceToNumber_date a
    obtain ⟨b, hb, hseconds, hnanos⟩ := Instant.exists_ofMillis?_millis hleap
    refine ⟨x, b, hx, hint, ?_, hseconds, hnanos⟩
    rw [coerceToDate_finite, hint.truncate_eq, hb]
    rfl
  · obtain ⟨a, ha, hmillis⟩ := exists_coerceToDate_finite hrange
    obtain ⟨y, hy, hint⟩ := exists_coerceToNumber_date a
    exact ⟨a, y, ha, hy, hmillis ▸ hint⟩
  · intro x hx
    cases x with
    | finite x => cases hx
    | nan => rfl
    | infinite negative => rfl

end DecisionTables.Value
