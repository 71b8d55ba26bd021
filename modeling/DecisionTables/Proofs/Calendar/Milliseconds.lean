import DecisionTables.Calendar.Instant
import DecisionTables.Number.Basic
import Mathlib

/-!
# Instants and milliseconds

Outside leap seconds an instant is its count of milliseconds and a part of a millisecond. Inside
one the count runs on into that of the next second, so that two instants of the two seconds may
stand one way in time and the other way by their counts.
-/
namespace DecisionTables.Calendar.Instant

variable {a b : Instant}

/-- Instants stand in the lexical order of their seconds and parts of a second. -/
def place (a : Instant) : ℤ ×ₗ ℕ := toLex (a.seconds, a.nanos)

theorem order_eq_compare (a b : Instant) : a.order b = compare a.place b.place := rfl

theorem order_eq_lt_iff : a.order b = .lt ↔
    a.seconds < b.seconds ∨ a.seconds = b.seconds ∧ a.nanos < b.nanos := by
  rw [order_eq_compare, compare_lt_iff_lt]
  exact Prod.Lex.toLex_lt_toLex

def IsLeap (a : Instant) : Prop := nanosPerSecond ≤ a.nanos

instance (a : Instant) : Decidable a.IsLeap :=
  inferInstanceAs (Decidable (nanosPerSecond ≤ a.nanos))

/-- The first instant lies in the second after that of the second one, which is a leap second. -/
def FollowsLeap (a b : Instant) : Prop := b.IsLeap ∧ a.seconds = b.seconds + 1

/-- Where the counts stand the other way than the instants, a leap second has run on. -/
theorem order_of_millis_lt (h : a.millis < b.millis) : a.order b = .lt ∨ a.FollowsLeap b := by
  have hnanos := b.nanos_lt
  rw [order_eq_lt_iff, FollowsLeap, IsLeap]
  unfold millis at h
  unfold nanosPerSecond at *
  omega

/-- The milliseconds of the days from 1 January -262143 to 31 December 262142. -/
def InRange (millis : ℤ) : Prop :=
  Date.toDays ⟨-262143, 1, 1⟩ * 86400000 ≤ millis ∧
    millis < (Date.toDays ⟨262142, 12, 31⟩ + 1) * 86400000

theorem inRange_iff {i : ℤ} : InRange i ↔ firstSecond * 1000 ≤ i ∧ i < (lastSecond + 1) * 1000 := by
  have hfirst : Date.toDays ⟨-262143, 1, 1⟩ * 86400 = firstSecond := by decide
  have hlast : (Date.toDays ⟨262142, 12, 31⟩ + 1) * 86400 = lastSecond + 1 := by decide
  unfold InRange
  omega

theorem exists_ofMillis?_eq {i : ℤ} (h : InRange i) : ∃ b, ofMillis? i = some b ∧
    b.seconds = i / 1000 ∧ b.nanos = (i % 1000).toNat * 1000000 := by
  rw [inRange_iff] at h
  have hparts : firstSecond ≤ i / 1000 ∧ i / 1000 ≤ lastSecond ∧
      (i % 1000).toNat * 1000000 < 2 * nanosPerSecond ∧
      (nanosPerSecond ≤ (i % 1000).toNat * 1000000 → i / 1000 % 60 = 59) := by
    unfold nanosPerSecond
    omega
  exact ⟨_, dif_pos hparts, rfl, rfl⟩

theorem inRange_of_ofMillis? {i : ℤ} (h : ofMillis? i = some b) : InRange i := by
  unfold ofMillis? ofParts? at h
  split at h
  case isTrue hparts =>
    rw [inRange_iff]
    omega
  case isFalse => cases h

theorem ofMillis?_eq_none_iff {i : ℤ} : ofMillis? i = none ↔ ¬ InRange i := by
  constructor
  · intro hnone hrange
    obtain ⟨b, hb, -⟩ := exists_ofMillis?_eq hrange
    rw [hnone] at hb
    cases hb
  · intro hrange
    cases hb : ofMillis? i with
    | none => rfl
    | some b => exact absurd (inRange_of_ofMillis? hb) hrange

/-- A count that is cut to 64 bits first was out of range and still is. -/
theorem ofMillis?_truncateToInt64 (x : FiniteNumber) :
    ofMillis? x.truncateToInt64 = ofMillis? x.truncate := by
  unfold FiniteNumber.truncateToInt64
  generalize x.truncate = i
  have hfirst : firstSecond = -8334601228800 := rfl
  have hlast : lastSecond = 8210266876799 := rfl
  by_cases hfits : -9223372036854775808 ≤ i ∧ i ≤ 9223372036854775807
  · rw [min_eq_left hfits.2, max_eq_right hfits.1]
  · rw [ofMillis?_eq_none_iff.mpr, ofMillis?_eq_none_iff.mpr]
    · rw [inRange_iff]
      omega
    · rw [inRange_iff]
      omega

theorem millis_of_ofMillis? {i : ℤ} (h : ofMillis? i = some b) : b.millis = i := by
  obtain ⟨b', hb', hseconds, hnanos⟩ := exists_ofMillis?_eq (inRange_of_ofMillis? h)
  rw [h, Option.some.injEq] at hb'
  subst hb'
  rw [millis, hseconds, hnanos, Nat.mul_div_cancel _ (by decide)]
  omega

/-- The part of a millisecond is dropped. -/
theorem exists_ofMillis?_millis (h : ¬ a.IsLeap) : ∃ b, ofMillis? a.millis = some b ∧
    b.seconds = a.seconds ∧ b.nanos = a.nanos / 1000000 * 1000000 := by
  have hfirst := a.first_le
  have hlast := a.le_last
  unfold IsLeap nanosPerSecond at h
  have hpart : a.nanos / 1000000 < 1000 := by omega
  have hrange : InRange a.millis := by
    rw [inRange_iff, millis]
    omega
  obtain ⟨b, hb, hseconds, hnanos⟩ := exists_ofMillis?_eq hrange
  refine ⟨b, hb, ?_, ?_⟩
  · rw [hseconds, millis]
    omega
  · rw [hnanos, millis]
    omega

theorem natAbs_millis_le (a : Instant) : a.millis.natAbs ≤ twoTo 53 := by
  have hfirst := a.first_le
  have hlast := a.le_last
  have hnanos := a.nanos_lt
  unfold millis
  unfold firstSecond lastSecond nanosPerSecond at *
  rw [show twoTo 53 = 9007199254740992 by decide]
  omega

end DecisionTables.Calendar.Instant
