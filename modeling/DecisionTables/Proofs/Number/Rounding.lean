import DecisionTables.Number.Rounding
import Mathlib

/-!
# Rounding a quotient

Rounding depends on the quotient alone and not on the two numbers that write it. A count of units
that is representable rounds to itself; below half a unit a quotient rounds to zero, and from the
limit on to an infinity.
-/
namespace DecisionTables

theorem roundDiv_mul_right (num den : ℕ) {k : ℕ} (hk : 0 < k) :
    roundDiv (num * k) (den * k) = roundDiv num den := by
  have hlow : 2 * (num % den * k) < den * k ↔ 2 * (num % den) < den := by
    rw [← Nat.mul_assoc]
    exact Nat.mul_lt_mul_right hk
  have hhigh : den * k < 2 * (num % den * k) ↔ den < 2 * (num % den) := by
    rw [← Nat.mul_assoc]
    exact Nat.mul_lt_mul_right hk
  simp only [roundDiv, Nat.mul_div_mul_right _ _ hk, Nat.mul_mod_mul_right, hlow, hhigh]

theorem roundUnits_mul_right (num den : ℕ) {k : ℕ} (hk : 0 < k) :
    roundUnits (num * k) (den * k) = roundUnits num den := by
  unfold roundUnits
  rw [Nat.mul_div_mul_right _ _ hk, Nat.mul_right_comm, roundDiv_mul_right _ _ hk]

/-- A multiple of its own spacing needs no rounding. -/
theorem roundUnits_one {units : ℕ} (h : units % spacing units = 0) :
    roundUnits units 1 = units := by
  have hpos := spacing_pos units
  simp only [roundUnits, roundDiv, Nat.div_one, Nat.one_mul, h, Nat.mul_zero, hpos, if_true]
  exact Nat.div_mul_cancel (Nat.dvd_of_mod_eq_zero h)

theorem roundUnits_eq_zero {num den : ℕ} (h : 2 * num < den) : roundUnits num den = 0 := by
  have hlt : num < den := by omega
  simp [roundUnits, roundDiv, Nat.div_eq_of_lt hlt, Nat.mod_eq_of_lt hlt, spacing, twoTo, h]

/-- Rounding never goes below the power of two under the quotient. -/
theorem twoTo_log2_le_roundUnits {num den : ℕ} (h : num / den ≠ 0) :
    twoTo (num / den).log2 ≤ roundUnits num den := by
  set q := num / den with hq
  have hfloor : q / spacing q ≤ roundDiv num (den * spacing q) := by
    rw [hq, Nat.div_div_eq_div_mul]
    unfold roundDiv
    split
    · exact le_rfl
    · split <;> omega
  have hdvd : spacing q ∣ twoTo q.log2 := Nat.pow_dvd_pow 2 (Nat.sub_le _ _)
  calc twoTo q.log2 = twoTo q.log2 / spacing q * spacing q := (Nat.div_mul_cancel hdvd).symm
    _ ≤ q / spacing q * spacing q :=
      Nat.mul_le_mul_right _ (Nat.div_le_div_right (Nat.log2_self_le h))
    _ ≤ roundUnits num den := Nat.mul_le_mul_right _ hfloor

theorem twoTo_le_iff {q n : ℕ} (h : q ≠ 0) : twoTo n ≤ q ↔ n ≤ q.log2 := (Nat.le_log2 h).symm

theorem twoTo_add (m n : ℕ) : twoTo (m + n) = twoTo m * twoTo n := Nat.pow_add 2 m n

theorem twoTo_le_twoTo {m n : ℕ} (h : m ≤ n) : twoTo m ≤ twoTo n :=
  Nat.pow_le_pow_right (by decide) h

theorem twoTo_lt_twoTo {m n : ℕ} (h : m < n) : twoTo m < twoTo n :=
  Nat.pow_lt_pow_right (by decide) h

theorem unitsLimit_le_roundUnits {num den : ℕ} (hden : 0 < den) (h : unitsLimit * den ≤ num) :
    unitsLimit ≤ roundUnits num den := by
  have hq : unitsLimit ≤ num / den := (Nat.le_div_iff_mul_le hden).mpr h
  have hne : num / den ≠ 0 := (unitsLimit_pos.trans_le hq).ne'
  have hlog : 2098 ≤ (num / den).log2 := (twoTo_le_iff hne).mp hq
  exact (twoTo_le_twoTo hlog).trans (twoTo_log2_le_roundUnits hne)

theorem spacing_le {units : ℕ} (h : units ≠ 0) : spacing units ≤ units :=
  (twoTo_le_twoTo (Nat.sub_le _ _)).trans (Nat.log2_self_le h)

/-- Rounding a whole count of units at most doubles it. -/
theorem roundUnits_one_le (units : ℕ) : roundUnits units 1 ≤ 2 * units := by
  by_cases hzero : units = 0
  · rw [hzero]
    decide
  · have hfloor : roundDiv units (spacing units) ≤ units / spacing units + 1 := roundDiv_le _ _
    calc roundUnits units 1 = roundDiv units (spacing units) * spacing units := by
          rw [roundUnits, Nat.div_one, Nat.one_mul]
      _ ≤ (units / spacing units + 1) * spacing units := Nat.mul_le_mul_right _ hfloor
      _ = units / spacing units * spacing units + spacing units := Nat.succ_mul _ _
      _ ≤ units + units := Nat.add_le_add (Nat.div_mul_le_self _ _) (spacing_le hzero)
      _ = 2 * units := (Nat.two_mul units).symm

namespace Number

theorem ofUnits_mul_right (negative : Bool) (num den : ℕ) {k : ℕ} (hk : 0 < k) :
    ofUnits negative (num * k) (den * k) = ofUnits negative num den := by
  simp only [ofUnits, roundUnits_mul_right _ _ hk]

theorem ofUnits_units (x : FiniteNumber) : ofUnits x.negative x.units 1 = .finite x := by
  have h := roundUnits_one x.representable.1
  simp only [ofUnits, h, x.representable.2, dite_true]

theorem ofUnits_eq_zero (negative : Bool) {num den : ℕ} (h : 2 * num < den) :
    ofUnits negative num den = .finite (.zero negative) := by
  simp only [ofUnits, roundUnits_eq_zero h, unitsLimit_pos, dite_true, FiniteNumber.zero]

theorem ofUnits_eq_infinite (negative : Bool) {num den : ℕ} (hden : 0 < den)
    (h : unitsLimit * den ≤ num) : ofUnits negative num den = .infinite negative := by
  have hge := unitsLimit_le_roundUnits hden h
  simp only [ofUnits, hge.not_gt, dite_false]

theorem negate_ofUnits (negative : Bool) (num den : ℕ) :
    (ofUnits negative num den).negate = ofUnits (!negative) num den := by
  unfold ofUnits
  split <;> rfl

/-- A whole number far below the limit is rounded to a finite number. -/
theorem exists_ofInt_eq_finite {i : ℤ} (h : i.natAbs < twoTo 1023) :
    ∃ x, ofInt i = .finite x := by
  have hlt : roundUnits (i.natAbs * unitsPerOne) 1 < unitsLimit :=
    calc roundUnits (i.natAbs * unitsPerOne) 1 ≤ 2 * (i.natAbs * unitsPerOne) :=
          roundUnits_one_le _
      _ < 2 * (twoTo 1023 * unitsPerOne) :=
          Nat.mul_lt_mul_of_pos_left (Nat.mul_lt_mul_of_pos_right h unitsPerOne_pos) (by decide)
      _ = unitsLimit := by
          rw [unitsPerOne, ← twoTo_add, unitsLimit, show 2 = twoTo 1 from rfl, ← twoTo_add]
  exact ⟨_, by rw [ofInt, ofUnits, dif_pos hlt]⟩

end Number
end DecisionTables
