import DecisionTables.Number.Decimal
import DecisionTables.Proofs.Number.Rounding
import Mathlib

/-!
# The number that a decimal writes

The two short cuts for exponents far out of range agree with the rounding they replace, so a
decimal is read as its exact value, rounded once, and two decimals of one value are read as one
number. Main statement: the shortest decimal of a finite number reads back to it.
-/
namespace DecisionTables

theorem tenTo_pos (n : ℕ) : 0 < tenTo n := Nat.pow_pos (by decide)

theorem tenTo_succ (n : ℕ) : tenTo (n + 1) = tenTo n * 10 := rfl

theorem units_mul_fiveTo (units n : ℕ) :
    units * Nat.pow 5 n * tenTo 0 * twoTo n = units * tenTo n := by
  rw [show tenTo 0 = 1 from rfl, Nat.mul_one, Nat.mul_assoc]
  exact congrArg _ (Nat.mul_pow 5 2 n).symm

/-- Three binary digits are fewer than one decimal digit. -/
theorem twoTo_le_tenTo {m n : ℕ} (h : m ≤ 3 * n) : twoTo m ≤ tenTo n :=
  calc twoTo m ≤ twoTo (3 * n) := twoTo_le_twoTo h
    _ = (2 ^ 3) ^ n := pow_mul 2 3 n
    _ ≤ tenTo n := Nat.pow_le_pow_left (by decide) n

namespace Decimal

/-- Beyond the largest exponent the exact value is past the limit. -/
theorem unitsLimit_le_of_exponent {digits n : ℕ} (hd : digits ≠ 0) (hn : 400 < n) :
    unitsLimit * 1 ≤ digits * tenTo n * unitsPerOne := by
  have hpow : twoTo 1024 ≤ tenTo n := twoTo_le_tenTo (by omega)
  calc unitsLimit * 1 = twoTo 1024 * unitsPerOne := by
        rw [Nat.mul_one, unitsPerOne, ← twoTo_add, unitsLimit]
    _ ≤ tenTo n * unitsPerOne := Nat.mul_le_mul_right _ hpow
    _ ≤ digits * tenTo n * unitsPerOne :=
      Nat.mul_le_mul_right _ (Nat.le_mul_of_pos_left _ (Nat.pos_of_ne_zero hd))

/-- Below the least exponent the exact value is less than half a unit. -/
theorem two_mul_lt_of_exponent {digits n : ℕ} (hn : 401 + digits.log2 < n) :
    2 * (digits * unitsPerOne) < tenTo n := by
  have hlt : digits < twoTo (digits.log2 + 1) := Nat.lt_log2_self
  have htwo : twoTo (1 + (digits.log2 + 1) + 1074) ≤ tenTo n := twoTo_le_tenTo (by omega)
  rw [twoTo_add, twoTo_add] at htwo
  calc 2 * (digits * unitsPerOne) = twoTo 1 * digits * unitsPerOne := (Nat.mul_assoc _ _ _).symm
    _ < twoTo 1 * twoTo (digits.log2 + 1) * unitsPerOne :=
      Nat.mul_lt_mul_of_pos_right (Nat.mul_lt_mul_of_pos_left hlt (twoTo_pos 1)) unitsPerOne_pos
    _ ≤ tenTo n := htwo

/-- Every decimal is read as its exact value, rounded once. -/
theorem toNumber_eq_ofUnits (negative : Bool) (d : Decimal) :
    d.toNumber negative = .ofUnits negative
      (d.digits * tenTo d.exponent.toNat * unitsPerOne) (tenTo (-d.exponent).toNat) := by
  unfold toNumber
  split
  case isTrue hzero =>
    rw [hzero, Nat.zero_mul, Nat.zero_mul]
    exact (Number.ofUnits_eq_zero negative (tenTo_pos _)).symm
  case isFalse hd =>
    split
    case isTrue hlarge =>
      simp only [largestExponent] at hlarge
      have hone : tenTo (-d.exponent).toNat = 1 := by
        rw [show (-d.exponent).toNat = 0 by omega]
        rfl
      rw [hone]
      exact (Number.ofUnits_eq_infinite negative Nat.one_pos
        (unitsLimit_le_of_exponent hd (by omega))).symm
    case isFalse _ =>
      split
      case isTrue hsmall =>
        simp only [largestExponent] at hsmall
        have hone : tenTo d.exponent.toNat = 1 := by
          rw [show d.exponent.toNat = 0 by omega]
          rfl
        rw [hone, Nat.mul_one]
        exact (Number.ofUnits_eq_zero negative (two_mul_lt_of_exponent (by omega))).symm
      case isFalse _ => rfl

/-- A decimal that is no finite number is too large for one. -/
theorem toNumber_cases (negative : Bool) (d : Decimal) :
    (∃ x, d.toNumber negative = .finite x) ∨ d.toNumber negative = .infinite negative := by
  unfold toNumber Number.ofUnits
  split_ifs <;> simp

theorem negate_toNumber (negative : Bool) (d : Decimal) :
    (d.toNumber negative).negate = d.toNumber (!negative) := by
  rw [toNumber_eq_ofUnits, toNumber_eq_ofUnits, Number.negate_ofUnits]

/-- A zero at the end of the digits counts as one more in the exponent. -/
theorem toNumber_mul_ten (negative : Bool) (digits : ℕ) (e : ℤ) :
    (⟨digits * 10, e⟩ : Decimal).toNumber negative =
      (⟨digits, e + 1⟩ : Decimal).toNumber negative := by
  simp only [toNumber_eq_ofUnits]
  rcases Int.lt_or_le e 0 with hneg | hpos
  · have hden : (-e).toNat = (-(e + 1)).toNat + 1 := by omega
    have hexp : e.toNat = (e + 1).toNat := by omega
    rw [hden, hexp, tenTo_succ, Nat.mul_right_comm digits 10, Nat.mul_right_comm _ 10]
    exact Number.ofUnits_mul_right _ _ _ (by decide)
  · have hden : (-e).toNat = (-(e + 1)).toNat := by omega
    have hexp : (e + 1).toNat = e.toNat + 1 := by omega
    rw [hden, hexp, tenTo_succ, Nat.mul_assoc digits 10, Nat.mul_comm 10]

theorem toNumber_mul_tenTo (negative : Bool) (digits n : ℕ) (e : ℤ) :
    (⟨digits * tenTo n, e⟩ : Decimal).toNumber negative =
      (⟨digits, e + n⟩ : Decimal).toNumber negative := by
  induction n generalizing e with
  | zero => simp [tenTo]
  | succ n ih =>
    rw [tenTo_succ, ← Nat.mul_assoc, toNumber_mul_ten, ih]
    congr 2
    push_cast
    ring

theorem toNumber_stripped (negative : Bool) (digits : ℕ) (e : ℤ) :
    (stripped digits e).toNumber negative = (⟨digits, e⟩ : Decimal).toNumber negative := by
  fun_induction stripped digits e with
  | case1 digits e h ih =>
    rw [ih, ← toNumber_mul_ten, Nat.div_mul_cancel (Nat.dvd_of_mod_eq_zero h.2)]
  | case2 e h => simp [toNumber]
  | case3 digits e h hne => rfl

/-- Zero is written in one way only. -/
theorem exponent_stripped {digits : ℕ} {e : ℤ} (h : (stripped digits e).digits = 0) :
    (stripped digits e).exponent = 0 := by
  fun_induction stripped digits e with
  | case1 digits e hdiv ih => exact ih h
  | case2 e hdiv => rfl
  | case3 digits e hdiv hne => exact absurd h hne

end Decimal

namespace FiniteNumber

theorem isReadFrom_iff {x : FiniteNumber} {d : Decimal} :
    x.isReadFrom d = true ↔ d.toNumber x.negative = .finite x := by
  simp [isReadFrom]

theorem isReadFrom_of_onGrid? {x : FiniteNumber} {tie : Tie} {e : ℤ} {d : Decimal}
    (h : x.onGrid? tie e = some d) : x.isReadFrom d = true := by
  unfold onGrid? at h
  extract_lets num den low high at h
  clear_value num den low high
  grind

/-- The exact value is a decimal because two is a factor of ten. -/
theorem toNumber_exact (x : FiniteNumber) {n : ℕ} (hn : unitsPerOne = twoTo n) :
    (⟨x.units * Nat.pow 5 n, -(n : ℤ)⟩ : Decimal).toNumber x.negative = .finite x := by
  have hround := Number.ofUnits_mul_right x.negative x.units 1 (tenTo_pos n)
  rw [Nat.one_mul, Number.ofUnits_units] at hround
  have hexp : (-(n : ℤ)).toNat = 0 := by omega
  have hden : (- -(n : ℤ)).toNat = n := by omega
  rw [Decimal.toNumber_eq_ofUnits, hn]
  simp only [hexp, hden, units_mul_fiveTo, hround]

theorem isReadFrom_exactDecimal (x : FiniteNumber) : x.isReadFrom x.exactDecimal = true :=
  isReadFrom_iff.mpr (x.toNumber_exact rfl)

theorem exponent_shortest {x : FiniteNumber} {tie : Tie} (h : (x.shortest tie).digits = 0) :
    (x.shortest tie).exponent = 0 := Decimal.exponent_stripped h

/-- The shortest decimal reads back to the number, whichever way a tie goes. -/
theorem toNumber_shortest (x : FiniteNumber) (tie : Tie) :
    (x.shortest tie).toNumber x.negative = .finite x := by
  rw [shortest, Decimal.toNumber_stripped, ← isReadFrom_iff]
  cases hfound : (List.range 17).findSome? fun places : ℕ =>
      x.onGrid? tie (x.magnitude - (places + 1 : ℕ)) with
  | none => exact isReadFrom_exactDecimal x
  | some d =>
    obtain ⟨places, _, hd⟩ := List.exists_of_findSome?_eq_some hfound
    exact isReadFrom_of_onGrid? hd

end FiniteNumber
end DecisionTables
