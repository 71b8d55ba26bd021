import DecisionTables.Proofs.Number.Order
import DecisionTables.Proofs.Number.Rounding
import Mathlib

/-!
# Whole numbers as numbers

A whole number of at most 53 binary digits is a number as it stands: rounding leaves it alone,
dropping a fraction gives it back, and such numbers are ordered as the whole numbers are.
-/
namespace DecisionTables

theorem unitsPerOne_pos_int : (0 : ℤ) < unitsPerOne := Int.natCast_pos.mpr unitsPerOne_pos

namespace FiniteNumber

/-- The number has no fraction and is the whole number `i`. -/
def IsInt (x : FiniteNumber) (i : ℤ) : Prop := x.signedUnits = i * unitsPerOne

theorem truncate_eq_tdiv (x : FiniteNumber) : x.truncate = x.signedUnits.tdiv unitsPerOne := by
  rw [truncate, signedUnits]
  split_ifs
  · rw [Int.neg_tdiv, Int.ofNat_tdiv]
  · rw [Int.ofNat_tdiv]

theorem IsInt.truncate_eq {x : FiniteNumber} {i : ℤ} (h : x.IsInt i) : x.truncate = i := by
  rw [truncate_eq_tdiv, h, Int.mul_tdiv_cancel _ unitsPerOne_pos_int.ne']

end FiniteNumber

theorem representable_whole {n : ℕ} (h : n ≤ twoTo 53) : Representable (n * unitsPerOne) := by
  refine ⟨mul_twoTo_mod_spacing h 1074, ?_⟩
  calc n * unitsPerOne ≤ twoTo 53 * unitsPerOne := Nat.mul_le_mul_right _ h
    _ = twoTo (53 + 1074) := by rw [unitsPerOne, ← twoTo_add]
    _ < unitsLimit := twoTo_lt_twoTo (by decide)

namespace Number

theorem exists_ofInt_eq {i : ℤ} (h : i.natAbs ≤ twoTo 53) :
    ∃ x, ofInt i = .finite x ∧ x.IsInt i := by
  have hrepresentable := representable_whole h
  have hround := roundUnits_one hrepresentable.1
  refine ⟨⟨i < 0, _, hrepresentable⟩, ?_, ?_⟩
  · simp only [ofInt, ofUnits, hround, hrepresentable.2, dite_true]
  · rw [FiniteNumber.IsInt, FiniteNumber.signedUnits, Int.natCast_mul]
    simp only [decide_eq_true_eq]
    split_ifs with hneg
    · rw [Int.ofNat_natAbs_of_nonpos hneg.le, Int.neg_mul, Int.neg_neg]
    · rw [Int.natAbs_of_nonneg (Int.not_lt.mp hneg)]

theorem place_ofInt_lt_iff {i j : ℤ} (hi : i.natAbs ≤ twoTo 53) (hj : j.natAbs ≤ twoTo 53) :
    (ofInt i).place < (ofInt j).place ↔ i < j := by
  obtain ⟨x, hx, hxi⟩ := exists_ofInt_eq hi
  obtain ⟨y, hy, hyj⟩ := exists_ofInt_eq hj
  rw [hx, hy, place, place, hxi, hyj, WithBot.coe_lt_coe, WithTop.coe_lt_coe]
  exact Int.mul_lt_mul_right unitsPerOne_pos_int

end Number
end DecisionTables
