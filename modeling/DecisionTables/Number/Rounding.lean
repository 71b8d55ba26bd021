import DecisionTables.Number.Basic

/-!
# Rounding

The number nearest to a quotient of natural numbers, a tie going to the neighbour whose last
binary digit is even. Main statement: the rounded count of units is a multiple of its spacing, so
below the limit it is a finite number.
-/
namespace DecisionTables

/-- The whole number nearest to `num / den`; halfway between two, the even one. -/
def roundDiv (num den : Nat) : Nat :=
  if 2 * (num % den) < den then num / den
  else if den < 2 * (num % den) then num / den + 1
  else num / den + num / den % 2

/-- `num / den` units rounded to 53 binary digits, or to a whole unit where that is coarser. -/
def roundUnits (num den : Nat) : Nat :=
  roundDiv num (den * spacing (num / den)) * spacing (num / den)

theorem roundDiv_le (num den : Nat) : roundDiv num den ≤ num / den + 1 := by
  unfold roundDiv
  split
  · omega
  · split <;> omega

/-- Up to 53 binary digits followed by zeros are a multiple of the spacing. -/
theorem mul_twoTo_mod_spacing {digits : Nat} (h : digits ≤ twoTo 53) (places : Nat) :
    (digits * twoTo places) % spacing (digits * twoTo places) = 0 := by
  have hPow : ∀ m n : Nat, twoTo m * twoTo n = twoTo (m + n) := fun m n =>
    (Nat.pow_add 2 m n).symm
  have hDvd : ∀ m n : Nat, m ≤ n → twoTo n % twoTo m = 0 := fun m n hmn =>
    Nat.mod_eq_zero_of_dvd (Nat.pow_dvd_pow 2 hmn)
  by_cases hZero : digits = 0
  · simp [hZero]
  rcases Nat.lt_or_eq_of_le h with hlt | rfl
  · have hne : digits * twoTo places ≠ 0 := Nat.mul_ne_zero hZero (Nat.ne_of_gt (twoTo_pos _))
    have hlog : (digits * twoTo places).log2 < 53 + places := by
      rw [Nat.log2_lt hne]
      calc digits * twoTo places < twoTo 53 * twoTo places :=
            Nat.mul_lt_mul_of_pos_right hlt (twoTo_pos _)
        _ = _ := hPow _ _
    have hmod := hDvd ((digits * twoTo places).log2 - 52) places (by omega)
    rw [spacing, Nat.mul_mod, hmod]
    simp
  · rw [hPow, spacing, show (twoTo (53 + places)).log2 = 53 + places from Nat.log2_two_pow]
    exact hDvd _ _ (by omega)

theorem roundUnits_mod_spacing (num den : Nat) :
    roundUnits num den % spacing (roundUnits num den) = 0 := by
  refine mul_twoTo_mod_spacing ?_ _
  refine Nat.le_trans (roundDiv_le _ _) ?_
  rw [Nat.succ_le_iff, ← Nat.div_div_eq_div_mul]
  by_cases hZero : num / den = 0
  · simp only [hZero, Nat.zero_div]
    exact twoTo_pos 53
  · rw [Nat.div_lt_iff_lt_mul (spacing_pos _)]
    have hlt : num / den < twoTo ((num / den).log2 + 1) := Nat.lt_log2_self
    refine Nat.lt_of_lt_of_le hlt ?_
    rw [spacing, show twoTo 53 * twoTo ((num / den).log2 - 52) =
      twoTo (53 + ((num / den).log2 - 52)) from (Nat.pow_add 2 _ _).symm]
    exact Nat.pow_le_pow_right (by decide) (by omega)

namespace Number

/-- The number nearest to plus or minus `num / den` units; too large a result is infinite. -/
def ofUnits (negative : Bool) (num den : Nat) : Number :=
  if h : roundUnits num den < unitsLimit then
    .finite ⟨negative, roundUnits num den, roundUnits_mod_spacing num den, h⟩
  else
    .infinite negative

def ofInt (i : Int) : Number := ofUnits (i < 0) (i.natAbs * unitsPerOne) 1

def ofNat (n : Nat) : Number := ofUnits false (n * unitsPerOne) 1

end Number
end DecisionTables
