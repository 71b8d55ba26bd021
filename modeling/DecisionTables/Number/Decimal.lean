import DecisionTables.Number.Rounding

/-!
# Decimals

The number nearest to a decimal, and the shortest decimal that reads back to a given finite
number. Of the decimals with the fewest digits that read back, the one nearest to the number is
chosen; what happens at a tie is the choice of whoever writes it.
-/
namespace DecisionTables

structure Decimal where
  digits : Nat
  exponent : Int
  deriving DecidableEq

namespace Decimal

def stripped (digits : Nat) (exponent : Int) : Decimal :=
  if digits ≠ 0 ∧ digits % 10 = 0 then stripped (digits / 10) (exponent + 1)
  else if digits = 0 then ⟨0, 0⟩
  else ⟨digits, exponent⟩
termination_by digits
decreasing_by omega

/-- Above this exponent every decimal but zero is too large for a finite number. -/
def largestExponent : Nat := 400

/-- Plus or minus the decimal, rounded to a number. Far outside the range of finite numbers the
result is known without the power of ten. -/
def toNumber (negative : Bool) (d : Decimal) : Number :=
  if d.digits = 0 then .finite (.zero negative)
  else if (largestExponent : Int) < d.exponent then .infinite negative
  else if d.exponent < -((largestExponent + d.digits.log2 + 1 : Nat) : Int) then
    .finite (.zero negative)
  else
    .ofUnits negative (d.digits * tenTo d.exponent.toNat * unitsPerOne) (tenTo (-d.exponent).toNat)

end Decimal

/-- Which of two equally near decimals is written. -/
inductive Tie where
  | up
  | toEven
  deriving DecidableEq

namespace FiniteNumber

def isReadFrom (x : FiniteNumber) (d : Decimal) : Bool := d.toNumber x.negative = .finite x

/-- The exponent `k` of the leading digit, so that the value is at least `10 ^ (k - 1)` and less
than `10 ^ k`. -/
def magnitude (x : FiniteNumber) : Int :=
  (Nat.toDigits 10 (x.units * tenTo Decimal.largestExponent / unitsPerOne)).length
    - Decimal.largestExponent

/-- The multiple of `10 ^ exponent` nearest to the number, if one of its two neighbours among them
reads back to it. -/
def onGrid? (x : FiniteNumber) (tie : Tie) (exponent : Int) : Option Decimal :=
  let num := x.units * tenTo (-exponent).toNat
  let den := unitsPerOne * tenTo exponent.toNat
  let low : Decimal := ⟨num / den, exponent⟩
  let high : Decimal := ⟨num / den + 1, exponent⟩
  if x.isReadFrom low then
    if x.isReadFrom high then
      match compare (2 * (num % den)) den with
      | .lt => some low
      | .gt => some high
      | .eq => match tie with
        | .up => some high
        | .toEven => if low.digits % 2 = 0 then some low else some high
    else some low
  else if x.isReadFrom high then some high
  else none

def exactDecimal (x : FiniteNumber) : Decimal := ⟨x.units * Nat.pow 5 1074, -1074⟩

/-- The shortest decimal that reads back to the number: seventeen digits always suffice. -/
def shortest (x : FiniteNumber) (tie : Tie) : Decimal :=
  let found := (List.range 17).findSome? fun places : Nat =>
    x.onGrid? tie (x.magnitude - (places + 1 : Nat))
  let d := found.getD x.exactDecimal
  .stripped d.digits d.exponent

end FiniteNumber
end DecisionTables
