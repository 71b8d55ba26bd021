/-!
# Numbers

A number is a binary64 number: one not-a-number, the two infinities, and the finite numbers. A
finite number is a sign and a whole count of units, the unit being the least positive number
2⁻¹⁰⁷⁴; its spacing is the gap between its neighbours of the same size, and the count is a
multiple of it. Comparing, adding and rounding are then exact arithmetic on natural numbers.

The sign of zero is kept: the two zeros are different numbers that compare as equal.
-/
namespace DecisionTables

def twoTo (n : Nat) : Nat := Nat.pow 2 n

def tenTo (n : Nat) : Nat := Nat.pow 10 n

def unitsPerOne : Nat := twoTo 1074

/-- The count of units from which on a number is too large to be finite. -/
def unitsLimit : Nat := twoTo 2098

theorem twoTo_pos (n : Nat) : 0 < twoTo n := Nat.pow_pos (by decide)

theorem unitsLimit_pos : 0 < unitsLimit := twoTo_pos 2098

theorem unitsPerOne_pos : 0 < unitsPerOne := twoTo_pos 1074

/-- The distance, in units, between the numbers near `units` units: 53 binary digits are kept. -/
def spacing (units : Nat) : Nat := twoTo (units.log2 - 52)

theorem spacing_pos (units : Nat) : 0 < spacing units := twoTo_pos _

/-- `units` units are a finite number: a multiple of the spacing, and below the limit. -/
def Representable (units : Nat) : Prop := units % spacing units = 0 ∧ units < unitsLimit

instance (units : Nat) : Decidable (Representable units) :=
  inferInstanceAs (Decidable (_ ∧ _))

/-- A finite number: plus or minus a representable count of units. -/
structure FiniteNumber where
  negative : Bool
  units : Nat
  representable : Representable units
  deriving DecidableEq

inductive Number where
  | nan
  | infinite (negative : Bool)
  | finite (number : FiniteNumber)
  deriving DecidableEq

namespace FiniteNumber

def zero (negative : Bool) : FiniteNumber :=
  ⟨negative, 0, Nat.zero_mod _, unitsLimit_pos⟩

def isZero (x : FiniteNumber) : Bool := x.units == 0

def signedUnits (x : FiniteNumber) : Int := if x.negative then -(x.units : Int) else x.units

def negate (x : FiniteNumber) : FiniteNumber := { x with negative := !x.negative }

def order (x y : FiniteNumber) : Ordering := compare x.signedUnits y.signedUnits

/-- The whole part: the value rounded towards zero. -/
def truncate (x : FiniteNumber) : Int :=
  if x.negative then -((x.units / unitsPerOne : Nat) : Int) else (x.units / unitsPerOne : Nat)

/-- The whole part, or the nearest whole number of 64 bits. -/
def truncateToInt64 (x : FiniteNumber) : Int :=
  max (-9223372036854775808) (min x.truncate 9223372036854775807)

end FiniteNumber

namespace Number

def zero : Number := .finite (.zero false)

def isNaN : Number → Bool
  | nan => true
  | _ => false

def finite? : Number → Option FiniteNumber
  | finite x => some x
  | _ => none

def isZero : Number → Bool
  | finite x => x.isZero
  | _ => false

def negate : Number → Number
  | nan => nan
  | infinite negative => infinite (!negative)
  | finite x => finite x.negate

/-- The order of two numbers; not-a-number has no place in it. -/
def order? : Number → Number → Option Ordering
  | nan, _ => none
  | _, nan => none
  | infinite true, infinite true => some .eq
  | infinite false, infinite false => some .eq
  | infinite true, _ => some .lt
  | _, infinite true => some .gt
  | infinite false, _ => some .gt
  | _, infinite false => some .lt
  | finite x, finite y => some (x.order y)

/-- The same value: not-a-number differs from itself, and the two zeros are the same. -/
def equal (x y : Number) : Bool := x.order? y == some .eq

def less (x y : Number) : Bool := x.order? y == some .lt

end Number
end DecisionTables
