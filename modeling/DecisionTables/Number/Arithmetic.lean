import DecisionTables.Number.Rounding

/-!
# Arithmetic

Each operation is its exact result, rounded once. A sum of opposite numbers is plus zero, and the
remainder has the sign of the dividend.
-/
namespace DecisionTables

namespace FiniteNumber

def add (x y : FiniteNumber) : Number :=
  let total := x.signedUnits + y.signedUnits
  if total = 0 then .finite (.zero (x.negative && y.negative))
  else .ofUnits (total < 0) total.natAbs 1

def multiply (x y : FiniteNumber) : Number :=
  .ofUnits (x.negative != y.negative) (x.units * y.units) unitsPerOne

def divide (x y : FiniteNumber) : Number :=
  if y.isZero then
    if x.isZero then .nan else .infinite (x.negative != y.negative)
  else .ofUnits (x.negative != y.negative) (x.units * unitsPerOne) y.units

/-- What is left of `x` after taking away `y` as often as it goes in. The result is exact, so
rounding leaves it alone. -/
def remainder (x y : FiniteNumber) : Number :=
  if y.isZero then .nan else .ofUnits x.negative (x.units % y.units) 1

end FiniteNumber

namespace Number

def add : Number → Number → Number
  | nan, _ => nan
  | _, nan => nan
  | infinite m, infinite n => if m = n then infinite m else nan
  | infinite m, finite _ => infinite m
  | finite _, infinite n => infinite n
  | finite x, finite y => x.add y

def subtract (x y : Number) : Number := x.add y.negate

def multiply : Number → Number → Number
  | nan, _ => nan
  | _, nan => nan
  | infinite m, infinite n => infinite (m != n)
  | infinite m, finite y => if y.isZero then nan else infinite (m != y.negative)
  | finite x, infinite n => if x.isZero then nan else infinite (x.negative != n)
  | finite x, finite y => x.multiply y

def divide : Number → Number → Number
  | nan, _ => nan
  | _, nan => nan
  | infinite _, infinite _ => nan
  | infinite m, finite y => infinite (m != y.negative)
  | finite x, infinite n => finite (.zero (x.negative != n))
  | finite x, finite y => x.divide y

def remainder : Number → Number → Number
  | nan, _ => nan
  | _, nan => nan
  | infinite _, _ => nan
  | finite x, infinite _ => finite x
  | finite x, finite y => x.remainder y

def lesser (x y : Number) : Number :=
  if x.isNaN then y else if y.less x then y else x

def greater (x y : Number) : Number :=
  if x.isNaN then y else if x.less y then y else x

end Number
end DecisionTables
