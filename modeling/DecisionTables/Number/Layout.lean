import DecisionTables.Number.Decimal

/-!
# Writing numbers

A number is written with the shortest digits that read back; a `NumberForm` says how they are laid
out.
-/
namespace DecisionTables

structure NumberForm where
  /-- Which of two equally near decimals is written. -/
  tie : Tie
  /-- Whether a number whose first digit stands for `10 ^ e` is written without an exponent. -/
  positional : Int → Bool
  /-- What follows the digits of a whole number. -/
  wholeSuffix : List Char

namespace NumberForm

/-- Display never has an exponent, and whole numbers have no point; a tie goes up. -/
def display : NumberForm := ⟨.up, fun _ => true, []⟩

/-- In JSON a number always has a point or an exponent, and is written positionally while its
first digit stands for `10 ^ -5` to `10 ^ 15`; a tie goes to the even digit. -/
def json : NumberForm := ⟨.toEven, fun e => -5 ≤ e && e ≤ 15, ['.', '0']⟩

end NumberForm

namespace Decimal

def digitChars (d : Decimal) : List Char := Nat.toDigits 10 d.digits

/-- The power of ten that the first digit stands for. -/
def leadingExponent (d : Decimal) : Int := d.exponent + d.digitChars.length - 1

def positional (wholeSuffix : List Char) (d : Decimal) : List Char :=
  let digits := d.digitChars
  if 0 ≤ d.exponent then digits ++ List.replicate d.exponent.toNat '0' ++ wholeSuffix
  else
    let places := (-d.exponent).toNat
    if places < digits.length then
      digits.take (digits.length - places) ++ '.' :: digits.drop (digits.length - places)
    else
      ['0', '.'] ++ List.replicate (places - digits.length) '0' ++ digits

/-- The decimal written with one digit before the point and an exponent, whose sign is always
written. -/
def scientific (d : Decimal) : List Char :=
  let e := d.leadingExponent
  let mantissa := match d.digitChars with
    | first :: c :: rest => first :: '.' :: c :: rest
    | digits => digits
  mantissa ++ 'e' :: (if e < 0 then '-' else '+') :: Nat.toDigits 10 e.natAbs

def layout (form : NumberForm) (d : Decimal) : List Char :=
  if form.positional d.leadingExponent then d.positional form.wholeSuffix else d.scientific

end Decimal

namespace FiniteNumber

/-- The number as text, a minus in front of a negative one and of minus zero. -/
def toChars (form : NumberForm) (x : FiniteNumber) : List Char :=
  let digits := (x.shortest form.tie).layout form
  if x.negative then '-' :: digits else digits

def toText (x : FiniteNumber) : String := String.ofList (x.toChars .display)

end FiniteNumber

namespace Number

def toText : Number → String
  | nan => "NaN"
  | infinite true => "-inf"
  | infinite false => "inf"
  | finite x => x.toText

end Number
end DecisionTables
