import DecisionTables.Text.Space
import DecisionTables.Number.Decimal

/-!
# Reading numbers

A plain numeral is digits with an optional fraction. The numeric reading of a whole text is wider:
it allows a sign, a point at either end of the digits, and an exponent.
-/
namespace DecisionTables.Text

def spanDigits (text : List Char) : List Char × List Char := text.span Char.isDigit

def digitsValue (digits : List Char) : Nat := Nat.ofDigitChars 10 digits 0

/-- A whole part and a fraction, each a possibly empty run of digits. -/
def decimalOf (whole fraction : List Char) : Decimal :=
  ⟨digitsValue (whole ++ fraction), -(fraction.length : Int)⟩

/-- Digits with an optional point and more digits, at the start of a text. The point belongs to
the numeral only if a digit follows. -/
def spanNumeral (text : List Char) : Option (Decimal × List Char) :=
  match spanDigits text with
  | ([], _) => none
  | (whole, '.' :: rest) =>
    match spanDigits rest with
    | ([], _) => some (decimalOf whole [], '.' :: rest)
    | (fraction, rest') => some (decimalOf whole fraction, rest')
  | (whole, rest) => some (decimalOf whole [], rest)

def splitSign : List Char → Bool × List Char
  | '-' :: rest => (true, rest)
  | '+' :: rest => (false, rest)
  | rest => (false, rest)

/-- An exponent: nothing, or `e` or `E`, an optional sign and digits to the end. -/
def exponent? : List Char → Option Int
  | [] => some 0
  | c :: rest =>
    if c = 'e' ∨ c = 'E' then
      let (negative, digits) := splitSign rest
      if digits.isEmpty ∨ !digits.all Char.isDigit then none
      else some (if negative then -(digitsValue digits : Int) else digitsValue digits)
    else none

def spanFraction : List Char → List Char × List Char
  | '.' :: rest => spanDigits rest
  | rest => ([], rest)

/-- The number that a whole text writes: an optional sign, digits with at most one point among or
around them, an optional exponent. A value too large to be finite is infinite. -/
def numeric? (text : List Char) : Option Number :=
  let (negative, unsigned) := splitSign text
  let (whole, afterWhole) := spanDigits unsigned
  let (fraction, afterFraction) := spanFraction afterWhole
  if (whole ++ fraction).isEmpty then none
  else do
    let shift ← exponent? afterFraction
    let d := decimalOf whole fraction
    some ((⟨d.digits, d.exponent + shift⟩ : Decimal).toNumber negative)

/-- The finite number that a text writes; white space around it is ignored. -/
def number? (text : List Char) : Option FiniteNumber := (numeric? (trim text)).bind Number.finite?

end DecisionTables.Text
