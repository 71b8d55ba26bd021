import DecisionTables.Text.Align
import DecisionTables.Number.Numeral
import DecisionTables.Json.Basic

/-!
# The tokens of JSON

Reading the parts of a JSON text: white space, keywords, numbers, strings, and the commas, colons
and brackets between the values.
-/
namespace DecisionTables.Json

/-- Why a text is not the JSON that was asked for: it ends too early, it breaks the grammar, or it
is JSON of another shape. -/
inductive Fault where
  | truncated
  | malformed
  | mismatched
  deriving DecidableEq

/-- A reader takes a text and gives what it read and the rest, or the fault that it met first. -/
abbrev Reader (α : Type) := List Char → Except Fault (α × List Char)

/-- Space, tab, line feed and carriage return. -/
def isBlank (c : Char) : Bool := c = ' ' || c = '\t' || c = '\n' || c = '\r'

def skipBlank (text : List Char) : List Char := text.dropWhile isBlank

def keyword : List Char → List Char → Except Fault (List Char)
  | [], rest => .ok rest
  | _ :: _, [] => .error .truncated
  | c :: word, d :: rest => if c = d then keyword word rest else .error .malformed

/-- A number as it is written: without a point the fraction is missing, and so with the exponent. -/
structure Numeral where
  negative : Bool
  whole : List Char
  fraction : Option (List Char)
  exponent : Option Int

def someDigits (text : List Char) : Except Fault (List Char × List Char) :=
  match Text.spanDigits text with
  | ([], []) => .error .truncated
  | ([], _ :: _) => .error .malformed
  | (digits, rest) => .ok (digits, rest)

/-- The whole part: a single zero, or digits that do not start with one. -/
def wholePart (text : List Char) : Except Fault (List Char × List Char) :=
  match someDigits text with
  | .ok ('0' :: _ :: _, _) => .error .malformed
  | result => result

def fractionPart : Reader (Option (List Char))
  | '.' :: rest => (someDigits rest).map fun (digits, rest) => (some digits, rest)
  | rest => .ok (none, rest)

def exponentPart : Reader (Option Int)
  | [] => .ok (none, [])
  | c :: rest =>
    if c = 'e' ∨ c = 'E' then
      let (negative, rest) := Text.splitSign rest
      (someDigits rest).map fun (digits, rest) =>
        let size : Int := Text.digitsValue digits
        (some (if negative then -size else size), rest)
    else .ok (none, c :: rest)

def numeral (text : List Char) : Except Fault (Numeral × List Char) := do
  let (negative, text) := match text with
    | '-' :: rest => (true, rest)
    | _ => (false, text)
  let (whole, text) ← wholePart text
  let (fraction, text) ← fractionPart text
  let (exponent, text) ← exponentPart text
  return (⟨negative, whole, fraction, exponent⟩, text)

/-- One more than the greatest whole number of 64 bits. -/
def wholeLimit : Nat := 18446744073709551616

/-- The least whole number of 64 bits with a sign, without its sign. -/
def negativeLimit : Nat := 9223372036854775808

def Numeral.decimal (n : Numeral) : Decimal :=
  let d := Text.decimalOf n.whole (n.fraction.getD [])
  ⟨d.digits, d.exponent + n.exponent.getD 0⟩

/-- The value of a numeral. Minus zero is no whole number, for it would lose its sign; a number too
large to be finite has no value. -/
def Numeral.value? (n : Numeral) : Option Json :=
  let size := Text.digitsValue n.whole
  if n.fraction = none ∧ n.exponent = none ∧ !n.negative ∧ size < wholeLimit then some (.int size)
  else if n.fraction = none ∧ n.exponent = none ∧ n.negative ∧ 0 < size ∧ size ≤ negativeLimit then
    some (.int (-size))
  else ((n.decimal.toNumber n.negative).finite?).map .real

def number (text : List Char) : Except Fault (Json × List Char) := do
  let (n, rest) ← numeral text
  match n.value? with
  | some value => .ok (value, rest)
  | none => .error .malformed

def hexValue? (c : Char) : Option Nat :=
  if c.isDigit then some (c.toNat - 48)
  else if 'a' ≤ c ∧ c ≤ 'f' then some (c.toNat - 87)
  else if 'A' ≤ c ∧ c ≤ 'F' then some (c.toNat - 55)
  else none

/-- Four hexadecimal digits. A text is too short for them if it has fewer than four bytes. -/
def fourHex : Reader Nat
  | a :: b :: c :: d :: rest =>
    match hexValue? a, hexValue? b, hexValue? c, hexValue? d with
    | some a, some b, some c, some d => .ok (((a * 16 + b) * 16 + c) * 16 + d, rest)
    | _, _, _, _ => .error .malformed
  | rest => if Text.byteLength rest < 4 then .error .truncated else .error .malformed

def isLeading (unit : Nat) : Bool := 0xD800 ≤ unit && unit ≤ 0xDBFF

def isTrailing (unit : Nat) : Bool := 0xDC00 ≤ unit && unit ≤ 0xDFFF

/-- The trailing unit that a leading unit needs, written as an escape of its own. -/
def trailingUnit : Reader Nat
  | [] => .error .truncated
  | ['\\'] => .error .truncated
  | '\\' :: 'u' :: rest => do
    let (unit, rest) ← fourHex rest
    if isTrailing unit then .ok (unit, rest) else .error .malformed
  | _ => .error .malformed

def unitEscape (text : List Char) : Except Fault (Char × List Char) := do
  let (unit, rest) ← fourHex text
  if isTrailing unit then .error .malformed
  else if isLeading unit then
    let (second, rest) ← trailingUnit rest
    .ok (Char.ofNat (0x10000 + (unit - 0xD800) * 0x400 + (second - 0xDC00)), rest)
  else .ok (Char.ofNat unit, rest)

def shortEscape? (c : Char) : Option Char :=
  if c = '"' ∨ c = '\\' ∨ c = '/' then some c
  else if c = 'b' then some '\u0008'
  else if c = 'f' then some '\u000c'
  else if c = 'n' then some '\n'
  else if c = 'r' then some '\r'
  else if c = 't' then some '\t'
  else none

/-- An escape, after its backslash; `unit` reads what follows a `u`. -/
def escaped (unit : Reader Char) : Reader Char
  | [] => .error .truncated
  | 'u' :: rest => unit rest
  | c :: rest =>
    match shortEscape? c with
    | some c => .ok (c, rest)
    | none => .error .malformed

/-- The characters of a string up to its closing quote, `fuel` being at least their number. -/
def stringBody (unit : Reader Char) : Nat → Reader (List Char)
  | _, [] => .error .truncated
  | 0, _ => .error .truncated
  | fuel + 1, c :: rest =>
    if c = '"' then .ok ([], rest)
    else if c = '\\' then do
      let (c, rest) ← escaped unit rest
      let (body, rest) ← stringBody unit fuel rest
      .ok (c :: body, rest)
    else if c.toNat < 0x20 then .error .malformed
    else do
      let (body, rest) ← stringBody unit fuel rest
      .ok (c :: body, rest)

def quotedText (text : List Char) : Except Fault (String × List Char) := do
  let (body, rest) ← stringBody unitEscape text.length text
  .ok (String.ofList body, rest)

/-- The start of the next item of an array, or none before the closing bracket. -/
def nextItem (first : Bool) (text : List Char) : Except Fault (Option (List Char)) :=
  match skipBlank text with
  | [] => .error .truncated
  | ']' :: _ => .ok none
  | c :: rest =>
    if first then .ok (some (c :: rest))
    else if c = ',' then
      match skipBlank rest with
      | [] => .error .truncated
      | ']' :: _ => .error .malformed
      | rest => .ok (some rest)
    else .error .malformed

/-- What follows the opening quote of the next member's name, or none before the closing brace. -/
def nextMember (first : Bool) (text : List Char) : Except Fault (Option (List Char)) :=
  match skipBlank text with
  | [] => .error .truncated
  | '}' :: _ => .ok none
  | c :: rest =>
    if first then if c = '"' then .ok (some rest) else .error .malformed
    else if c = ',' then
      match skipBlank rest with
      | [] => .error .truncated
      | '"' :: rest => .ok (some rest)
      | _ => .error .malformed
    else .error .malformed

def colon (text : List Char) : Except Fault (List Char) :=
  match skipBlank text with
  | [] => .error .truncated
  | ':' :: rest => .ok rest
  | _ => .error .malformed

/-- What follows a bracket that is known to come next. -/
def afterBracket (text : List Char) : List Char := (skipBlank text).tail

/-- The bracket that ends an array whose items are all read. An item too many breaks the grammar,
even where the text ends after the comma. -/
def closeArray (text : List Char) : Except Fault (List Char) :=
  match skipBlank text with
  | [] => .error .truncated
  | ']' :: rest => .ok rest
  | _ => .error .malformed

def atEnd (text : List Char) : Except Fault Unit :=
  if (skipBlank text).isEmpty then .ok () else .error .malformed

end DecisionTables.Json
