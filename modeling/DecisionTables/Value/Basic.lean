import DecisionTables.Json.Printer
import DecisionTables.Number.Layout
import DecisionTables.Number.Numeral
import DecisionTables.Calendar.Text

/-!
# Values

The scalar values of facts, conditions and outputs, and the one order in which they are compared
across their kinds. Two values of different kinds are compared if one of them is a string that
reads as the kind of the other, or if they are a date and a number; all other pairs of different
kinds are incomparable, and so is not-a-number with everything. In JSON a value is a scalar; an array
or an object has no scalar form and is kept as its compact text.
-/
namespace DecisionTables

inductive Value where
  | null
  | bool (b : Bool)
  | number (x : Number)
  | string (text : String)
  | date (instant : Calendar.Instant)
  deriving DecidableEq

namespace Value

inductive Kind where
  | null
  | boolean
  | number
  | string
  | date
  deriving DecidableEq

def Kind.name : Kind → String
  | null => "null"
  | boolean => "boolean"
  | number => "number"
  | string => "string"
  | date => "date"

def kind : Value → Kind
  | null => .null
  | bool _ => .boolean
  | number _ => .number
  | string _ => .string
  | date _ => .date

def isNull : Value → Bool
  | null => true
  | _ => false

def isString : Value → Bool
  | string _ => true
  | _ => false

def numberOf? (text : String) : Option Number := (Text.number? text.toList).map .finite

/-- The truth value that a string names, in lower case and without white space. -/
def boolOf? (text : String) : Option Bool :=
  if text = "true" then some true else if text = "false" then some false else none

def dateOf? (text : String) : Option Calendar.Instant := Calendar.Instant.ofText? text.toList

def millisNumber (instant : Calendar.Instant) : Number := .ofInt instant.millis

/-- The numeric view: null and strings that write no number have none. -/
def number? : Value → Option Number
  | null => none
  | bool b => some (.ofNat (if b then 1 else 0))
  | number x => some x
  | string text => numberOf? text
  | date instant => some (millisNumber instant)

/-- The truth of a value: null, zero, not-a-number and the empty string are false. -/
def isTrue : Value → Bool
  | null => false
  | bool b => b
  | number x => !x.isZero && !x.isNaN
  | string text => text ≠ ""
  | date _ => true

def order? : Value → Value → Option Ordering
  | null, null => some .eq
  | bool a, bool b => some (compare a b)
  | number x, number y => x.order? y
  | string s, string t => some (compare s t)
  | date a, date b => some (a.order b)
  | number x, string t => (numberOf? t).bind x.order?
  | string s, number y => (numberOf? s).bind (·.order? y)
  | bool a, string t => (boolOf? t).map (compare a)
  | string s, bool b => (boolOf? s).map (compare · b)
  | date a, string t => (dateOf? t).map a.order
  | string s, date b => (dateOf? s).map (·.order b)
  | number x, date b => x.order? (millisNumber b)
  | date a, number y => (millisNumber a).order? y
  | _, _ => none

def looseEqual (a b : Value) : Bool := a.order? b == some .eq

def less (a b : Value) : Bool := a.order? b == some .lt

def greater (a b : Value) : Bool := a.order? b == some .gt

def atMost (a b : Value) : Bool := a.less b || a.looseEqual b

def atLeast (a b : Value) : Bool := a.greater b || a.looseEqual b

/-- The same kind and the same value: not-a-number differs from itself, the two zeros are the
same. -/
def equal : Value → Value → Bool
  | null, null => true
  | bool a, bool b => a == b
  | number x, number y => x.equal y
  | string s, string t => s == t
  | date a, date b => a == b
  | _, _ => false

/-- A value as it is displayed: strings stand between quotes, without escapes. -/
def toText : Value → String
  | null => "null"
  | bool true => "true"
  | bool false => "false"
  | number x => x.toText
  | string text => "\"" ++ text ++ "\""
  | date instant => instant.toText .offset

/-- A value as it is joined to other text: strings stand without quotes. -/
def plainText : Value → String
  | string text => text
  | v => v.toText

def toJson (zone : Calendar.Zone) : Value → Json
  | null => .null
  | bool b => .bool b
  | number (.finite x) => .real x
  | number _ => .null
  | string text => .string text
  | date instant => .string (instant.toText zone)

def ofJson : Json → Value
  | .null => .null
  | .bool b => .bool b
  | .int i => .number (.ofInt i)
  | .real x => .number (.finite x)
  | .string text => .string text
  | .array items => .string (Json.array items).toText
  | .object members => .string (Json.object members).toText

end Value
end DecisionTables
