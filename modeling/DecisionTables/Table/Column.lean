import DecisionTables.Expression.Evaluation
import DecisionTables.Expression.Reader
import DecisionTables.Record

/-!
# Columns

A column has a type, into which its output values are turned; what cannot be turned into a number or
a date becomes null. An input column may be derived: its value is then that of an expression over
the whole record, and null where the expression is faulty or has no value. An output column may have
a default, which stands in for an output that no rule assigns.
-/
namespace DecisionTables

inductive ColumnType where
  | string
  | number
  | boolean
  | date
  deriving DecidableEq

namespace ColumnType

def name : ColumnType → String
  | string => "string"
  | number => "number"
  | boolean => "boolean"
  | date => "date"

/-- The type with a given name; ASCII letters may be of either case. -/
def ofName? (text : String) : Option ColumnType :=
  [string, number, boolean, date].find? fun type => type.name.toList == text.toList.map Char.toLower

/-- A number is what a value counts as; a blank string counts as zero. -/
def coerceToNumber : Value → Value
  | .string text =>
    if Text.isBlank text.toList then .number .zero
    else ((Value.numberOf? text).map Value.number).getD .null
  | v => (v.number?.map Value.number).getD .null

/-- The strings `true` and `false` stand for what they name; any other value for its truth. -/
def coerceToBool : Value → Value
  | .string text => .bool ((Value.boolOf? text).getD (Value.isTrue (.string text)))
  | v => .bool v.isTrue

/-- A string is read as a date; a finite number counts milliseconds, its fraction dropped. -/
def coerceToDate : Value → Value
  | .date instant => .date instant
  | .string text => ((Value.dateOf? text).map Value.date).getD .null
  | .number (.finite x) =>
    ((Calendar.Instant.ofMillis? x.truncateToInt64).map Value.date).getD .null
  | _ => .null

/-- A value turned into the type; a string column takes any value as it is. -/
def coerce : ColumnType → Value → Value
  | string => id
  | number => coerceToNumber
  | boolean => coerceToBool
  | date => coerceToDate

end ColumnType

structure Column where
  name : String
  type : ColumnType
  /-- The text of the expression of a derived column. -/
  expression : Option String
  default : Option Value
  deriving DecidableEq

namespace Column

def derive (source : String) (record : FactRecord) : Value :=
  match Expression.ofText source with
  | .error _ => .null
  | .ok e =>
    match e.evaluate record.lookup with
    | .ok v => v
    | .error _ => .null

end Column
end DecisionTables
