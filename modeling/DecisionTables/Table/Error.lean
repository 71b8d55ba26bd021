import DecisionTables.HitPolicy
import DecisionTables.Json.Token

/-!
# Errors

Why no table is built from a declaration, and why a table makes no decision on a record.
-/
namespace DecisionTables

inductive ColumnSide where
  | input
  | output
  deriving DecidableEq

def ColumnSide.name : ColumnSide → String
  | input => "input"
  | output => "output"

inductive RulePart where
  | conditions
  | outputs
  deriving DecidableEq

def RulePart.name : RulePart → String
  | conditions => "conditions"
  | outputs => "outputs"

inductive PayloadFault where
  | notJson (fault : Json.Fault)
  | notObject
  /-- The value for a column is an array or an object. -/
  | nested (column : String)
  deriving DecidableEq

inductive BuildError where
  | unknownHitPolicy (name : String)
  | unknownAggregation (name : String)
  | unknownColumnType (name : String)
  /-- Rules count from 1. -/
  | malformedRule (position : Nat) (part : RulePart) (fault : PayloadFault)
  /-- Columns count from 1 on their side. -/
  | emptyColumnName (side : ColumnSide) (position : Nat)
  | duplicateColumn (side : ColumnSide) (name : String)
  deriving DecidableEq

/-- The place of a fault inside its rule: a payload, or a column of it. -/
def PayloadFault.place (part : RulePart) : PayloadFault → String
  | nested column => part.name ++ "." ++ column
  | _ => part.name

/-- What is wrong, in words. The words for broken JSON are those of its reader and left out. -/
def PayloadFault.reason : PayloadFault → String
  | notJson _ => "invalid JSON"
  | notObject => "expected a JSON object"
  | nested _ => "nested arrays and objects are not supported"

def BuildError.message : BuildError → String
  | unknownHitPolicy name => "unknown hit policy '" ++ name ++ "'"
  | unknownAggregation name => "unknown aggregation '" ++ name ++ "'"
  | unknownColumnType name => "unknown column type '" ++ name ++ "'"
  | malformedRule position part fault =>
    "rule " ++ toString position ++ ": malformed " ++ fault.place part ++ ": " ++ fault.reason
  | emptyColumnName side position =>
    side.name ++ " column at position " ++ toString position ++ " has an empty name"
  | duplicateColumn side name => "duplicate " ++ side.name ++ " column '" ++ name ++ "'"

inductive DecisionError where
  /-- More than one rule matched where only one may. -/
  | severalMatched (count : Nat)
  /-- The matching rules did not agree. -/
  | outputsDiffer (count : Nat)
  /-- No rule matched where one has to. -/
  | noneMatched
  deriving DecidableEq

def DecisionError.policy? : DecisionError → Option HitPolicy
  | severalMatched _ => some .unique
  | outputsDiffer _ => some .any
  | noneMatched => none

def DecisionError.message : DecisionError → String
  | severalMatched count =>
    "UNIQUE hit policy violated: multiple rules matched (" ++ toString count ++ " rules matched)"
  | outputsDiffer count =>
    "ANY hit policy violated: matching rules produced different outputs (" ++ toString count ++
      " rules matched)"
  | noneMatched => "no rules matched in strict mode"

end DecisionTables
