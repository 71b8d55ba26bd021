import DecisionTables.Number.Arithmetic
import DecisionTables.Outcome
import DecisionTables.Table.Basic

/-!
# Matching and resolution

Which rules of a table match a record, the outputs that they give, and how a hit policy makes one
decision of the matches, which stand in the order of the rules. A rule matches if all its conditions
hold; a condition on a derived column is about the value of the column's expression.
-/
namespace DecisionTables

/-- A rule that matched, and its outputs. -/
structure Match where
  rule : Rule
  outputs : Outputs
  deriving DecidableEq

namespace Table

/-- The value that the conditions on a column are about: that of the column's expression if it is
derived, else the fact of its name. -/
def inputValue (table : Table) (record : FactRecord) (column : String) : Value :=
  match table.derivation? column with
  | some source => Column.derive source record
  | none => (record.get? column).getD .null

def isMatched (table : Table) (record : FactRecord) (rule : Rule) : Bool :=
  rule.conditions.all fun c => c.accepts (table.inputValue record c.column)

/-- A value assigned to a column, in the type of the column if it is declared. -/
def assigned (table : Table) (column : String) (value : Value) : Value :=
  match columnNamed? table.outputs column with
  | some c => c.type.coerce value
  | none => value

def defaults (table : Table) : Outputs :=
  .ofList (table.outputs.filterMap fun c => c.default.map fun v => (c.name, v))

/-- The outputs of a rule: the last assignment to each column, and defaults for the columns that
have no assignment. -/
def outputsOf (table : Table) (rule : Rule) : Outputs :=
  table.defaults.update (.ofList (rule.outputs.map fun e => (e.1, table.assigned e.1 e.2)))

def matched (table : Table) (record : FactRecord) : List Match :=
  (table.rules.filter (table.isMatched record)).map fun rule => ⟨rule, table.outputsOf rule⟩

def outputsOrDefaults (table : Table) : Option Match → Outputs
  | some m => m.outputs
  | none => table.defaults

/-- Of two matches the one whose priority is greater, the earlier at a tie; not-a-number gives way
to every number. -/
def prior (earlier later : Match) : Match :=
  let p := earlier.rule.effectivePriority
  let q := later.rule.effectivePriority
  if p.less q || (p.isNaN && !q.isNaN) then later else earlier

def foremost? : List Match → Option Match
  | [] => none
  | m :: rest => some (rest.foldl prior m)

/-- Two maps hold equal values under the same names. -/
def agree : List (String × Value) → List (String × Value) → Bool
  | [], [] => true
  | (k, v) :: rest, (l, w) :: rest' => k == l && v.equal w && agree rest rest'
  | _, _ => false

/-- Every match agrees with the first one. -/
def allAgree : List Match → Bool
  | [] => true
  | m :: rest => (m :: rest).all fun n => agree n.outputs.entries m.outputs.entries

def sortKey (outputs : Outputs) : String := (outputs.toJson .letter).toText

def numbersAt (hits : List Match) (column : String) : List Number :=
  hits.filterMap fun m =>
    match m.outputs.get? column with
    | some (.number x) => some x
    | _ => none

def reduce (f : Number → Number → Number) : List Number → Option Number
  | [] => none
  | x :: rest => some (rest.foldl f x)

/-- The operation that an aggregation of numbers repeats. -/
def combiner? : Aggregation → Option (Number → Number → Number)
  | .sum => some Number.add
  | .min => some Number.lesser
  | .max => some Number.greater
  | _ => none

/-- The outputs that an aggregation makes of the matches: none if there are no matches, else their
count, or each number column reduced. -/
def aggregate (table : Table) (hits : List Match) : Outputs :=
  if hits.isEmpty then .empty
  else if table.aggregation = .count then
    Fields.empty.insert "count" (.number (.ofNat hits.length))
  else
    .ofList (table.outputs.filterMap fun c => do
      let f ← combiner? table.aggregation
      if c.type = .number then
        (reduce f (numbersAt hits c.name)).map fun x => (c.name, .number x)
      else none)

/-- The decision that the hit policy makes of the matches. -/
def resolve (table : Table) (hits : List Match) : Except DecisionError Decision :=
  match table.policy with
  | .unique =>
    if 1 < hits.length then .error (.severalMatched hits.length)
    else .ok (.single (table.outputsOrDefaults hits.head?))
  | .first => .ok (.single (table.outputsOrDefaults hits.head?))
  | .priority => .ok (.single (table.outputsOrDefaults (foremost? hits)))
  | .any =>
    if allAgree hits then .ok (.single (table.outputsOrDefaults hits.head?))
    else .error (.outputsDiffer hits.length)
  | .collect =>
    if table.aggregation = .none then .ok (.multiple (hits.map Match.outputs))
    else .ok (.single (table.aggregate hits))
  | .ruleOrder => .ok (.multiple (hits.map Match.outputs))
  | .outputOrder =>
    .ok (.multiple ((hits.map Match.outputs).mergeSort fun a b =>
      compare (sortKey a) (sortKey b) != .gt))

end Table
end DecisionTables
