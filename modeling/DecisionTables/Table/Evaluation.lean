import DecisionTables.Json.Shape
import DecisionTables.Table.Resolution

/-!
# Evaluation

The outcome of a table on a record: the decision, with what the options ask for besides.
-/
namespace DecisionTables

structure Options where
  /-- A record that no rule matches is an error. -/
  strict : Bool
  metadata : Bool
  trace : Bool
  deriving DecidableEq

namespace Options

def default : Options := ⟨false, false, false⟩

/-- The fields of options in JSON; each of them may be missing. -/
def shape : Json.Shape Options :=
  .record [
    .defaulted "strictMode" .flag fun o b => { o with strict := b },
    .defaulted "includeMetadata" .flag fun o b => { o with metadata := b },
    .defaulted "traceExecution" .flag fun o b => { o with trace := b }] default

def ofText (text : String) : Except Json.Fault Options := Json.ofTextAs shape text

def ofJson (j : Json) : Except Json.Fault Options := j.as shape

end Options

namespace Table

def metadataOf (table : Table) (hits : List Match) : Metadata where
  policy := table.policy
  aggregation := table.aggregation
  matched := hits.map fun m => ⟨m.rule.id, m.rule.annotation⟩
  matchCount := hits.length

def traceOf (table : Table) (record : FactRecord) (hits : List Match) : Trace where
  ruleCount := table.rules.length
  matched := hits.map fun m => m.rule.id
  record := record

def outcomeOf (table : Table) (record : FactRecord) (options : Options) (hits : List Match)
    (decision : Decision) : Outcome where
  decision := decision
  metadata := if options.metadata then some (table.metadataOf hits) else none
  trace := if options.trace then some (table.traceOf record hits) else none

/-- The outcome on a record. A broken policy counts before the lack of a match. -/
def evaluate (table : Table) (record : FactRecord) (options : Options) :
    Except DecisionError Outcome := do
  let hits := table.matched record
  let decision ← table.resolve hits
  if options.strict && hits.isEmpty then .error .noneMatched
  else .ok (table.outcomeOf record options hits decision)

theorem evaluate_of_error {table : Table} {record : FactRecord} {e : DecisionError}
    (h : table.resolve (table.matched record) = .error e) (options : Options) :
    table.evaluate record options = .error e := by
  rw [evaluate, h]
  rfl

theorem evaluate_of_ok {table : Table} {record : FactRecord} {decision : Decision}
    (h : table.resolve (table.matched record) = .ok decision) (options : Options) :
    table.evaluate record options =
      if options.strict && (table.matched record).isEmpty then .error .noneMatched
      else .ok (table.outcomeOf record options (table.matched record) decision) := by
  rw [evaluate, h]
  rfl

/-- A table has an outcome where its policy decides, unless strictness asks for a match that is
missing. -/
theorem evaluate_eq_ok_iff {table : Table} {record : FactRecord} {options : Options}
    {outcome : Outcome} :
    table.evaluate record options = .ok outcome ↔
      ∃ decision, table.resolve (table.matched record) = .ok decision ∧
        (options.strict && (table.matched record).isEmpty) = false ∧
        outcome = table.outcomeOf record options (table.matched record) decision := by
  cases h : table.resolve (table.matched record) with
  | error e => simp [evaluate_of_error h]
  | ok decision =>
    rw [evaluate_of_ok h]
    cases options.strict && (table.matched record).isEmpty with
    | true => simp
    | false => simp [eq_comm]

def evaluateAll (table : Table) (records : List FactRecord) (options : Options) :
    List (Except DecisionError Outcome) :=
  records.map fun record => table.evaluate record options

end Table
end DecisionTables
