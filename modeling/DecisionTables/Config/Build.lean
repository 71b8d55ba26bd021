import DecisionTables.Config.Encoding
import DecisionTables.Json.Reader
import DecisionTables.Table.Basic

/-!
# Building tables from configurations

The names and payloads of a configuration are decoded into a draft, in a fixed order: the hit
policy, the aggregation, the types of the input columns and of the output columns, and the rules.
The first fault counts. In the conditions of a rule, strings are the text of cells and other scalars
are exact values.
-/
namespace DecisionTables

def Payload.object? : Payload → Except PayloadFault (Fields Json)
  | object members => .ok members
  | text t =>
    match Json.ofText t with
    | .error fault => .error (.notJson fault)
    | .ok (.object members) => .ok (.ofList members)
    | .ok _ => .error .notObject

/-- The object that a payload holds, if all its values are scalars. -/
def Payload.scalars? (payload : Payload) : Except PayloadFault (Fields Json) := do
  let members ← payload.object?
  match members.entries.find? fun e => e.2.isContainer with
  | some e => .error (.nested e.1)
  | none => .ok members

def CellEntry.ofJson : Json → CellEntry
  | .string t => text t
  | j => exact (.ofJson j)

namespace ColumnConfig

/-- The declared type; a column without one takes strings. -/
def columnType (c : ColumnConfig) : Except BuildError ColumnType :=
  match c.type with
  | none => .ok .string
  | some name =>
    match ColumnType.ofName? name with
    | some type => .ok type
    | none => .error (.unknownColumnType name)

/-- An input column; a blank expression counts as none. -/
def input (c : ColumnConfig) : Except BuildError Column := do
  .ok ⟨c.name, ← c.columnType, c.expression.filter fun e => !Text.isBlank e.toList, none⟩

def output (c : ColumnConfig) : Except BuildError Column := do
  .ok ⟨c.name, ← c.columnType, none, c.default.map Value.ofJson⟩

end ColumnConfig

/-- The rule at a position, conditions before outputs. -/
def RuleConfig.draft (position : Nat) (r : RuleConfig) : Except BuildError RuleDraft := do
  let conditions ← r.conditions.scalars?.mapError (.malformedRule position .conditions)
  let outputs ← r.outputs.scalars?.mapError (.malformedRule position .outputs)
  .ok {
    id := some (r.id.getD "")
    conditions := conditions.entries.map fun e => (CellEntry.ofJson e.2).condition e.1
    outputs := outputs.entries.map fun e => (e.1, .ofJson e.2)
    priority := r.priority
    annotation := r.annotation }

def ruleDrafts : Nat → List RuleConfig → Except BuildError (List RuleDraft)
  | _, [] => .ok []
  | position, r :: rest => do
    let draft ← r.draft position
    let drafts ← ruleDrafts (position + 1) rest
    .ok (draft :: drafts)

def columnsOf (column : ColumnConfig → Except BuildError Column) :
    List ColumnConfig → Except BuildError (List Column)
  | [] => .ok []
  | c :: rest => do
    let column' ← column c
    let columns ← columnsOf column rest
    .ok (column' :: columns)

def policyNamed (name : String) : Except BuildError HitPolicy :=
  match HitPolicy.ofName? name with
  | some policy => .ok policy
  | none => .error (.unknownHitPolicy name)

def aggregationNamed : Option String → Except BuildError Aggregation
  | none => .ok .none
  | some name =>
    match Aggregation.ofName? name with
    | some aggregation => .ok aggregation
    | none => .error (.unknownAggregation name)

namespace TableConfig

def draft (t : TableConfig) : Except BuildError Draft := do
  let policy ← policyNamed t.policy
  let aggregation ← aggregationNamed t.aggregation
  let inputs ← columnsOf ColumnConfig.input t.inputs
  let outputs ← columnsOf ColumnConfig.output t.outputs
  let rules ← ruleDrafts 1 t.rules
  .ok ⟨policy, aggregation, inputs, outputs, rules⟩

/-- The table of a configuration, or its first fault. -/
def build (t : TableConfig) : Except BuildError Table := do
  (← t.draft).build

end TableConfig
end DecisionTables
