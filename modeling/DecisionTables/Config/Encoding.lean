import DecisionTables.Json.Shape
import DecisionTables.Value.Basic

/-!
# Table configurations

A decision table as it is written in JSON, with names and payloads that nobody has looked at yet. A
configuration is read as it stands, and written with its fields in the order of their declaration,
those without a value left out.
-/
namespace DecisionTables

/-- A mapping from columns to values, given inline or as text. -/
inductive Payload where
  | object (members : Fields Json)
  | text (text : String)
  deriving DecidableEq

structure ColumnConfig where
  name : String
  type : Option String
  expression : Option String
  default : Option Json
  deriving DecidableEq

structure RuleConfig where
  id : Option String
  conditions : Payload
  outputs : Payload
  priority : Option Number
  annotation : Option String
  deriving DecidableEq

structure TableConfig where
  policy : String
  aggregation : Option String
  inputs : List ColumnConfig
  outputs : List ColumnConfig
  rules : List RuleConfig
  deriving DecidableEq

namespace Payload

def ofJson? : Json → Option Payload
  | .object members => some (object (.ofList members))
  | .string t => some (text t)
  | _ => none

def shape : Json.Shape Payload := fun depth text => do
  let (value, rest) ← Json.Shape.any depth text
  match ofJson? value with
  | some payload => .ok (payload, rest)
  | none => .error .mismatched

end Payload

def ColumnConfig.shape : Json.Shape ColumnConfig :=
  .record [
    .mandatory "name" .text fun c name => { c with name := name },
    .defaulted "type" (.optional .text) fun c type => { c with type := type },
    .defaulted "expression" (.optional .text) fun c e => { c with expression := e },
    .defaulted "defaultValue" (.optional .any) fun c v => { c with default := v }]
    ⟨"", none, none, none⟩

def RuleConfig.shape : Json.Shape RuleConfig :=
  .record [
    .defaulted "id" (.optional .text) fun r id => { r with id := id },
    .defaulted "conditions" Payload.shape fun r p => { r with conditions := p },
    .defaulted "outputs" Payload.shape fun r p => { r with outputs := p },
    .defaulted "priority" (.optional .number) fun r p => { r with priority := p },
    .defaulted "annotation" (.optional .text) fun r a => { r with annotation := a }]
    ⟨none, .object .empty, .object .empty, none, none⟩

namespace TableConfig

def shape : Json.Shape TableConfig :=
  .record [
    .mandatory "hitPolicy" .text fun t policy => { t with policy := policy },
    .defaulted "aggregation" (.optional .text) fun t a => { t with aggregation := a },
    .defaulted "inputColumns" (.list ColumnConfig.shape) fun t cs => { t with inputs := cs },
    .defaulted "outputColumns" (.list ColumnConfig.shape) fun t cs => { t with outputs := cs },
    .defaulted "rules" (.list RuleConfig.shape) fun t rs => { t with rules := rs }]
    ⟨"", none, [], [], []⟩

def ofText (text : String) : Except Json.Fault TableConfig := Json.ofTextAs shape text

end TableConfig

def optionalMember {α : Type} (name : String) (write : α → Json) (value : Option α) :
    List (String × Json) :=
  (value.map fun v => (name, write v)).toList

def Payload.toJson : Payload → Json
  | object members => .ofFields members
  | text t => .string t

def ColumnConfig.toJson (c : ColumnConfig) : Json :=
  .object ([("name", .string c.name)] ++ optionalMember "type" .string c.type ++
    optionalMember "expression" .string c.expression ++ optionalMember "defaultValue" id c.default)

def RuleConfig.toJson (r : RuleConfig) : Json :=
  .object (optionalMember "id" .string r.id ++
    [("conditions", r.conditions.toJson), ("outputs", r.outputs.toJson)] ++
    optionalMember "priority" (fun p => (Value.number p).toJson .letter) r.priority ++
    optionalMember "annotation" .string r.annotation)

namespace TableConfig

/-- The configuration in JSON, the fields in the order of their declaration. -/
def toJson (t : TableConfig) : Json :=
  .object ([("hitPolicy", .string t.policy)] ++
    optionalMember "aggregation" .string t.aggregation ++
    [("inputColumns", .array (t.inputs.map ColumnConfig.toJson)),
      ("outputColumns", .array (t.outputs.map ColumnConfig.toJson)),
      ("rules", .array (t.rules.map RuleConfig.toJson))])

def toText (t : TableConfig) : String := t.toJson.toText

end TableConfig

end DecisionTables
