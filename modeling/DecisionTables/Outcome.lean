import DecisionTables.HitPolicy
import DecisionTables.Record

/-!
# Outcomes

What a table answers: the decision, and on request which rules matched and what was looked at. An
outcome is written as one flat JSON object, in which the additions stand under names that begin
with an underscore.
-/
namespace DecisionTables

abbrev Outputs := Fields Value

inductive Decision where
  | single (outputs : Outputs)
  | multiple (list : List Outputs)
  deriving DecidableEq

def Decision.all : Decision → List Outputs
  | single outputs => [outputs]
  | multiple list => list

structure RuleSummary where
  id : String
  annotation : Option String
  deriving DecidableEq

/-- The rules that matched, in the order of their declaration, and what made a decision of them. -/
structure Metadata where
  policy : HitPolicy
  aggregation : Aggregation
  matched : List RuleSummary
  matchCount : Nat
  deriving DecidableEq

/-- What was looked at: the number of rules, the rules that matched, and the record. -/
structure Trace where
  ruleCount : Nat
  matched : List String
  record : FactRecord
  deriving DecidableEq

structure Outcome where
  decision : Decision
  metadata : Option Metadata
  trace : Option Trace
  deriving DecidableEq

def Outputs.toJson (zone : Calendar.Zone) (outputs : Outputs) : Json :=
  .ofFields (Fields.map (Value.toJson zone) outputs)

def RuleSummary.toJson (rule : RuleSummary) : Json :=
  .ofFields <| .ofList <|
    ("id", .string rule.id) :: (rule.annotation.map fun a => ("annotation", .string a)).toList

def Metadata.toJson (m : Metadata) : Json :=
  .ofFields <| .ofList [
    ("hitPolicy", .string m.policy.name),
    ("aggregation", .string m.aggregation.name),
    ("matchedRules", .array (m.matched.map RuleSummary.toJson)),
    ("matchCount", .int m.matchCount)]

def Trace.toJson (t : Trace) : Json :=
  .ofFields <| .ofList [
    ("evaluatedRules", .int t.ruleCount),
    ("matchingRules", .array (t.matched.map .string)),
    ("inputData", FactRecord.toJson .letter t.record)]

def Decision.members : Decision → Fields Json
  | single outputs => Fields.map (Value.toJson .offset) outputs
  | multiple list => Fields.empty.insert "results" (.array (list.map (Outputs.toJson .offset)))

/-- The members that the additions give. -/
def Outcome.additions (outcome : Outcome) : List (String × Json) :=
  (outcome.metadata.map fun m => ("_metadata", m.toJson)).toList ++
    (outcome.trace.map fun t => ("_trace", t.toJson)).toList

/-- The flat JSON object. An addition takes the place of an output of its name. -/
def Outcome.toJson (outcome : Outcome) : Json :=
  .ofFields (outcome.additions.foldl (fun members e => members.insert e.1 e.2)
    outcome.decision.members)

def Outputs.toText (outputs : Outputs) : String :=
  let entries := outputs.entries.map fun e => e.1 ++ " = " ++ e.2.toText
  "\x7b" ++ String.intercalate ", " entries ++ "\x7d"

def Decision.toText : Decision → String
  | single outputs => "outputs: " ++ outputs.toText
  | multiple list => "results: [" ++ String.intercalate ", " (list.map Outputs.toText) ++ "]"

namespace Outcome

def toText (outcome : Outcome) : String :=
  let matched := match outcome.metadata with
    | some m => ", matched: [" ++ String.intercalate ", " (m.matched.map RuleSummary.id) ++ "]"
    | none => ""
  outcome.decision.toText ++ matched

def output? (outcome : Outcome) (column : String) : Option Value :=
  match outcome.decision with
  | .single outputs => outputs.get? column
  | .multiple _ => none

end Outcome
end DecisionTables
