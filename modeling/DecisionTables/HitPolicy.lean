/-!
# Hit policies and aggregations

How the outputs of the rules that match one record make up the decision, and how a table that
collects outputs reduces them.
-/
namespace DecisionTables

inductive HitPolicy where
  /-- At most one rule may match. -/
  | unique
  /-- The first matching rule decides. -/
  | first
  /-- The matching rule of the greatest priority decides. -/
  | priority
  /-- The matching rules must agree in their outputs. -/
  | any
  /-- All outputs, reduced by the aggregation. -/
  | collect
  /-- All outputs in the order of the rules. -/
  | ruleOrder
  /-- All outputs in the order of their JSON texts. -/
  | outputOrder
  deriving DecidableEq

namespace HitPolicy

def all : List HitPolicy := [unique, first, priority, any, collect, ruleOrder, outputOrder]

def name : HitPolicy → String
  | unique => "UNIQUE"
  | first => "FIRST"
  | priority => "PRIORITY"
  | any => "ANY"
  | collect => "COLLECT"
  | ruleOrder => "RULE_ORDER"
  | outputOrder => "OUTPUT_ORDER"

def ofName? (text : String) : Option HitPolicy := all.find? fun policy => policy.name == text

def isMultiple : HitPolicy → Bool
  | collect => true
  | ruleOrder => true
  | outputOrder => true
  | _ => false

end HitPolicy

inductive Aggregation where
  | none
  | count
  | sum
  | min
  | max
  deriving DecidableEq

namespace Aggregation

def all : List Aggregation := [none, count, sum, min, max]

def name : Aggregation → String
  | none => "NONE"
  | count => "COUNT"
  | sum => "SUM"
  | min => "MIN"
  | max => "MAX"

def ofName? (text : String) : Option Aggregation :=
  all.find? fun aggregation => aggregation.name == text

end Aggregation
end DecisionTables
