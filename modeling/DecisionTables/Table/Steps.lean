import DecisionTables.Table.Basic

/-!
# Declaring tables step by step

A draft can be put together by single steps: into a rule go the entries of its cells, its outputs,
a priority and an annotation, into a table an aggregation, columns and rules. Main statements: what
a sequence of steps declares is what its steps of each kind declare in their order, and of several
aggregations, priorities or annotations the last.
-/
namespace DecisionTables

inductive RuleStep where
  | entry (column : String) (entry : CellEntry)
  | condition (condition : Condition)
  | output (column : String) (value : Value)
  | priority (priority : Number)
  | note (text : String)
  deriving DecidableEq

namespace RuleStep

def condition? : RuleStep → Option Condition
  | entry column e => some (e.condition column)
  | condition c => some c
  | _ => none

def output? : RuleStep → Option (String × Value)
  | output column value => some (column, value)
  | _ => none

def priority? : RuleStep → Option Number
  | priority p => some p
  | _ => none

def note? : RuleStep → Option String
  | note text => some text
  | _ => none

end RuleStep

namespace RuleDraft

def blank (id : Option String) : RuleDraft := ⟨id, [], [], none, none⟩

def enter (draft : RuleDraft) : RuleStep → RuleDraft
  | .entry column e => { draft with conditions := draft.conditions ++ [e.condition column] }
  | .condition c => { draft with conditions := draft.conditions ++ [c] }
  | .output column value => { draft with outputs := draft.outputs ++ [(column, value)] }
  | .priority p => { draft with priority := some p }
  | .note text => { draft with annotation := some text }

def ofSteps (id : Option String) (steps : List RuleStep) : RuleDraft :=
  steps.foldl enter (blank id)

theorem foldl_enter (draft : RuleDraft) (steps : List RuleStep) :
    steps.foldl enter draft =
      { id := draft.id
        conditions := draft.conditions ++ steps.filterMap RuleStep.condition?
        outputs := draft.outputs ++ steps.filterMap RuleStep.output?
        priority := (steps.filterMap RuleStep.priority?).getLast?.or draft.priority
        annotation := (steps.filterMap RuleStep.note?).getLast?.or draft.annotation } := by
  induction steps generalizing draft with
  | nil => simp
  | cons step rest ih =>
    rw [List.foldl_cons, ih]
    cases step <;>
      simp [List.filterMap_cons, enter, RuleStep.condition?, RuleStep.output?, RuleStep.priority?,
        RuleStep.note?, List.getLast?_cons]

theorem ofSteps_eq (id : Option String) (steps : List RuleStep) :
    ofSteps id steps =
      { id := id
        conditions := steps.filterMap RuleStep.condition?
        outputs := steps.filterMap RuleStep.output?
        priority := (steps.filterMap RuleStep.priority?).getLast?
        annotation := (steps.filterMap RuleStep.note?).getLast? } := by
  simp [ofSteps, foldl_enter, blank]

end RuleDraft

inductive TableStep where
  | aggregation (aggregation : Aggregation)
  | input (column : Column)
  | output (column : Column)
  | rule (id : Option String) (steps : List RuleStep)
  deriving DecidableEq

namespace TableStep

def aggregation? : TableStep → Option Aggregation
  | aggregation a => some a
  | _ => none

def input? : TableStep → Option Column
  | input c => some c
  | _ => none

def output? : TableStep → Option Column
  | output c => some c
  | _ => none

def rule? : TableStep → Option (Option String × List RuleStep)
  | rule id steps => some (id, steps)
  | _ => none

end TableStep

namespace Draft

def blank (policy : HitPolicy) : Draft := ⟨policy, .none, [], [], []⟩

def enter (draft : Draft) : TableStep → Draft
  | .aggregation a => { draft with aggregation := a }
  | .input c => { draft with inputs := draft.inputs ++ [c] }
  | .output c => { draft with outputs := draft.outputs ++ [c] }
  | .rule id steps => { draft with rules := draft.rules ++ [.ofSteps id steps] }

def ofSteps (policy : HitPolicy) (steps : List TableStep) : Draft :=
  steps.foldl enter (blank policy)

theorem foldl_enter (draft : Draft) (steps : List TableStep) :
    steps.foldl enter draft =
      { policy := draft.policy
        aggregation := (steps.filterMap TableStep.aggregation?).getLast?.getD draft.aggregation
        inputs := draft.inputs ++ steps.filterMap TableStep.input?
        outputs := draft.outputs ++ steps.filterMap TableStep.output?
        rules := draft.rules ++
          (steps.filterMap TableStep.rule?).map fun e => RuleDraft.ofSteps e.1 e.2 } := by
  induction steps generalizing draft with
  | nil => simp
  | cons step rest ih =>
    rw [List.foldl_cons, ih]
    cases step <;>
      simp [List.filterMap_cons, enter, TableStep.aggregation?, TableStep.input?, TableStep.output?,
        TableStep.rule?, List.getLast?_cons]

theorem ofSteps_eq (policy : HitPolicy) (steps : List TableStep) :
    ofSteps policy steps =
      { policy := policy
        aggregation := (steps.filterMap TableStep.aggregation?).getLast?.getD .none
        inputs := steps.filterMap TableStep.input?
        outputs := steps.filterMap TableStep.output?
        rules := (steps.filterMap TableStep.rule?).map fun e => RuleDraft.ofSteps e.1 e.2 } := by
  simp [ofSteps, foldl_enter, blank]

end Draft
end DecisionTables
