import DecisionTables.Condition.Cell
import DecisionTables.Table.Column
import DecisionTables.Table.Error

/-!
# Decision tables

A table is made from a draft: its columns are checked, and its rules get their ids. Main statement:
the check passes exactly if the names of the columns are distinct and none is empty, which is what
a table knows of its columns.
-/
namespace DecisionTables

/-- A row of a table. Its conditions and outputs stand in the order of their declaration; a column
may have several. -/
structure Rule where
  id : String
  conditions : List Condition
  outputs : List (String × Value)
  priority : Option Number
  annotation : Option String
  deriving DecidableEq

/-- The priority that counts: zero if none is given. -/
def Rule.effectivePriority (rule : Rule) : Number := rule.priority.getD .zero

/-- A rule as it is declared: its id may be missing. -/
structure RuleDraft where
  id : Option String
  conditions : List Condition
  outputs : List (String × Value)
  priority : Option Number
  annotation : Option String
  deriving DecidableEq

/-- The rule at a position, counted from 1. A rule without an id is named for its position. -/
def RuleDraft.toRule (draft : RuleDraft) (position : Nat) : Rule where
  id := (draft.id.filter (· ≠ "")).getD ("rule_" ++ toString position)
  conditions := draft.conditions
  outputs := draft.outputs
  priority := draft.priority
  annotation := draft.annotation

structure Draft where
  policy : HitPolicy
  aggregation : Aggregation
  inputs : List Column
  outputs : List Column
  rules : List RuleDraft
  deriving DecidableEq

def ProperlyNamed (columns : List Column) : Prop :=
  (∀ c ∈ columns, c.name ≠ "") ∧ (columns.map Column.name).Nodup

/-- The first fault in the names of columns, those before them having the names `seen`. -/
def nameFault? (side : ColumnSide) : List String → Nat → List Column → Option BuildError
  | _, _, [] => none
  | seen, position, c :: rest =>
    if c.name = "" then some (.emptyColumnName side position)
    else if c.name ∈ seen then some (.duplicateColumn side c.name)
    else nameFault? side (c.name :: seen) (position + 1) rest

theorem nameFault?_eq_none_iff_of_seen {side : ColumnSide} {seen : List String} {position : Nat}
    {columns : List Column} :
    nameFault? side seen position columns = none ↔
      ProperlyNamed columns ∧ ∀ c ∈ columns, c.name ∉ seen := by
  induction columns generalizing seen position with
  | nil => simp [nameFault?, ProperlyNamed]
  | cons c rest ih =>
    unfold nameFault?
    by_cases hEmpty : c.name = ""
    · simp [hEmpty, ProperlyNamed]
    by_cases hSeen : c.name ∈ seen
    · simp [hEmpty, hSeen]
    rw [if_neg hEmpty, if_neg hSeen, ih]
    simp only [ProperlyNamed, List.mem_cons, not_or, List.map_cons, List.nodup_cons, List.mem_map]
    constructor
    · rintro ⟨⟨hNames, hNodup⟩, hFresh⟩
      refine ⟨⟨?_, ?_, hNodup⟩, ?_⟩
      · rintro d (rfl | hd)
        · exact hEmpty
        · exact hNames d hd
      · rintro ⟨d, hd, hEq⟩
        exact (hFresh d hd).1 hEq
      · rintro d (rfl | hd)
        · exact hSeen
        · exact (hFresh d hd).2
    · rintro ⟨⟨hNames, hFirst, hNodup⟩, hFresh⟩
      refine ⟨⟨fun d hd => hNames d (.inr hd), hNodup⟩, fun d hd => ⟨?_, hFresh d (.inr hd)⟩⟩
      exact fun hEq => hFirst ⟨d, hd, hEq⟩

theorem nameFault?_eq_none_iff {side : ColumnSide} {columns : List Column} :
    nameFault? side [] 1 columns = none ↔ ProperlyNamed columns := by
  simp [nameFault?_eq_none_iff_of_seen]

def columnNamed? (columns : List Column) (name : String) : Option Column :=
  columns.find? fun c => c.name == name

/-- The positions of the derived columns, counted from 0, by their names. -/
def derivedPositions (columns : List Column) : Fields Nat :=
  .ofList ((columns.zipIdx.filter fun e => e.1.expression.isSome).map fun e => (e.1.name, e.2))

structure Table where
  policy : HitPolicy
  aggregation : Aggregation
  inputs : List Column
  outputs : List Column
  rules : List Rule
  inputs_named : ProperlyNamed inputs
  outputs_named : ProperlyNamed outputs

/-- Rules in their order, given the ids of their positions from `position` on. -/
def numberRules : Nat → List RuleDraft → List Rule
  | _, [] => []
  | position, draft :: rest => draft.toRule position :: numberRules (position + 1) rest

/-- The table of a draft, or the first fault in the names of its columns, inputs before outputs. -/
def Draft.build (draft : Draft) : Except BuildError Table :=
  match hInputs : nameFault? .input [] 1 draft.inputs with
  | some fault => .error fault
  | none =>
    match hOutputs : nameFault? .output [] 1 draft.outputs with
    | some fault => .error fault
    | none => .ok {
        policy := draft.policy
        aggregation := draft.aggregation
        inputs := draft.inputs
        outputs := draft.outputs
        rules := numberRules 1 draft.rules
        inputs_named := nameFault?_eq_none_iff.1 hInputs
        outputs_named := nameFault?_eq_none_iff.1 hOutputs }

namespace Table

/-- The expression that a column is derived by, found by the column's position. -/
def derivation? (table : Table) (column : String) : Option String :=
  ((derivedPositions table.inputs).get? column).bind fun i =>
    (table.inputs[i]?).bind Column.expression

def rule? (table : Table) (id : String) : Option Rule := table.rules.find? fun r => r.id == id

/-- The position of that rule, counted from 0. -/
def rulePosition? (table : Table) (id : String) : Option Nat :=
  table.rules.findIdx? fun r => r.id == id

/-- A one-line description. The aggregation is named where it has an effect. -/
def toText (table : Table) : String :=
  let aggregation :=
    if table.policy = .collect ∧ table.aggregation ≠ .none then " " ++ table.aggregation.name
    else ""
  "DecisionTable(" ++ table.policy.name ++ aggregation ++ ", " ++ toString table.rules.length ++
    " rules, " ++ toString table.inputs.length ++ " inputs, " ++ toString table.outputs.length ++
    " outputs)"

end Table
end DecisionTables
