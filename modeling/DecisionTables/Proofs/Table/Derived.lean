import DecisionTables.Proofs.Table.Building
import DecisionTables.Proofs.Table.Resolution
import Mathlib

/-!
# Derived columns

A table with derived columns decides as the same table without them does on a record that holds
their values already. All of these are values on the original record, so that derived columns do
not see each other, and the order of the input columns does not matter.
-/
namespace DecisionTables

def Column.underived (c : Column) : Column := { c with expression := none }

def Draft.underived (draft : Draft) : Draft :=
  { draft with inputs := draft.inputs.map Column.underived }

def derivedFacts (columns : List Column) (record : FactRecord) : Fields Value :=
  .ofList (columns.filterMap fun c =>
    (c.expression.map fun source => Column.derive source record).map fun v => (c.name, v))

def FactRecord.completed (record : FactRecord) (columns : List Column) : FactRecord :=
  record.update (derivedFacts columns record)

def Outcome.onRecord (record : FactRecord) (outcome : Outcome) : Outcome :=
  { outcome with trace := outcome.trace.map fun t => { t with record := record } }

theorem get?_completed {columns : List Column} (h : ProperlyNamed columns) (record : FactRecord)
    (name : String) :
    (record.completed columns).get? name =
      (((columnNamed? columns name).bind Column.expression).map
        fun source => Column.derive source record).or (record.get? name) := by
  rw [FactRecord.completed, Fields.get?_update, derivedFacts, get?_ofList_filterMap h,
    Option.map_bind]
  rfl

theorem columnNamed?_underived (columns : List Column) (name : String) :
    (columnNamed? (columns.map Column.underived) name).bind Column.expression = none := by
  refine Option.bind_eq_none_iff.mpr fun c hc => ?_
  obtain ⟨d, _, rfl⟩ := List.mem_map.mp (List.mem_of_find?_eq_some hc)
  rfl

theorem columnNamed?_perm {columns columns' : List Column} (h : ProperlyNamed columns)
    (hperm : columns'.Perm columns) (name : String) :
    columnNamed? columns' name = columnNamed? columns name := by
  refine Option.ext fun c => ?_
  rw [columnNamed?_eq_some_iff h, columnNamed?_eq_some_iff (h.perm hperm), hperm.mem_iff]

namespace Table

/-- Two tables that differ at most in their input columns. -/
structure SameButInputs (table other : Table) : Prop where
  policy : other.policy = table.policy
  aggregation : other.aggregation = table.aggregation
  outputs : other.outputs = table.outputs
  rules : other.rules = table.rules

namespace SameButInputs

variable {table other : Table} {record record' : FactRecord}

theorem outputsOf (h : SameButInputs table other) : other.outputsOf = table.outputsOf := by
  funext rule
  simp only [Table.outputsOf, defaults, assigned, h.outputs]

theorem resolve (h : SameButInputs table other) : other.resolve = table.resolve := by
  funext hits
  simp only [Table.resolve, outputsOrDefaults, defaults, aggregate, h.policy, h.aggregation,
    h.outputs]

/-- Matching sees the input columns only through the values that conditions are about. -/
theorem matched (h : SameButInputs table other)
    (hvalue : ∀ column, other.inputValue record' column = table.inputValue record column) :
    other.matched record' = table.matched record := by
  have hmatched : other.isMatched record' = table.isMatched record := by
    funext rule
    simp only [isMatched, hvalue]
  rw [Table.matched, Table.matched, hmatched, h.outputsOf, h.rules]

theorem outcomeOf (h : SameButInputs table other) (record record' : FactRecord)
    (options : Options) (hits : List Match) (decision : Decision) :
    table.outcomeOf record options hits decision =
      (other.outcomeOf record' options hits decision).onRecord record := by
  simp only [Table.outcomeOf, Outcome.onRecord, metadataOf, traceOf, h.policy, h.aggregation,
    h.rules]
  split_ifs <;> rfl

theorem evaluate_of_matched (h : SameButInputs table other)
    (hmatched : other.matched record' = table.matched record) (options : Options) :
    table.evaluate record options =
      (other.evaluate record' options).map (Outcome.onRecord record) := by
  apply evaluate_congr
  · rw [hmatched, h.resolve]
  · rw [hmatched]
  · intro decision
    rw [hmatched, h.outcomeOf record record']

theorem evaluate (h : SameButInputs table other)
    (hvalue : ∀ column, other.inputValue record' column = table.inputValue record column)
    (options : Options) :
    table.evaluate record options =
      (other.evaluate record' options).map (Outcome.onRecord record) :=
  h.evaluate_of_matched (h.matched hvalue) options

/-- On one record not even the traces differ. -/
theorem evaluate_eq (h : SameButInputs table other)
    (hvalue : ∀ column, other.inputValue record column = table.inputValue record column)
    (options : Options) : other.evaluate record options = table.evaluate record options := by
  have hself : SameButInputs other other := ⟨rfl, rfl, rfl, rfl⟩
  rw [h.evaluate hvalue options]
  exact hself.evaluate (fun _ => rfl) options

end SameButInputs

theorem inputValue_eq (table : Table) (record : FactRecord) (column : String) :
    table.inputValue record column =
      (((columnNamed? table.inputs column).bind Column.expression).map
        fun source => Column.derive source record).getD ((record.get? column).getD .null) := by
  rw [inputValue, derivation?_eq_bind]
  cases (columnNamed? table.inputs column).bind Column.expression <;> rfl

/-- The values that conditions are about stand in the completed record. -/
theorem inputValue_completed {table other : Table}
    (hinputs : other.inputs = table.inputs.map Column.underived) (record : FactRecord)
    (column : String) :
    other.inputValue (record.completed table.inputs) column = table.inputValue record column := by
  rw [inputValue_eq, inputValue_eq, hinputs, columnNamed?_underived,
    get?_completed table.inputs_named]
  cases (columnNamed? table.inputs column).bind Column.expression <;> rfl

end Table

/-- Deriving columns is evaluating the table without expressions on the completed record, and no
order of the input columns makes a difference. -/
theorem Draft.evaluate_eq_evaluate_completed {draft : Draft} {table : Table}
    (h : draft.build = .ok table) (record : FactRecord) (options : Options) :
    (∃ plain, draft.underived.build = .ok plain ∧
      table.evaluate record options =
        (plain.evaluate (record.completed draft.inputs) options).map (Outcome.onRecord record)) ∧
    ∀ inputs, inputs.Perm draft.inputs →
      ∃ other, { draft with inputs := inputs }.build = .ok other ∧
        other.evaluate record options = table.evaluate record options := by
  obtain ⟨hInputs, hOutputs, rfl⟩ := exists_of_build_eq_ok h
  constructor
  · have hplain : ProperlyNamed draft.underived.inputs := hInputs.map fun _ => rfl
    refine ⟨_, draft.underived.build_eq_ok hplain hOutputs, ?_⟩
    have hsame : Table.SameButInputs (draft.table hInputs hOutputs)
        (draft.underived.table hplain hOutputs) := ⟨rfl, rfl, rfl, rfl⟩
    exact hsame.evaluate (Table.inputValue_completed rfl record) options
  · intro inputs hperm
    have hother : ProperlyNamed { draft with inputs := inputs }.inputs := hInputs.perm hperm
    refine ⟨_, build_eq_ok { draft with inputs := inputs } hother hOutputs, ?_⟩
    have hsame : Table.SameButInputs (draft.table hInputs hOutputs)
        (table { draft with inputs := inputs } hother hOutputs) := ⟨rfl, rfl, rfl, rfl⟩
    refine hsame.evaluate_eq (fun column => ?_) options
    rw [Table.inputValue_eq, Table.inputValue_eq]
    exact congrArg (fun c => (Option.map _ (Option.bind c _)).getD _)
      (columnNamed?_perm hInputs hperm column)

/-- A derived column that shadows a fact, one that reads this fact, and one that has no value. -/
def chainedDraft : Draft where
  policy := .first
  aggregation := .none
  inputs := [⟨"price", .number, some "price + 1", none⟩,
    ⟨"total", .number, some "price * 2", none⟩, ⟨"share", .number, some "total / 0", none⟩]
  outputs := [⟨"tier", .string, none, some (.string "LOW")⟩]
  rules := [⟨none, [⟨"total", .gt, .scalar (.number (.ofNat 3))⟩], [("tier", .string "HIGH")],
    none, none⟩]

def pricedRecord : FactRecord := .ofList [("price", .number (.ofNat 2))]

theorem Draft.evaluate_eq_evaluate_completed_chained :
    ∃ table, chainedDraft.build = .ok table ∧
      (∃ plain, chainedDraft.underived.build = .ok plain ∧
        table.evaluate pricedRecord ⟨true, true, true⟩ =
          (plain.evaluate (pricedRecord.completed chainedDraft.inputs) ⟨true, true, true⟩).map
            (Outcome.onRecord pricedRecord)) ∧
      ∀ inputs, inputs.Perm chainedDraft.inputs →
        ∃ other, { chainedDraft with inputs := inputs }.build = .ok other ∧
          other.evaluate pricedRecord ⟨true, true, true⟩ =
            table.evaluate pricedRecord ⟨true, true, true⟩ :=
  ⟨_, rfl, evaluate_eq_evaluate_completed rfl pricedRecord ⟨true, true, true⟩⟩

/-- The total is made of the fact and not of the column that shadows it. -/
example : (pricedRecord.completed chainedDraft.inputs).entries =
    [("price", .number (.ofNat 3)), ("share", .null), ("total", .number (.ofNat 4))] := by
  decide +kernel

end DecisionTables
