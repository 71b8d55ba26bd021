import DecisionTables.Proofs.Table.Policies
import Mathlib

/-!
# Generated outputs

What a matching rule gives for each column. Main statement: the outputs of a rule stand under the
columns that it assigns and those that have a default. At an assigned column the last assignment
counts, in the type of the column if it is declared, and no default comes before it; at the other
columns the default stands as it is declared.
-/
namespace DecisionTables

namespace ColumnType

def Holds : ColumnType → Value → Prop
  | string, _ => True
  | number, v => v = .null ∨ ∃ x, v = .number x
  | boolean, v => ∃ b, v = .bool b
  | date, v => v = .null ∨ ∃ instant, v = .date instant

theorem null_or_exists_of_getD {α : Type} (f : α → Value) (reading : Option α) :
    (reading.map f).getD .null = .null ∨ ∃ a, (reading.map f).getD .null = f a := by
  cases reading with
  | none => exact .inl rfl
  | some a => exact .inr ⟨a, rfl⟩

theorem holds_coerceToNumber (v : Value) : number.Holds (coerceToNumber v) := by
  cases v with
  | string text =>
    rw [coerceToNumber]
    split
    · exact .inr ⟨_, rfl⟩
    · exact null_or_exists_of_getD Value.number _
  | null => exact .inl rfl
  | _ => exact .inr ⟨_, rfl⟩

theorem holds_coerceToBool (v : Value) : boolean.Holds (coerceToBool v) := by
  cases v <;> exact ⟨_, rfl⟩

theorem holds_coerceToDate (v : Value) : date.Holds (coerceToDate v) := by
  cases v with
  | date instant => exact .inr ⟨instant, rfl⟩
  | string text => exact null_or_exists_of_getD Value.date _
  | number x =>
    cases x with
    | finite x => exact null_or_exists_of_getD Value.date _
    | _ => exact .inl rfl
  | _ => exact .inl rfl

theorem holds_coerce (type : ColumnType) (v : Value) : type.Holds (type.coerce v) := by
  cases type with
  | string => trivial
  | number => exact holds_coerceToNumber v
  | boolean => exact holds_coerceToBool v
  | date => exact holds_coerceToDate v

theorem coerce_of_holds {type : ColumnType} {v : Value} (h : type.Holds v) : type.coerce v = v := by
  cases type with
  | string => rfl
  | number => rcases h with rfl | ⟨x, rfl⟩ <;> rfl
  | boolean =>
    obtain ⟨b, rfl⟩ := h
    rfl
  | date => rcases h with rfl | ⟨instant, rfl⟩ <;> rfl

end ColumnType

def LastAssigned (assignments : List (String × Value)) (column : String) (v : Value) : Prop :=
  ∃ before after, assignments = before ++ (column, v) :: after ∧ column ∉ after.map Prod.fst

/-- The outputs that assignments make in a table of the given output columns. An assigned value
stays whatever it turned into, whether the column has a default or not. -/
structure GeneratedBy (columns : List Column) (assignments : List (String × Value))
    (outputs : Outputs) : Prop where
  names : ∀ name, outputs.contains name = true ↔ name ∈ assignments.map Prod.fst ∨
    ∃ c ∈ columns, c.name = name ∧ c.default.isSome = true
  undeclared : ∀ name v, LastAssigned assignments name v → (∀ c ∈ columns, c.name ≠ name) →
    outputs.get? name = some v
  declared : ∀ c ∈ columns, ∀ v, LastAssigned assignments c.name v →
    outputs.get? c.name = some (c.type.coerce v)
  typed : ∀ c ∈ columns, c.name ∈ assignments.map Prod.fst →
    ∃ v, outputs.get? c.name = some v ∧ c.type.Holds v ∧ c.type.coerce v = v
  defaulted : ∀ c ∈ columns, c.name ∉ assignments.map Prod.fst →
    outputs.get? c.name = c.default

namespace Table

theorem assigned_of_declared {table : Table} {c : Column} (hc : c ∈ table.outputs) (v : Value) :
    table.assigned c.name v = c.type.coerce v := by
  rw [assigned, (columnNamed?_eq_some_iff table.outputs_named).mpr ⟨hc, rfl⟩]

theorem assigned_of_undeclared {table : Table} {name : String}
    (h : ∀ c ∈ table.outputs, c.name ≠ name) (v : Value) : table.assigned name v = v := by
  have hnone : columnNamed? table.outputs name = none :=
    List.find?_eq_none.mpr fun c hc => by simpa using h c hc
  rw [assigned, hnone]

theorem isSome_default_iff {table : Table} {name : String} :
    ((columnNamed? table.outputs name).bind Column.default).isSome = true ↔
      ∃ c ∈ table.outputs, c.name = name ∧ c.default.isSome = true := by
  simp only [Option.isSome_iff_exists, Option.bind_eq_some_iff,
    columnNamed?_eq_some_iff table.outputs_named]
  constructor
  · rintro ⟨v, c, ⟨hc, hname⟩, hv⟩
    exact ⟨c, hc, hname, v, hv⟩
  · rintro ⟨c, hc, hname, v, hv⟩
    exact ⟨v, c, ⟨hc, hname⟩, hv⟩

/-- The last assignment to a column counts, and where there is none its default. -/
theorem get?_outputsOf (table : Table) (rule : Rule) (name : String) :
    (table.outputsOf rule).get? name =
      ((rule.outputs.reverse.lookup name).map (table.assigned name)).or
        ((columnNamed? table.outputs name).bind Column.default) := by
  rw [outputsOf, Fields.get?_update, Fields.get?_ofList_eq_lookup_reverse, ← List.map_reverse,
    Fields.lookup_map, get?_defaults]

theorem get?_outputsOf_of_lastAssigned {table : Table} {rule : Rule} {name : String} {v : Value}
    (h : LastAssigned rule.outputs name v) :
    (table.outputsOf rule).get? name = some (table.assigned name v) := by
  rw [get?_outputsOf, Fields.lookup_reverse_eq_some_iff.mpr h]
  rfl

theorem get?_outputsOf_of_notMem {table : Table} {rule : Rule} {name : String}
    (h : name ∉ rule.outputs.map Prod.fst) :
    (table.outputsOf rule).get? name = (columnNamed? table.outputs name).bind Column.default := by
  have hnone : rule.outputs.reverse.lookup name = none := by
    refine Option.eq_none_iff_forall_ne_some.mpr fun v hv => h ?_
    obtain ⟨before, after, heq, -⟩ := Fields.lookup_reverse_eq_some_iff.mp hv
    simp [heq]
  rw [get?_outputsOf, hnone]
  rfl

theorem exists_lastAssigned {assignments : List (String × Value)} {name : String}
    (h : name ∈ assignments.map Prod.fst) : ∃ v, LastAssigned assignments name v := by
  obtain ⟨e, he, rfl⟩ := List.mem_map.mp h
  obtain ⟨v, hv⟩ : ∃ v, assignments.reverse.lookup e.1 = some v := by
    refine Option.ne_none_iff_exists'.mp fun hnone => ?_
    simpa using List.lookup_eq_none_iff.mp hnone e (List.mem_reverse.mpr he)
  exact ⟨v, Fields.lookup_reverse_eq_some_iff.mp hv⟩

/-- A table generates the outputs of a rule from the assignments of the rule and its own output
columns. -/
theorem generatedBy_outputsOf (table : Table) (rule : Rule) :
    GeneratedBy table.outputs rule.outputs (table.outputsOf rule) where
  names name := by
    rw [Fields.contains]
    by_cases hname : name ∈ rule.outputs.map Prod.fst
    · obtain ⟨v, hv⟩ := exists_lastAssigned hname
      simp [get?_outputsOf_of_lastAssigned hv, hname]
    · rw [get?_outputsOf_of_notMem hname, isSome_default_iff, or_iff_right hname]
  undeclared name v hv hundeclared := by
    rw [get?_outputsOf_of_lastAssigned hv, assigned_of_undeclared hundeclared]
  declared c hc v hv := by
    rw [get?_outputsOf_of_lastAssigned hv, assigned_of_declared hc]
  typed c hc hname := by
    obtain ⟨v, hv⟩ := exists_lastAssigned hname
    have hholds := c.type.holds_coerce v
    refine ⟨c.type.coerce v, ?_, hholds, ColumnType.coerce_of_holds hholds⟩
    rw [get?_outputsOf_of_lastAssigned hv, assigned_of_declared hc]
  defaulted c hc hname := by
    rw [get?_outputsOf_of_notMem hname, (columnNamed?_eq_some_iff table.outputs_named).mpr ⟨hc, rfl⟩]
    rfl

end Table
end DecisionTables
