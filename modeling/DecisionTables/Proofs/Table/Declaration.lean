import DecisionTables.Proofs.Table.Building
import Mathlib

/-!
# What is checked of a declaration, and what is kept

Columns are looked at in their order, those of the inputs before those of the outputs. Main
statement: a draft is built exactly if the columns of each side are properly named, and otherwise
the error is that of the first column at fault; a table that is built has all that was declared,
every rule under a name of its own or that of its position, and finds the earliest rule of an id
and exactly the derived inputs.
-/
namespace DecisionTables

/-- The column at a position, counted from 0, is at fault in its name: it has none, or one that a
column before it has. -/
inductive NameFaultAt (side : ColumnSide) (columns : List Column) (i : ℕ) : BuildError → Prop
  | empty {c : Column} (h : columns[i]? = some c) (hName : c.name = "") :
      NameFaultAt side columns i (.emptyColumnName side (i + 1))
  | duplicate {c d : Column} {j : ℕ} (h : columns[i]? = some c) (hName : c.name ≠ "")
      (hBefore : j < i) (hd : columns[j]? = some d) (hRepeated : d.name = c.name) :
      NameFaultAt side columns i (.duplicateColumn side c.name)

def FirstNameFault (side : ColumnSide) (columns : List Column) (e : BuildError) : Prop :=
  ∃ i, NameFaultAt side columns i e ∧ ∀ j < i, ∀ e', ¬ NameFaultAt side columns j e'

section Names

variable {side : ColumnSide} {columns : List Column} {i : ℕ} {e e' : BuildError}

theorem NameFaultAt.unique (h : NameFaultAt side columns i e) (h' : NameFaultAt side columns i e') :
    e = e' := by
  cases h with
  | empty hc hName =>
    cases h' with
    | empty => rfl
    | duplicate hc' hName' =>
      rw [hc, Option.some.injEq] at hc'
      exact absurd (hc' ▸ hName) hName'
  | duplicate hc hName =>
    cases h' with
    | empty hc' hName' =>
      rw [hc, Option.some.injEq] at hc'
      exact absurd (hc' ▸ hName') hName
    | duplicate hc' =>
      rw [hc, Option.some.injEq] at hc'
      rw [hc']

theorem FirstNameFault.unique (h : FirstNameFault side columns e)
    (h' : FirstNameFault side columns e') : e = e' := by
  obtain ⟨i, hi, hBefore⟩ := h
  obtain ⟨j, hj, hBefore'⟩ := h'
  rcases lt_trichotomy i j with hlt | rfl | hlt
  · exact absurd hi (hBefore' i hlt e)
  · exact hi.unique hj
  · exact absurd hj (hBefore j hlt e')

theorem ProperlyNamed.not_nameFaultAt (h : ProperlyNamed columns) :
    ¬ NameFaultAt side columns i e := by
  intro hFault
  cases hFault with
  | empty hc hName => exact h.1 _ (List.mem_of_getElem? hc) hName
  | @duplicate c d j hc _ hBefore hd hRepeated =>
    have hnames : (columns.map Column.name)[j]? = (columns.map Column.name)[i]? := by
      rw [List.getElem?_map, List.getElem?_map, hc, hd, Option.map_some, Option.map_some, hRepeated]
    have hlength : j < (columns.map Column.name).length := by
      rw [List.length_map]
      exact (List.getElem?_eq_some_iff.mp hd).1
    exact hBefore.ne ((List.getElem?_inj hlength h.2).mp hnames)

theorem mem_map_name_iff {before : List Column} (rest : List Column) {name : String} :
    name ∈ before.map Column.name ↔
      ∃ j < before.length, ∃ d, (before ++ rest)[j]? = some d ∧ d.name = name := by
  rw [List.mem_map]
  constructor
  · rintro ⟨d, hd, hname⟩
    obtain ⟨j, hj, rfl⟩ := List.getElem_of_mem hd
    exact ⟨j, hj, _, by rw [List.getElem?_append_left hj, List.getElem?_eq_getElem hj], hname⟩
  · rintro ⟨j, hj, d, hd, hname⟩
    rw [List.getElem?_append_left hj] at hd
    exact ⟨d, List.mem_of_getElem? hd, hname⟩

/-- The fault of a column is seen from its name and the names before it. -/
theorem nameFaultAt_length_iff {before rest : List Column} {c : Column} :
    NameFaultAt side (before ++ c :: rest) before.length e ↔
      c.name = "" ∧ e = .emptyColumnName side (before.length + 1) ∨
        c.name ≠ "" ∧ c.name ∈ before.map Column.name ∧ e = .duplicateColumn side c.name := by
  have hc : (before ++ c :: rest)[before.length]? = some c := by simp
  rw [mem_map_name_iff (c :: rest)]
  constructor
  · intro h
    cases h with
    | empty hc' hName =>
      rw [hc, Option.some.injEq] at hc'
      exact .inl ⟨hc' ▸ hName, rfl⟩
    | duplicate hc' hName hBefore hd hRepeated =>
      rw [hc, Option.some.injEq] at hc'
      subst hc'
      exact .inr ⟨hName, ⟨_, hBefore, _, hd, hRepeated⟩, rfl⟩
  · rintro (⟨hName, rfl⟩ | ⟨hName, ⟨j, hBefore, d, hd, hRepeated⟩, rfl⟩)
    · exact .empty hc hName
    · exact .duplicate hc hName hBefore hd hRepeated

/-- The scan stops at the first column at fault, if it was led through the columns before. -/
theorem firstNameFault_of_nameFault? (before : List Column) {rest : List Column}
    {seen : List String} (hSeen : ∀ name, name ∈ seen ↔ name ∈ before.map Column.name)
    (hBefore : ∀ j < before.length, ∀ e', ¬ NameFaultAt side (before ++ rest) j e')
    (h : nameFault? side seen (before.length + 1) rest = some e) :
    FirstNameFault side (before ++ rest) e := by
  induction rest generalizing before seen with
  | nil => cases h
  | cons c rest ih =>
    rw [nameFault?] at h
    split_ifs at h with hEmpty hRepeated
    · cases h
      exact ⟨_, nameFaultAt_length_iff.mpr (.inl ⟨hEmpty, rfl⟩), hBefore⟩
    · cases h
      have hNamed := (hSeen _).mp hRepeated
      exact ⟨_, nameFaultAt_length_iff.mpr (.inr ⟨hEmpty, hNamed, rfl⟩), hBefore⟩
    · have hHere : ∀ e', ¬ NameFaultAt side (before ++ c :: rest) before.length e' := by
        simp [nameFaultAt_length_iff, hEmpty, ← hSeen, hRepeated]
      have hSeen' : ∀ name, name ∈ c.name :: seen ↔ name ∈ (before ++ [c]).map Column.name := by
        simp [hSeen, or_comm]
      rw [List.append_cons] at hBefore hHere ⊢
      refine ih _ hSeen' (fun j hj => ?_) (by rwa [List.length_append])
      rw [List.length_append, List.length_singleton] at hj
      rcases Nat.lt_succ_iff_lt_or_eq.mp hj with hlt | rfl
      · exact hBefore j hlt
      · exact hHere

theorem nameFault?_eq_some_iff :
    nameFault? side [] 1 columns = some e ↔ FirstNameFault side columns e := by
  have hFirst : ∀ e, nameFault? side [] 1 columns = some e → FirstNameFault side columns e :=
    fun e h => firstNameFault_of_nameFault? [] (fun _ => Iff.rfl) (by simp) h
  refine ⟨hFirst e, fun h => ?_⟩
  cases hFault : nameFault? side [] 1 columns with
  | some e' => rw [(hFirst e' hFault).unique h]
  | none =>
    obtain ⟨i, hi, -⟩ := h
    exact absurd hi (nameFault?_eq_none_iff.mp hFault).not_nameFaultAt

end Names

/-- A rule has what was declared at a position, counted from 1: its own id if that is not empty, and
otherwise that of its position. -/
structure RuleDraft.Becomes (draft : RuleDraft) (position : ℕ) (rule : Rule) : Prop where
  conditions : rule.conditions = draft.conditions
  outputs : rule.outputs = draft.outputs
  priority : rule.priority = draft.priority
  annotation : rule.annotation = draft.annotation
  own_id : ∀ id, draft.id = some id → id ≠ "" → rule.id = id
  positional_id : draft.id = none ∨ draft.id = some "" → rule.id = "rule_" ++ toString position
  id_ne : rule.id ≠ ""

theorem RuleDraft.becomes_toRule (draft : RuleDraft) (position : ℕ) :
    draft.Becomes position (draft.toRule position) where
  conditions := rfl
  outputs := rfl
  priority := rfl
  annotation := rfl
  own_id id hid hne := by simp [toRule, hid, hne, Option.filter_some]
  positional_id h := by rcases h with h | h <;> simp [toRule, h, Option.filter_some]
  id_ne := by
    rw [toRule]
    cases hid : draft.id.filter (· ≠ "") with
    | none => simp [String.append_eq_empty_iff]
    | some id => simpa using (Option.filter_eq_some_iff.mp hid).2

theorem getElem?_numberRules (position i : ℕ) (drafts : List RuleDraft) :
    (numberRules position drafts)[i]? = (drafts[i]?).map (·.toRule (position + i)) := by
  induction drafts generalizing position i with
  | nil => simp [numberRules]
  | cons draft rest ih =>
    cases i with
    | zero => rfl
    | succ i =>
      rw [numberRules, List.getElem?_cons_succ, List.getElem?_cons_succ, ih,
        Nat.succ_add_eq_add_succ]

theorem Table.rule?_eq_some_iff {table : Table} {id : String} {r : Rule} :
    table.rule? id = some r ↔ ∃ i : ℕ, table.rules[i]? = some r ∧ r.id = id ∧
      ∀ j < i, ∀ r' : Rule, table.rules[j]? = some r' → r'.id ≠ id := by
  rw [rule?, List.find?_eq_some_iff_getElem]
  simp only [beq_iff_eq, Bool.not_eq_true', beq_eq_false_iff_ne, List.getElem?_eq_some_iff]
  constructor
  · rintro ⟨hid, i, hi, hr, hBefore⟩
    refine ⟨i, ⟨hi, hr⟩, hid, ?_⟩
    rintro j hj r' ⟨-, rfl⟩
    exact hBefore j hj
  · rintro ⟨i, ⟨hi, hr⟩, hid, hBefore⟩
    exact ⟨hid, i, hi, hr, fun j hj => hBefore j hj _ ⟨hj.trans hi, rfl⟩⟩

/-- A table has what was declared, its rules in their order, and finds a rule by its id and a
derived input by its name. -/
structure Draft.Becomes (draft : Draft) (table : Table) : Prop where
  policy : table.policy = draft.policy
  aggregation : table.aggregation = draft.aggregation
  inputs : table.inputs = draft.inputs
  outputs : table.outputs = draft.outputs
  rules_length : table.rules.length = draft.rules.length
  rules : ∀ (i : ℕ) (d : RuleDraft) (r : Rule), draft.rules[i]? = some d →
    table.rules[i]? = some r → d.Becomes (i + 1) r
  rule? : ∀ id r, table.rule? id = some r ↔ ∃ i : ℕ, table.rules[i]? = some r ∧ r.id = id ∧
    ∀ j < i, ∀ r' : Rule, table.rules[j]? = some r' → r'.id ≠ id
  derived : ∀ name i, (derivedPositions table.inputs).get? name = some i ↔
    ∃ c, table.inputs[i]? = some c ∧ c.name = name ∧ c.expression.isSome = true

namespace Draft

theorem length_numberRules (position : ℕ) (drafts : List RuleDraft) :
    (numberRules position drafts).length = drafts.length := by
  induction drafts generalizing position with
  | nil => rfl
  | cons draft rest ih => rw [numberRules, List.length_cons, List.length_cons, ih]

theorem becomes_table (draft : Draft) (hInputs : ProperlyNamed draft.inputs)
    (hOutputs : ProperlyNamed draft.outputs) : draft.Becomes (draft.table hInputs hOutputs) where
  policy := rfl
  aggregation := rfl
  inputs := rfl
  outputs := rfl
  rules_length := length_numberRules 1 draft.rules
  rules i d r hd hr := by
    rw [table, getElem?_numberRules, hd, Option.map_some, Option.some.injEq, Nat.add_comm] at hr
    rw [← hr]
    exact d.becomes_toRule (i + 1)
  rule? _ _ := Table.rule?_eq_some_iff
  derived _ _ := get?_derivedPositions_eq_some_iff hInputs

/-- A draft is built exactly if the columns of each side are properly named, and otherwise fails
with the first fault of the inputs, or if these have none with that of the outputs. What is built
has all that was declared. -/
theorem build_declared (draft : Draft) :
    ((∃ table, draft.build = .ok table) ↔
      ProperlyNamed draft.inputs ∧ ProperlyNamed draft.outputs) ∧
    (∀ e, draft.build = .error e ↔ FirstNameFault .input draft.inputs e ∨
      ProperlyNamed draft.inputs ∧ FirstNameFault .output draft.outputs e) ∧
    ∀ table, draft.build = .ok table → draft.Becomes table := by
  refine ⟨⟨?_, ?_⟩, fun e => ?_, ?_⟩
  · rintro ⟨table, h⟩
    obtain ⟨hInputs, hOutputs, -⟩ := exists_of_build_eq_ok h
    exact ⟨hInputs, hOutputs⟩
  · rintro ⟨hInputs, hOutputs⟩
    exact ⟨_, draft.build_eq_ok hInputs hOutputs⟩
  · rw [build_eq_error_iff, nameFault?_eq_some_iff, nameFault?_eq_some_iff,
      nameFault?_eq_none_iff]
  · intro table h
    obtain ⟨hInputs, hOutputs, rfl⟩ := exists_of_build_eq_ok h
    exact draft.becomes_table hInputs hOutputs

end Draft
end DecisionTables
