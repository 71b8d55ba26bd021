import DecisionTables.Proofs.Record.Lookup
import DecisionTables.Proofs.Table.Derived
import Mathlib

/-!
# The facts that a table reads

An expression depends on the facts that its names stand for, a path on the facts whose names it
leads through, and a table on the facts that its conditions are about, in one of these ways. Main
statement: two records that agree on the facts that a table reads get the same answer, whatever
else they hold.
-/
namespace DecisionTables

def Expression.names : Expression → List String
  | literal _ => []
  | fact path => [path]
  | unary _ inner => inner.names
  | binary _ left right => left.names ++ right.names

/-- A path leads through its own name and through what it has before each of its dots. -/
def LeadsThrough (path name : String) : Prop := path = name ∨ ∃ rest, path = name ++ "." ++ rest

inductive Table.Reads (table : Table) : String → Prop
  | fact {rule : Rule} {c : Condition} (hRule : rule ∈ table.rules)
      (hCondition : c ∈ rule.conditions)
      (hPlain : ∀ column ∈ table.inputs, column.name = c.column → column.expression = none) :
      Reads table c.column
  | derived {rule : Rule} {c : Condition} {column : Column} {source path name : String}
      {e : Expression} (hRule : rule ∈ table.rules) (hCondition : c ∈ rule.conditions)
      (hColumn : column ∈ table.inputs) (hName : column.name = c.column)
      (hSource : column.expression = some source) (hRead : Expression.ofText source = .ok e)
      (hPath : path ∈ e.names) (hThrough : LeadsThrough path name) : Reads table name

variable {record record' : FactRecord}

theorem Expression.evaluate_congr {e : Expression} {fact? fact?' : String → Option Value}
    (h : ∀ path ∈ e.names, fact? path = fact?' path) : e.evaluate fact? = e.evaluate fact?' := by
  induction e with
  | literal v => rfl
  | fact path =>
    have hpath := h path List.mem_cons_self
    simp only [evaluate, hpath]
  | unary op inner ih => simp only [evaluate, ih h]
  | binary op left right ihl ihr =>
    obtain ⟨hleft, hright⟩ := List.forall_mem_append.mp h
    simp only [evaluate, ihl hleft, ihr hright]

theorem FactRecord.lookup_congr {path : String}
    (h : ∀ name, LeadsThrough path name → record.get? name = record'.get? name) :
    record.lookup path = record'.lookup path := by
  have hpath := h path (.inl rfl)
  have hcuts : ∀ cut ∈ splitsAtDots path.toList,
      nested? record cut.1 cut.2 = nested? record' cut.1 cut.2 := by
    intro cut hcut
    have hlist : path.toList = cut.1 ++ '.' :: cut.2 := eq_of_mem_splitsAtDots hcut
    have hthrough : LeadsThrough path (String.ofList cut.1) := by
      refine .inr ⟨String.ofList cut.2, ?_⟩
      apply String.toList_injective
      simp [hlist]
    have hget := h _ hthrough
    simp only [nested?, hget]
  have hnested : (splitsAtDots path.toList).findSome? (fun cut => nested? record cut.1 cut.2) =
      (splitsAtDots path.toList).findSome? fun cut => nested? record' cut.1 cut.2 := by
    rw [← List.head?_filterMap, ← List.head?_filterMap, List.filterMap_congr hcuts]
  unfold lookup
  rw [hpath]
  cases record'.get? path with
  | some v => rfl
  | none => exact hnested

theorem Column.derive_congr {source : String}
    (h : ∀ e, Expression.ofText source = .ok e → ∀ path ∈ e.names, ∀ name,
      LeadsThrough path name → record.get? name = record'.get? name) :
    derive source record = derive source record' := by
  unfold derive
  cases hread : Expression.ofText source with
  | error fault => rfl
  | ok e =>
    have hevaluate : e.evaluate record.lookup = e.evaluate record'.lookup :=
      Expression.evaluate_congr fun path hpath => FactRecord.lookup_congr (h e hread path hpath)
    dsimp only
    rw [hevaluate]

namespace Table

variable {table : Table}

theorem inputValue_congr (h : ∀ name, table.Reads name → record.get? name = record'.get? name)
    {rule : Rule} {c : Condition} (hrule : rule ∈ table.rules) (hc : c ∈ rule.conditions) :
    table.inputValue record c.column = table.inputValue record' c.column := by
  rw [inputValue_eq, inputValue_eq]
  cases hexpression : (columnNamed? table.inputs c.column).bind Column.expression with
  | none =>
    have hplain : ∀ column ∈ table.inputs, column.name = c.column → column.expression = none := by
      intro column hcolumn hname
      have hnamed := (columnNamed?_eq_some_iff table.inputs_named).mpr ⟨hcolumn, hname⟩
      rw [hnamed] at hexpression
      exact hexpression
    have hget := h c.column (.fact hrule hc hplain)
    simp only [Option.map_none, Option.getD_none, hget]
  | some source =>
    obtain ⟨column, hnamed, hsource⟩ := Option.bind_eq_some_iff.mp hexpression
    obtain ⟨hcolumn, hname⟩ := (columnNamed?_eq_some_iff table.inputs_named).mp hnamed
    have hderive : Column.derive source record = Column.derive source record' := by
      apply Column.derive_congr
      intro e hread path hpath name hthrough
      exact h name (.derived hrule hc hcolumn hname hsource hread hpath hthrough)
    simp only [Option.map_some, Option.getD_some, hderive]

theorem matched_congr (h : ∀ name, table.Reads name → record.get? name = record'.get? name) :
    table.matched record = table.matched record' := by
  have hmatched : ∀ rule ∈ table.rules,
      table.isMatched record rule = table.isMatched record' rule := by
    intro rule hrule
    rw [Bool.eq_iff_iff, isMatched, isMatched, List.all_eq_true, List.all_eq_true]
    apply forall₂_congr
    intro c hc
    rw [inputValue_congr h hrule hc]
  rw [matched, matched, List.filter_congr hmatched]

/-- Records that agree on the facts that a table reads get the same error or the same decision and
additions, but for the record in the trace. -/
theorem evaluate_eq_of_reads (h : ∀ name, table.Reads name → record.get? name = record'.get? name)
    (options : Options) :
    table.evaluate record options =
      (table.evaluate record' options).map (Outcome.onRecord record) := by
  have hsame : SameButInputs table table := ⟨rfl, rfl, rfl, rfl⟩
  exact hsame.evaluate_of_matched (matched_congr h).symm options

theorem eq_price_of_reads_chained {name : String} (htable : chainedDraft.build = .ok table)
    (h : table.Reads name) : name = "price" := by
  obtain ⟨hInputs, hOutputs, rfl⟩ := Draft.exists_of_build_eq_ok htable
  have honly : ∀ rule ∈ (chainedDraft.table hInputs hOutputs).rules, ∀ c ∈ rule.conditions,
      c.column = "total" := by
    simp [Draft.table, chainedDraft, numberRules, RuleDraft.toRule]
  have htotal : (⟨"total", .number, some "price * 2", none⟩ : Column) ∈
      (chainedDraft.table hInputs hOutputs).inputs := by
    simp [Draft.table, chainedDraft]
  cases h with
  | @fact rule c hrule hc hplain =>
    have hnone := hplain _ htotal (honly rule hrule c hc).symm
    cases hnone
  | @derived rule c column source path _ e hrule hc hcolumn hname hsource hread hpath hthrough =>
    obtain rfl := ProperlyNamed.eq_of_name hInputs hcolumn htotal
      (hname.trans (honly rule hrule c hc))
    cases hsource
    have hexpression : Expression.ofText "price * 2" =
        .ok (.binary .multiply (.fact "price") (.literal (.number (.ofNat 2)))) := by decide +kernel
    rw [hexpression] at hread
    cases hread
    obtain rfl : path = "price" := List.mem_singleton.mp hpath
    rcases hthrough with heq | ⟨rest, heq⟩
    · exact heq.symm
    · have hdot := congrArg (fun s => '.' ∈ s.toList) heq
      simp at hdot

/-- Only the price is read: a fact that has the name of the derived total is not. -/
theorem evaluate_eq_of_reads_price :
    ∃ table, chainedDraft.build = .ok table ∧
      (∀ name, table.Reads name → pricedRecord.get? name =
        (pricedRecord.insert "total" (.number (.ofNat 9))).get? name) ∧
      table.evaluate pricedRecord ⟨true, true, true⟩ =
        (table.evaluate (pricedRecord.insert "total" (.number (.ofNat 9))) ⟨true, true, true⟩).map
          (Outcome.onRecord pricedRecord) := by
  obtain ⟨table, htable⟩ : ∃ table, chainedDraft.build = .ok table := ⟨_, rfl⟩
  have hagree : ∀ name, table.Reads name → pricedRecord.get? name =
      (pricedRecord.insert "total" (.number (.ofNat 9))).get? name := by
    intro name hreads
    rw [Fields.get?_insert, eq_price_of_reads_chained htable hreads]
    rfl
  exact ⟨table, htable, hagree, evaluate_eq_of_reads hagree ⟨true, true, true⟩⟩

end Table
end DecisionTables
