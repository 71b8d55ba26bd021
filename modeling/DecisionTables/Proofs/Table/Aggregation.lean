import DecisionTables.Proofs.Table.Reordering
import Mathlib

/-!
# Aggregated outputs

What a table that collects makes of its list of outputs. Main statement: columns and rules that
build collect one list without an aggregation, and each aggregation gives one map by this list: the
number of its entries, or for each number column at which a number stands the sum, the least or the
greatest of the numbers there. All else in the list makes no difference.
-/
namespace DecisionTables

def IsNumberColumn (columns : List Column) (name : String) : Prop :=
  ∃ c ∈ columns, c.name = name ∧ c.type = .number

def numbersIn (list : List Outputs) (name : String) : List Number :=
  list.filterMap fun outputs =>
    match outputs.get? name with
    | some (.number x) => some x
    | _ => none

def Combines (f : Number → Number → Number) (xs : List Number) (v : Value) : Prop :=
  ∃ first rest, xs = first :: rest ∧ v = .number (rest.foldl f first)

def IsExtremeValue (bounds : Number → Number → Bool) (xs : List Number) (v : Value) : Prop :=
  ∃ x, v = .number x ∧ Number.IsExtreme bounds xs x

structure Aggregated (columns : List Column) (aggregation : Aggregation) (list : List Outputs)
    (outputs : Outputs) : Prop where
  empty : list = [] → outputs = .empty
  count : aggregation = .count → list ≠ [] →
    outputs.entries = [("count", .number (.ofNat list.length))]
  names : aggregation ∈ [.sum, .min, .max] → ∀ name, outputs.contains name = true ↔
    IsNumberColumn columns name ∧ ∃ o ∈ list, ∃ x, o.get? name = some (.number x)
  sum : aggregation = .sum → ∀ name v, outputs.get? name = some v →
    Combines Number.add (numbersIn list name) v
  min : aggregation = .min → ∀ name v, outputs.get? name = some v →
    Combines Number.lesser (numbersIn list name) v ∧
      IsExtremeValue Number.atMost (numbersIn list name) v
  max : aggregation = .max → ∀ name v, outputs.get? name = some v →
    Combines Number.greater (numbersIn list name) v ∧
      IsExtremeValue (fun x y => y.atMost x) (numbersIn list name) v

theorem Combines.isExtremeValue {f : Number → Number → Number} {bounds : Number → Number → Bool}
    (hf : ∀ first rest, Number.IsExtreme bounds (first :: rest) (rest.foldl f first))
    {xs : List Number} {v : Value} (h : Combines f xs v) : IsExtremeValue bounds xs v := by
  obtain ⟨first, rest, rfl, rfl⟩ := h
  exact ⟨_, rfl, hf first rest⟩

theorem mem_numbersIn {list : List Outputs} {name : String} {x : Number} :
    x ∈ numbersIn list name ↔ ∃ o ∈ list, o.get? name = some (.number x) := by
  rw [numbersIn, List.mem_filterMap]
  refine exists_congr fun o => and_congr_right fun _ => ?_
  split <;> simp_all

theorem exists_combines_iff {f : Number → Number → Number} {list : List Outputs} {name : String} :
    (∃ v, Combines f (numbersIn list name) v) ↔
      ∃ o ∈ list, ∃ x, o.get? name = some (.number x) := by
  constructor
  · rintro ⟨v, first, rest, hxs, -⟩
    obtain ⟨o, ho, hx⟩ := mem_numbersIn.mp (hxs ▸ List.mem_cons_self)
    exact ⟨o, ho, first, hx⟩
  · rintro ⟨o, ho, x, hx⟩
    obtain ⟨first, rest, hxs⟩ := List.exists_cons_of_ne_nil
      (List.ne_nil_of_mem (mem_numbersIn.mpr ⟨o, ho, hx⟩))
    exact ⟨_, first, rest, hxs, rfl⟩

namespace Table

theorem numbersAt_eq (hits : List Match) (name : String) :
    numbersAt hits name = numbersIn (hits.map Match.outputs) name := by
  rw [numbersIn, List.filterMap_map]
  rfl

theorem exists_combiner {a : Aggregation} (h : a ∈ [.sum, .min, .max]) :
    ∃ f, combiner? a = some f := by
  fin_cases h <;> exact ⟨_, rfl⟩

theorem map_reduce_eq_some_iff {f : Number → Number → Number} {xs : List Number} {v : Value} :
    (reduce f xs).map Value.number = some v ↔ Combines f xs v := by
  cases xs with
  | nil => simp [reduce, Combines]
  | cons first rest => simp [reduce, Combines, eq_comm]

section Aggregate

variable {table : Table}

/-- A column has a value exactly if it is a number column with numbers to combine. -/
theorem get?_aggregate_eq_some_iff {f : Number → Number → Number}
    (hf : combiner? table.aggregation = some f) {hits : List Match} {name : String} {v : Value} :
    (table.aggregate hits).get? name = some v ↔
      IsNumberColumn table.outputs name ∧ Combines f (numbersIn (hits.map Match.outputs) name) v := by
  have hcount : table.aggregation ≠ .count := by
    intro h
    rw [h] at hf
    cases hf
  simp only [get?_aggregate hcount, Option.bind_eq_some_iff,
    columnNamed?_eq_some_iff table.outputs_named, reduced?, hf, Option.bind_some, numbersAt_eq]
  constructor
  · rintro ⟨c, ⟨hc, rfl⟩, hv⟩
    split_ifs at hv with htype
    exact ⟨⟨c, hc, rfl, htype⟩, map_reduce_eq_some_iff.mp hv⟩
  · rintro ⟨⟨c, hc, rfl, htype⟩, hv⟩
    refine ⟨c, ⟨hc, rfl⟩, ?_⟩
    rw [if_pos htype]
    exact map_reduce_eq_some_iff.mpr hv

theorem contains_aggregate_iff {f : Number → Number → Number}
    (hf : combiner? table.aggregation = some f) {hits : List Match} {name : String} :
    (table.aggregate hits).contains name = true ↔ IsNumberColumn table.outputs name ∧
      ∃ o ∈ hits.map Match.outputs, ∃ x, o.get? name = some (.number x) := by
  simp only [Fields.contains, Option.isSome_iff_exists, get?_aggregate_eq_some_iff hf,
    exists_and_left, exists_combines_iff]

theorem aggregated_aggregate (table : Table) (hits : List Match) :
    Aggregated table.outputs table.aggregation (hits.map Match.outputs) (table.aggregate hits) where
  empty hnil := by
    rw [List.map_eq_nil_iff.mp hnil]
    rfl
  count hcount hne := by
    have hsome : hits.isEmpty = false := by simpa using hne
    rw [aggregate, hsome, if_neg Bool.false_ne_true, if_pos hcount, List.length_map]
    rfl
  names hreduced name := by
    obtain ⟨f, hf⟩ := exists_combiner hreduced
    exact contains_aggregate_iff hf
  sum hsum name v hv := (get?_aggregate_eq_some_iff (by rw [hsum]; rfl)).mp hv |>.2
  min hmin name v hv := by
    have hv := ((get?_aggregate_eq_some_iff (by rw [hmin]; rfl)).mp hv).2
    exact ⟨hv, hv.isExtremeValue Number.isExtreme_lesser⟩
  max hmax name v hv := by
    have hv := ((get?_aggregate_eq_some_iff (by rw [hmax]; rfl)).mp hv).2
    exact ⟨hv, hv.isExtremeValue Number.isExtreme_greater⟩

end Aggregate
end Table

/-- Columns and rules that build collect one list of outputs, and every aggregation of it says in
one map what the list says. Both are missing only if the list is empty and strictness asks for a
match. -/
theorem Draft.exists_aggregated {draft : Draft} {table : Table} (h : draft.build = .ok table)
    (record : FactRecord) (options : Options) :
    (∀ a, (draft.under .collect a).build = .ok (table.under .collect a)) ∧
      ∃ list, (table.under .collect .none).answer record options =
          Table.unlessMissing (options.strict && list.isEmpty) (.ok (.multiple list)) ∧
        ∀ a, a ≠ .none → ∃ outputs, (table.under .collect a).answer record options =
            Table.unlessMissing (options.strict && list.isEmpty) (.ok (.single outputs)) ∧
          Aggregated draft.outputs a list outputs := by
  obtain ⟨hInputs, hOutputs, rfl⟩ := exists_of_build_eq_ok h
  refine ⟨fun a => (draft.under .collect a).build_eq_ok hInputs hOutputs,
    ((draft.table hInputs hOutputs).matched record).map Match.outputs, ?_, fun a ha => ⟨_, ?_,
      Table.aggregated_aggregate ((draft.table hInputs hOutputs).under .collect a) _⟩⟩
  · rw [Table.answer_eq_unlessMissing, List.isEmpty_map]
    rfl
  · rw [Table.answer_eq_unlessMissing, List.isEmpty_map, Table.resolve_collect ha]
    rfl

/-- Points of which one is read from a string, one is not-a-number and one is the default, a bonus
that is no number, and a column that is not declared. -/
def pointsDraft : Draft where
  policy := .collect
  aggregation := .none
  inputs := []
  outputs := [⟨"points", .number, none, some (.number (.ofNat 3))⟩, ⟨"bonus", .number, none, none⟩]
  rules := [⟨none, [], [("points", .string " 5 "), ("bonus", .string "none")], none, none⟩,
    ⟨none, [], [("points", .number .nan)], none, none⟩,
    ⟨none, [], [("extra", .number (.ofNat 7))], none, none⟩]

theorem Draft.exists_aggregated_points :
    ∃ table, pointsDraft.build = .ok table ∧
      (∀ a, (pointsDraft.under .collect a).build = .ok (table.under .collect a)) ∧
        ∃ list, (table.under .collect .none).answer .empty ⟨true, false, false⟩ =
            Table.unlessMissing (true && list.isEmpty) (.ok (.multiple list)) ∧
          ∀ a, a ≠ .none → ∃ outputs,
            (table.under .collect a).answer .empty ⟨true, false, false⟩ =
                Table.unlessMissing (true && list.isEmpty) (.ok (.single outputs)) ∧
              Aggregated pointsDraft.outputs a list outputs :=
  ⟨_, rfl, exists_aggregated rfl .empty ⟨true, false, false⟩⟩

example : (pointsDraft.under .collect .min).build.map (fun table =>
      table.answer .empty .default) =
    .ok (.ok (.single (.ofList [("points", .number (.ofNat 3))]))) := by
  decide +kernel

end DecisionTables
