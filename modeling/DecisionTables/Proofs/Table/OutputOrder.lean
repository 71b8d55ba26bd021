import DecisionTables.Proofs.Table.Reordering
import DecisionTables.Proofs.Text.ByteOrder

/-!
# The output order

A table that orders its outputs gives those of the rule order, sorted by the bytes of their JSON
texts. The sort is stable: outputs of one text, which may still be different outputs, stand as the
rules do.
-/
namespace DecisionTables
open Text

/-- A list sorted by the bytes of its keys, in which items of one key stand as they stood before. -/
structure StableSort {α : Type} (key : α → String) (list sorted : List α) : Prop where
  perm : sorted.Perm list
  ordered : InByteOrder (sorted.map key)
  stable : ∀ text, sorted.filter (key · == text) = list.filter (key · == text)

namespace Table

/-- Outputs of one key are a sorted part of the list, and such a part survives the sorting. -/
theorem filter_mergeSort (list : List Outputs) (text : String) :
    (list.mergeSort before).filter (sortKey · == text) = list.filter (sortKey · == text) := by
  have hkey : ∀ a ∈ list.filter (sortKey · == text), sortKey a = text := by
    intro a ha
    exact beq_iff_eq.mp (List.mem_filter.mp ha).2
  have hordered : (list.filter (sortKey · == text)).Pairwise fun a b => before a b = true := by
    refine List.pairwise_of_forall_mem_list fun a ha b hb => ?_
    rw [before_iff, hkey a ha, hkey b hb]
  have hpart := List.sublist_mergeSort before_trans before_total hordered List.filter_sublist
  have hsub := hpart.filter (sortKey · == text)
  have hlength := ((List.mergeSort_perm list before).filter (sortKey · == text)).length_eq
  simp only [List.filter_filter, Bool.and_self] at hsub
  exact (hsub.eq_of_length hlength.symm).symm

theorem stableSort_mergeSort (list : List Outputs) :
    StableSort sortKey list (list.mergeSort before) where
  perm := List.mergeSort_perm list before
  ordered := inByteOrder_iff.mpr (sortKey_sorted list)
  stable := filter_mergeSort list

end Table

/-- Columns and rules that build give one list of outputs under the rule order, and a stable sort
of this list under the output order. Either is missing only if it is empty and strictness asks for
a match. -/
theorem Draft.exists_stableSort {draft : Draft} {table : Table} (h : draft.build = .ok table)
    (a b : Aggregation) (record : FactRecord) (options : Options) :
    ∃ byRule byOutput list sorted, (draft.under .ruleOrder a).build = .ok byRule ∧
      (draft.under .outputOrder b).build = .ok byOutput ∧
      byRule.answer record options =
        Table.unlessMissing (options.strict && list.isEmpty) (.ok (.multiple list)) ∧
      byOutput.answer record options =
        Table.unlessMissing (options.strict && list.isEmpty) (.ok (.multiple sorted)) ∧
      StableSort Table.sortKey list sorted := by
  obtain ⟨hInputs, hOutputs, rfl⟩ := exists_of_build_eq_ok h
  set table := draft.table hInputs hOutputs
  refine ⟨_, _, (table.matched record).map Match.outputs, _,
    build_eq_ok (draft.under .ruleOrder a) hInputs hOutputs,
    build_eq_ok (draft.under .outputOrder b) hInputs hOutputs, ?_, ?_,
    Table.stableSort_mergeSort _⟩
  · rw [Table.answer_eq_unlessMissing, List.isEmpty_map]
    rfl
  · rw [Table.answer_eq_unlessMissing, Table.resolve_outputOrder rfl, List.isEmpty_map]
    rfl

/-- Three rules, of which the first and the last give different outputs of one text. -/
def tiedDraft : Draft where
  policy := .outputOrder
  aggregation := .none
  inputs := []
  outputs := [⟨"score", .string, none, none⟩]
  rules := [⟨none, [], [("score", .number .nan)], none, none⟩,
    ⟨none, [], [("score", .bool true)], none, none⟩,
    ⟨none, [], [("score", .null)], none, none⟩]

theorem Draft.exists_stableSort_tied :
    ∃ table, tiedDraft.build = .ok table ∧
      ∃ byRule byOutput list sorted, (tiedDraft.under .ruleOrder .none).build = .ok byRule ∧
        (tiedDraft.under .outputOrder .sum).build = .ok byOutput ∧
        byRule.answer .empty ⟨true, true, false⟩ =
          Table.unlessMissing (true && list.isEmpty) (.ok (.multiple list)) ∧
        byOutput.answer .empty ⟨true, true, false⟩ =
          Table.unlessMissing (true && list.isEmpty) (.ok (.multiple sorted)) ∧
        StableSort Table.sortKey list sorted :=
  ⟨_, rfl, exists_stableSort rfl .none .sum .empty ⟨true, true, false⟩⟩

end DecisionTables
