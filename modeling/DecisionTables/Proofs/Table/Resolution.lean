import DecisionTables.Table.Evaluation
import Mathlib

/-!
# What a policy sees of the matches

A policy looks at the outputs and the priorities of the matches and at their order. Main statement:
matches that are changed in all else, such as their ids or their conditions, make the same decision.
Where two tables make the same decision, their answers differ only as the outcomes of it do.
-/
namespace DecisionTables

/-- A change of matches that no policy sees. -/
structure Unseen (f : Match → Match) : Prop where
  outputs : ∀ m, (f m).outputs = m.outputs
  priority : ∀ m, (f m).rule.effectivePriority = m.rule.effectivePriority

namespace Unseen
open Table

variable {f : Match → Match}

theorem foremost?_map (h : Unseen f) (hits : List Match) :
    foremost? (hits.map f) = (foremost? hits).map f := by
  have hprior : ∀ m n, prior (f m) (f n) = f (prior m n) := by
    intro m n
    simp only [prior, h.priority]
    exact (apply_ite f _ _ _).symm
  cases hits with
  | nil => rfl
  | cons first rest =>
    rw [List.map_cons, foremost?, foremost?, Option.map_some, List.foldl_map_hom hprior]

theorem allAgree_map (h : Unseen f) (hits : List Match) :
    allAgree (hits.map f) = allAgree hits := by
  cases hits with
  | nil => rfl
  | cons first rest =>
    rw [List.map_cons, allAgree, allAgree, ← List.map_cons, List.all_map]
    simp only [Function.comp_def, h.outputs]

theorem numbersAt_map (h : Unseen f) (hits : List Match) (column : String) :
    numbersAt (hits.map f) column = numbersAt hits column := by
  rw [numbersAt, List.filterMap_map]
  simp only [Function.comp_def, h.outputs]
  rfl

theorem outputsOrDefaults_map (h : Unseen f) (table : Table) (hit : Option Match) :
    table.outputsOrDefaults (hit.map f) = table.outputsOrDefaults hit := by
  cases hit with
  | none => rfl
  | some m => exact h.outputs m

theorem resolve_map (h : Unseen f) (table : Table) (hits : List Match) :
    table.resolve (hits.map f) = table.resolve hits := by
  have houtputs : (hits.map f).map Match.outputs = hits.map Match.outputs := by
    rw [List.map_map]
    exact List.map_congr_left fun m _ => h.outputs m
  have haggregate : table.aggregate (hits.map f) = table.aggregate hits := by
    simp only [aggregate, List.isEmpty_map, List.length_map, h.numbersAt_map]
  simp only [resolve, houtputs, haggregate, List.length_map, List.head?_map,
    h.outputsOrDefaults_map, h.foremost?_map, h.allAgree_map]

end Unseen

theorem Table.evaluate_congr {table other : Table} {record record' : FactRecord} {options : Options}
    {change : Outcome → Outcome}
    (hresolve : other.resolve (other.matched record') = table.resolve (table.matched record))
    (hempty : (other.matched record').isEmpty = (table.matched record).isEmpty)
    (houtcome : ∀ decision, table.outcomeOf record options (table.matched record) decision =
      change (other.outcomeOf record' options (other.matched record') decision)) :
    table.evaluate record options = (other.evaluate record' options).map change := by
  cases hanswer : table.resolve (table.matched record) with
  | error e =>
    rw [evaluate_of_error hanswer, evaluate_of_error (hresolve.trans hanswer)]
    rfl
  | ok decision =>
    rw [evaluate_of_ok hanswer, evaluate_of_ok (hresolve.trans hanswer), hempty, houtcome]
    split_ifs <;> rfl

end DecisionTables
