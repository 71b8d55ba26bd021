import DecisionTables.Proofs.Table.Resolution
import Mathlib

/-!
# The order within rules

The conditions of a rule all have to hold, and its outputs go to columns of their own. Main
statement: in whichever order the conditions and the outputs of each rule were entered, a table
gives the same answer, if no rule assigns a column twice.
-/
namespace DecisionTables

structure Rule.Rearranges (rule rule' : Rule) : Prop where
  id : rule'.id = rule.id
  conditions : rule'.conditions.Perm rule.conditions
  outputs : rule'.outputs.Perm rule.outputs
  priority : rule'.priority = rule.priority
  annotation : rule'.annotation = rule.annotation

def Rule.bare (rule : Rule) : Rule := { rule with conditions := [], outputs := [] }

def Match.bare (m : Match) : Match := { m with rule := m.rule.bare }

theorem Rule.Rearranges.bare_eq {rule rule' : Rule} (h : rule.Rearranges rule') :
    rule'.bare = rule.bare := by
  simp only [bare, h.id, h.priority, h.annotation]

theorem unseen_bare : Unseen Match.bare := ⟨fun _ => rfl, fun _ => rfl⟩

theorem forall₂_numberRules {drafts drafts' : List RuleDraft} (position : ℕ)
    (h : List.Forall₂ (fun d d' : RuleDraft => ∀ n, (d.toRule n).Rearranges (d'.toRule n))
      drafts drafts') :
    List.Forall₂ Rule.Rearranges (numberRules position drafts) (numberRules position drafts') := by
  induction h generalizing position with
  | nil => exact .nil
  | cons hdraft _ ih => exact .cons (hdraft position) (ih (position + 1))

namespace Table

variable {table : Table} {record : FactRecord}

theorem isMatched_rearranged {rule rule' : Rule} (h : rule.Rearranges rule') :
    table.isMatched record rule' = table.isMatched record rule := by
  rw [isMatched, isMatched, Bool.eq_iff_iff, List.all_eq_true, List.all_eq_true]
  simp only [h.conditions.mem_iff]

theorem outputsOf_rearranged {rule rule' : Rule} (h : rule.Rearranges rule')
    (hdistinct : (rule.outputs.map Prod.fst).Nodup) :
    table.outputsOf rule' = table.outputsOf rule := by
  have hnames : ((rule.outputs.map fun e => (e.1, table.assigned e.1 e.2)).map Prod.fst).Nodup := by
    rwa [List.map_map]
  rw [outputsOf, outputsOf, Fields.ofList_perm (h.outputs.map _) hnames]

/-- Ids, annotations, priorities and outputs of the matches are the same. -/
theorem matched_rearranged {rules rules' : List Rule}
    (h : List.Forall₂ Rule.Rearranges rules rules')
    (hdistinct : ∀ rule ∈ rules, (rule.outputs.map Prod.fst).Nodup) :
    ((rules'.filter (table.isMatched record)).map fun rule =>
        (⟨rule, table.outputsOf rule⟩ : Match).bare) =
      (rules.filter (table.isMatched record)).map fun rule =>
        (⟨rule, table.outputsOf rule⟩ : Match).bare := by
  induction h with
  | nil => rfl
  | @cons rule rule' rest rest' hrule hrest ih =>
    obtain ⟨hfirst, hothers⟩ := List.forall_mem_cons.mp hdistinct
    have hbare : (⟨rule', table.outputsOf rule'⟩ : Match).bare =
        (⟨rule, table.outputsOf rule⟩ : Match).bare := by
      simp only [Match.bare, hrule.bare_eq, outputsOf_rearranged hrule hfirst]
    rw [List.filter_cons, List.filter_cons, isMatched_rearranged hrule]
    split
    · rw [List.map_cons, List.map_cons, hbare, ih hothers]
    · exact ih hothers

theorem outcomeOf_bare (table : Table) (record : FactRecord) (options : Options)
    (hits : List Match) (decision : Decision) :
    table.outcomeOf record options (hits.map Match.bare) decision =
      table.outcomeOf record options hits decision := by
  simp only [outcomeOf, metadataOf, traceOf, List.map_map, List.length_map]
  rfl

/-- If no rule assigns a column twice, the order within rules makes no difference. -/
theorem evaluate_rearranged (table : Table) {rules : List Rule}
    (h : List.Forall₂ Rule.Rearranges table.rules rules)
    (hdistinct : ∀ rule ∈ table.rules, (rule.outputs.map Prod.fst).Nodup) (record : FactRecord)
    (options : Options) :
    Table.evaluate { table with rules := rules } record options =
      table.evaluate record options := by
  set other : Table := { table with rules := rules }
  have hbare : (other.matched record).map Match.bare = (table.matched record).map Match.bare := by
    rw [matched, matched, List.map_map, List.map_map]
    exact matched_rearranged h hdistinct
  have hresolve : other.resolve (other.matched record) = table.resolve (table.matched record) := by
    rw [← unseen_bare.resolve_map, hbare, ← unseen_bare.resolve_map table]
    rfl
  have hempty : (other.matched record).isEmpty = (table.matched record).isEmpty := by
    simpa only [List.isEmpty_map] using congrArg List.isEmpty hbare
  have hlength : other.rules.length = table.rules.length := h.length_eq.symm
  have hsame : other.evaluate record options = (table.evaluate record options).map id := by
    apply evaluate_congr hresolve.symm hempty.symm
    intro decision
    rw [← outcomeOf_bare, hbare, ← table.outcomeOf_bare]
    simp only [outcomeOf, metadataOf, traceOf, hlength]
    rfl
  rw [hsame]
  cases table.evaluate record options <;> rfl

end Table
end DecisionTables
