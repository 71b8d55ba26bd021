import DecisionTables.Table.Evaluation
import DecisionTables.Proofs.Table.Building
import DecisionTables.Proofs.Table.Foremost
import DecisionTables.Proofs.Text.Runs
import Mathlib

/-!
# The hit policies compared

The same columns and rules under every hit policy and aggregation. What each policy answers is
stated by the list of outputs that the rule order gives; strictness changes the answer exactly where
this list is empty.
-/
namespace DecisionTables

def Options.lenient (options : Options) : Options := { options with strict := false }

def Options.strictly (options : Options) : Options := { options with strict := true }

def Draft.under (draft : Draft) (policy : HitPolicy) (aggregation : Aggregation) : Draft :=
  { draft with policy := policy, aggregation := aggregation }

namespace Table

def under (table : Table) (policy : HitPolicy) (aggregation : Aggregation) : Table :=
  { table with policy := policy, aggregation := aggregation }

def answer (table : Table) (record : FactRecord) (options : Options) :
    Except DecisionError Decision :=
  (table.evaluate record options).map Outcome.decision

/-- What the policies answer on a record, where the rule order answers with `list`. -/
structure PoliciesAgree (table : Table) (record : FactRecord) (options : Options)
    (list : List Outputs) : Prop where
  ruleOrder : ∀ a, (table.under .ruleOrder a).answer record options.lenient = .ok (.multiple list)
  generated : list = (table.rules.filter (table.isMatched record)).map table.outputsOf
  collect : (table.under .collect .none).answer record options.lenient = .ok (.multiple list)
  first : ∀ a, (table.under .first a).answer record options.lenient =
    .ok (.single (list.headD table.defaults))
  defaults : ∀ name, table.defaults.get? name =
    (columnNamed? table.outputs name).bind Column.default
  unique : ∀ a, list.length ≤ 1 → (table.under .unique a).answer record options.lenient =
    (table.under .first a).answer record options.lenient
  unique_violated : ∀ a, 1 < list.length →
    (table.under .unique a).answer record options.lenient = .error (.severalMatched list.length)
  priority : ∀ a, ∃ outputs,
    (table.under .priority a).answer record options.lenient = .ok (.single outputs) ∧
      if list = [] then outputs = table.defaults else outputs ∈ list
  multiple : ∀ p a decision, (table.under p a).answer record options = .ok decision →
    ((∃ l, decision = .multiple l) ↔ p = .ruleOrder ∨ p = .outputOrder ∨ p = .collect ∧ a = .none)
  metadata : ∀ p a outcome, (table.under p a).evaluate record options = .ok outcome →
    outcome.metadata = if options.metadata then
      some ⟨p, a, (table.rules.filter (table.isMatched record)).map fun r => ⟨r.id, r.annotation⟩,
        list.length⟩
    else none
  strict : ∀ p a, (table.under p a).evaluate record options.strictly =
    if list = [] then .error .noneMatched else (table.under p a).evaluate record options.lenient
  lenient : ∀ p a, list = [] →
    ∃ outcome, (table.under p a).evaluate record options.lenient = .ok outcome

def unlessMissing (missing : Bool) :
    Except DecisionError Decision → Except DecisionError Decision
  | .error e => .error e
  | .ok decision => if missing then .error .noneMatched else .ok decision

variable {table : Table} {record : FactRecord} {options : Options}

theorem answer_eq_unlessMissing (table : Table) (record : FactRecord) (options : Options) :
    table.answer record options =
      unlessMissing (options.strict && (table.matched record).isEmpty)
        (table.resolve (table.matched record)) := by
  unfold answer
  cases h : table.resolve (table.matched record) with
  | error e =>
    rw [evaluate_of_error h]
    rfl
  | ok decision =>
    rw [evaluate_of_ok h, unlessMissing]
    split_ifs <;> rfl

theorem unlessMissing_false (answer : Except DecisionError Decision) :
    unlessMissing false answer = answer := by
  cases answer <;> rfl

theorem answer_of_ne_nil (h : table.matched record ≠ []) :
    table.answer record options = table.resolve (table.matched record) := by
  have hsome : (table.matched record).isEmpty = false := by simpa using h
  rw [answer_eq_unlessMissing, hsome, Bool.and_false, unlessMissing_false]

theorem answer_lenient (table : Table) (record : FactRecord) (options : Options) :
    table.answer record options.lenient = table.resolve (table.matched record) := by
  rw [answer_eq_unlessMissing]
  exact unlessMissing_false _

theorem exists_resolve_nil (table : Table) : ∃ decision, table.resolve [] = .ok decision := by
  unfold resolve
  cases table.policy with
  | collect => by_cases h : table.aggregation = .none <;> simp [h]
  | _ => exact ⟨_, rfl⟩

theorem evaluate_strictly (table : Table) (record : FactRecord) (options : Options) :
    table.evaluate record options.strictly =
      if table.matched record = [] then .error .noneMatched
      else table.evaluate record options.lenient := by
  split_ifs with hnil
  · obtain ⟨decision, hdecision⟩ := table.exists_resolve_nil
    rw [← hnil] at hdecision
    rw [evaluate_of_ok hdecision, hnil]
    rfl
  · have hsome : (table.matched record).isEmpty = false := by simpa using hnil
    cases h : table.resolve (table.matched record) with
    | error e => rw [evaluate_of_error h, evaluate_of_error h]
    | ok decision =>
      rw [evaluate_of_ok h, evaluate_of_ok h, hsome, Bool.and_false, Bool.and_false]
      rfl

/-- A successful evaluation is that of a decision, with the additions of its matches. -/
theorem exists_of_evaluate_eq_ok {outcome : Outcome}
    (h : table.evaluate record options = .ok outcome) :
    ∃ decision, table.resolve (table.matched record) = .ok decision ∧
      outcome = table.outcomeOf record options (table.matched record) decision := by
  obtain ⟨decision, hresolve, -, houtcome⟩ := evaluate_eq_ok_iff.mp h
  exact ⟨decision, hresolve, houtcome⟩

theorem resolve_of_answer_eq_ok {decision : Decision}
    (h : table.answer record options = .ok decision) :
    table.resolve (table.matched record) = .ok decision := by
  obtain ⟨_, houtcome, rfl⟩ := exists_of_map_eq_ok h
  obtain ⟨_, hresolve, rfl⟩ := exists_of_evaluate_eq_ok houtcome
  exact hresolve

theorem get?_defaults (table : Table) (name : String) :
    table.defaults.get? name = (columnNamed? table.outputs name).bind Column.default :=
  get?_ofList_filterMap table.outputs_named Column.default name

theorem outputsOrDefaults_head? (table : Table) (hits : List Match) :
    table.outputsOrDefaults hits.head? = (hits.map Match.outputs).headD table.defaults := by
  cases hits <;> rfl

theorem resolve_priority (table : Table) (a : Aggregation) (hits : List Match) :
    ∃ outputs, (table.under .priority a).resolve hits = .ok (.single outputs) ∧
      if hits.map Match.outputs = [] then outputs = table.defaults
      else outputs ∈ hits.map Match.outputs := by
  refine ⟨_, rfl, ?_⟩
  cases hits with
  | nil => rfl
  | cons first rest =>
    rw [if_neg (by simp)]
    exact List.mem_map_of_mem (firstForemost_of_foremost? rfl).mem

theorem resolve_collect {a : Aggregation} (h : a ≠ .none) (table : Table) (hits : List Match) :
    (table.under .collect a).resolve hits =
      .ok (.single ((table.under .collect a).aggregate hits)) :=
  if_neg h

theorem multiple_iff {hits : List Match} {p : HitPolicy} {a : Aggregation} {decision : Decision}
    (h : (table.under p a).resolve hits = .ok decision) :
    (∃ l, decision = .multiple l) ↔
      p = .ruleOrder ∨ p = .outputOrder ∨ p = .collect ∧ a = .none := by
  cases p with
  | unique =>
    simp only [resolve, under] at h
    split_ifs at h
    cases h
    simp
  | first => cases h; simp
  | priority => cases h; simp
  | any =>
    simp only [resolve, under] at h
    split_ifs at h
    cases h
    simp
  | collect =>
    by_cases hnone : a = .none
    · subst hnone
      cases h
      simp
    · rw [resolve_collect hnone] at h
      cases h
      simp [hnone]
  | ruleOrder => cases h; simp
  | outputOrder =>
    cases h
    exact ⟨fun _ => .inr (.inl rfl), fun _ => ⟨_, rfl⟩⟩

/-- The policies answer by the outputs of the matches in the order of the rules. -/
theorem policiesAgree (table : Table) (record : FactRecord) (options : Options) :
    table.PoliciesAgree record options ((table.matched record).map Match.outputs) where
  ruleOrder a := answer_lenient _ _ _
  generated := by
    rw [matched, List.map_map]
    rfl
  collect := answer_lenient _ _ _
  first a := by
    rw [answer_lenient, ← outputsOrDefaults_head?]
    rfl
  defaults := table.get?_defaults
  unique a hlen := by
    rw [List.length_map] at hlen
    rw [answer_lenient, answer_lenient]
    exact if_neg (Nat.not_lt.mpr hlen)
  unique_violated a hlen := by
    rw [List.length_map] at hlen ⊢
    rw [answer_lenient]
    exact if_pos hlen
  priority a := by
    rw [answer_lenient]
    exact table.resolve_priority a _
  multiple p a decision h := multiple_iff (resolve_of_answer_eq_ok h)
  metadata p a outcome h := by
    obtain ⟨decision, _, rfl⟩ := exists_of_evaluate_eq_ok h
    rw [List.length_map]
    simp only [outcomeOf, metadataOf, matched, List.map_map]
    rfl
  strict p a := by
    simp only [List.map_eq_nil_iff]
    exact evaluate_strictly _ record options
  lenient p a hnil := by
    obtain ⟨decision, hdecision⟩ := (table.under p a).exists_resolve_nil
    rw [← List.map_eq_nil_iff.mp hnil] at hdecision
    exact ⟨_, evaluate_of_ok hdecision options.lenient⟩

end Table

/-- Columns and rules that build do so under every policy, and one list of outputs says what all
policies answer. -/
theorem Draft.exists_policiesAgree {draft : Draft} {table : Table} (h : draft.build = .ok table)
    (record : FactRecord) (options : Options) :
    (∀ p a, (draft.under p a).build = .ok (table.under p a)) ∧
      ∃ list, table.PoliciesAgree record options list := by
  obtain ⟨hInputs, hOutputs, rfl⟩ := exists_of_build_eq_ok h
  exact ⟨fun p a => (draft.under p a).build_eq_ok hInputs hOutputs,
    _, Table.policiesAgree _ record options⟩

/-- A default, two rules for old customers, and one for customers without an age. -/
def tierDraft : Draft where
  policy := .first
  aggregation := .none
  inputs := [⟨"age", .number, none, none⟩]
  outputs := [⟨"tier", .string, none, some (.string "LOW")⟩, ⟨"points", .number, none, none⟩]
  rules := [⟨none, [⟨"age", .gt, .scalar (.number (.ofNat 60))⟩],
      [("tier", .string "MIDDLE"), ("points", .string "2")], some .nan, none⟩,
    ⟨some "old", [⟨"age", .gt, .scalar (.number (.ofNat 80))⟩], [("tier", .string "HIGH")],
      some (.ofNat 1), none⟩,
    ⟨none, [⟨"age", .eq, .scalar .null⟩], [], none, some "no age"⟩]

theorem Draft.exists_policiesAgree_tier :
    ∃ table, tierDraft.build = .ok table ∧
      (∀ p a, (tierDraft.under p a).build = .ok (table.under p a)) ∧
        ∃ list, table.PoliciesAgree (.ofList [("age", .number (.ofNat 90))]) ⟨true, true, true⟩
          list :=
  ⟨_, rfl, exists_policiesAgree rfl (.ofList [("age", .number (.ofNat 90))]) ⟨true, true, true⟩⟩

end DecisionTables
