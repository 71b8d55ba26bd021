import DecisionTables.Config.Build
import DecisionTables.Table.Steps
import DecisionTables.Proofs.Table.Building
import DecisionTables.Proofs.Table.Rearrangement
import DecisionTables.Proofs.Text.Runs
import Mathlib

/-!
# Configurations entered step by step

What a configuration says can also be entered by single steps, the conditions and outputs of each
rule in any order. Main statement: the table that is entered in this way answers as the table that
the configuration builds, whether the payloads are objects or texts of these objects.
-/
namespace DecisionTables

/-- A payload holds an object, inline or as the text of it. -/
inductive Payload.Holds : Payload → Fields Json → Prop
  | inline (members : Fields Json) : Holds (.object members) members
  | written {t : String} {members : List (String × Json)}
      (h : Json.ofText t = .ok (.object members)) : Holds (.text t) (.ofList members)

namespace Payload

variable {payload : Payload} {members members' : Fields Json}

theorem object?_eq_ok_iff : payload.object? = .ok members ↔ payload.Holds members := by
  constructor
  · intro h
    cases payload with
    | object members' =>
      cases h
      exact .inline members
    | text t =>
      rw [object?] at h
      split at h
      case h_1 => cases h
      case h_2 entries hread =>
        cases h
        exact .written hread
      case h_3 => cases h
  · intro h
    cases h with
    | inline => rfl
    | written hread => rw [object?, hread]

theorem Holds.eq (h : payload.Holds members) (h' : payload.Holds members') : members = members' :=
  Except.ok.inj ((object?_eq_ok_iff.mpr h).symm.trans (object?_eq_ok_iff.mpr h'))

theorem holds_of_scalars? (h : payload.scalars? = .ok members) : payload.Holds members := by
  obtain ⟨members', hobject, h⟩ := exists_of_bind_eq_ok h
  split at h
  case h_1 => cases h
  case h_2 =>
    cases h
    exact object?_eq_ok_iff.mp hobject

end Payload

namespace ColumnConfig

def HasType (c : ColumnConfig) (type : ColumnType) : Prop :=
  match c.type with
  | none => type = .string
  | some name => ColumnType.ofName? name = some type

structure IsColumn (c : ColumnConfig) (expression : Option String) (default : Option Value)
    (column : Column) : Prop where
  name : column.name = c.name
  type : c.HasType column.type
  expression : column.expression = expression
  default : column.default = default

/-- An input column is derived if its expression is not blank. -/
def IsInput (c : ColumnConfig) : Column → Prop :=
  c.IsColumn (c.expression.filter fun e => !Text.isBlank e.toList) none

def IsOutput (c : ColumnConfig) : Column → Prop := c.IsColumn none (c.default.map Value.ofJson)

variable {c : ColumnConfig} {column : Column}

theorem columnType_eq_ok_iff {type : ColumnType} : c.columnType = .ok type ↔ c.HasType type := by
  obtain ⟨_, typeName, _, _⟩ := c
  cases typeName with
  | none =>
    simp only [columnType, HasType, Except.ok.injEq]
    exact eq_comm
  | some name =>
    simp only [columnType, HasType]
    cases ColumnType.ofName? name <;> simp

theorem typed_eq_ok_iff {expression : Option String} {default : Option Value} :
    (c.columnType >>= fun type => .ok ⟨c.name, type, expression, default⟩) = .ok column ↔
      c.IsColumn expression default column := by
  constructor
  · intro h
    obtain ⟨type, htype, h⟩ := exists_of_bind_eq_ok h
    cases h
    exact ⟨rfl, columnType_eq_ok_iff.mp htype, rfl, rfl⟩
  · rintro ⟨hname, htype, rfl, rfl⟩
    rw [columnType_eq_ok_iff.mpr htype, ← hname]
    rfl

theorem input_eq_ok_iff : c.input = .ok column ↔ c.IsInput column := typed_eq_ok_iff

theorem output_eq_ok_iff : c.output = .ok column ↔ c.IsOutput column := typed_eq_ok_iff

end ColumnConfig

theorem columnsOf_eq_ok_iff {column : ColumnConfig → Except BuildError Column}
    {configs : List ColumnConfig} {columns : List Column} :
    columnsOf column configs = .ok columns ↔
      List.Forall₂ (fun c d => column c = .ok d) configs columns := by
  constructor
  · intro h
    induction configs generalizing columns with
    | nil =>
      cases h
      exact .nil
    | cons c rest ih =>
      obtain ⟨d, hd, h⟩ := exists_of_bind_eq_ok h
      obtain ⟨ds, hds, h⟩ := exists_of_bind_eq_ok h
      cases h
      exact .cons hd (ih hds)
  · intro h
    induction h with
    | nil => rfl
    | cons hd _ ih =>
      rw [columnsOf, hd, ih]
      rfl

theorem getLast?_of_perm_toList {α : Type} {list : List α} {value : Option α}
    (h : list.Perm value.toList) : list.getLast? = value := by
  cases value with
  | none =>
    rw [List.perm_nil.mp h]
    rfl
  | some v =>
    rw [List.perm_singleton.mp h]
    rfl

namespace RuleConfig

/-- The steps that enter a rule whose payloads hold the given objects. -/
def steps (r : RuleConfig) (conditions outputs : Fields Json) : List RuleStep :=
  conditions.entries.map (fun e => .entry e.1 (.ofJson e.2)) ++
    outputs.entries.map (fun e => .output e.1 (.ofJson e.2)) ++
    r.priority.toList.map .priority ++ r.annotation.toList.map .note

/-- A rule is entered under its id, if this is not empty, by what its payloads hold in any order. -/
structure EnteredBy (r : RuleConfig) (id : Option String) (steps : List RuleStep) : Prop where
  id : id = r.id.filter (· ≠ "")
  steps : ∃ conditions outputs, r.conditions.Holds conditions ∧ r.outputs.Holds outputs ∧
    steps.Perm (r.steps conditions outputs)

variable {r : RuleConfig} {draft : RuleDraft} {position : ℕ}

theorem exists_of_draft_eq_ok (h : r.draft position = .ok draft) :
    ∃ conditions outputs, r.conditions.Holds conditions ∧ r.outputs.Holds outputs ∧
      draft = {
        id := some (r.id.getD "")
        conditions := conditions.entries.map fun e => (CellEntry.ofJson e.2).condition e.1
        outputs := outputs.entries.map fun e => (e.1, .ofJson e.2)
        priority := r.priority
        annotation := r.annotation } := by
  obtain ⟨conditions, hconditions, h⟩ := exists_of_bind_eq_ok h
  obtain ⟨outputs, houtputs, h⟩ := exists_of_bind_eq_ok h
  cases h
  exact ⟨conditions, outputs, Payload.holds_of_scalars? (eq_ok_of_mapError_eq_ok hconditions),
    Payload.holds_of_scalars? (eq_ok_of_mapError_eq_ok houtputs), rfl⟩

theorem nodup_outputs (h : r.draft position = .ok draft) :
    (draft.outputs.map Prod.fst).Nodup := by
  obtain ⟨_, outputs, _, _, rfl⟩ := exists_of_draft_eq_ok h
  rw [List.map_map]
  exact Fields.nodup_of_sorted outputs.sorted

section Steps

variable (r : RuleConfig) (conditions outputs : Fields Json)

@[simp] theorem conditions_steps : (r.steps conditions outputs).filterMap RuleStep.condition? =
    conditions.entries.map fun e => (CellEntry.ofJson e.2).condition e.1 := by
  simp [steps, RuleStep.condition?, Function.comp_def]

@[simp] theorem outputs_steps : (r.steps conditions outputs).filterMap RuleStep.output? =
    outputs.entries.map fun e => (e.1, .ofJson e.2) := by
  simp [steps, RuleStep.output?, Function.comp_def]

@[simp] theorem priority_steps :
    (r.steps conditions outputs).filterMap RuleStep.priority? = r.priority.toList := by
  simp [steps, RuleStep.priority?, Function.comp_def]

@[simp] theorem note_steps :
    (r.steps conditions outputs).filterMap RuleStep.note? = r.annotation.toList := by
  simp [steps, RuleStep.note?, Function.comp_def]

end Steps

/-- An id that is missing or empty is none, whichever way the rule was entered. -/
theorem rearranges_of_enteredBy {id : Option String} {steps : List RuleStep}
    (hdraft : r.draft position = .ok draft) (h : r.EnteredBy id steps) (n : ℕ) :
    (draft.toRule n).Rearranges ((RuleDraft.ofSteps id steps).toRule n) := by
  obtain ⟨conditions, outputs, hconditions, houtputs, rfl⟩ := exists_of_draft_eq_ok hdraft
  obtain ⟨rfl, conditions', outputs', hconditions', houtputs', hperm⟩ := h
  obtain rfl := hconditions.eq hconditions'
  obtain rfl := houtputs.eq houtputs'
  have hcondition := hperm.filterMap RuleStep.condition?
  have houtput := hperm.filterMap RuleStep.output?
  have hpriority := hperm.filterMap RuleStep.priority?
  have hnote := hperm.filterMap RuleStep.note?
  simp only [conditions_steps, outputs_steps, priority_steps, note_steps] at *
  rw [RuleDraft.ofSteps_eq]
  refine ⟨?_, hcondition, houtput, getLast?_of_perm_toList hpriority, getLast?_of_perm_toList hnote⟩
  simp only [RuleDraft.toRule]
  cases r.id with
  | none => rfl
  | some id => by_cases hid : id = "" <;> simp [hid]

end RuleConfig

section Rules

variable {configs : List RuleConfig} {drafts : List RuleDraft}

theorem forall₂_of_ruleDrafts {position : ℕ}
    (h : ruleDrafts position configs = .ok drafts) :
    List.Forall₂ (fun r draft => ∃ n, RuleConfig.draft n r = .ok draft) configs drafts := by
  induction configs generalizing position drafts with
  | nil =>
    cases h
    exact .nil
  | cons r rest ih =>
    obtain ⟨draft, hdraft, h⟩ := exists_of_bind_eq_ok h
    obtain ⟨drafts, hdrafts, h⟩ := exists_of_bind_eq_ok h
    cases h
    exact .cons ⟨position, hdraft⟩ (ih hdrafts)

variable
  (hdrafts : List.Forall₂ (fun r draft => ∃ n, RuleConfig.draft n r = .ok draft) configs drafts)
include hdrafts

theorem forall₂_rearranges {entries : List (Option String × List RuleStep)}
    (hentries : List.Forall₂ (fun r e => RuleConfig.EnteredBy r e.1 e.2) configs entries) :
    List.Forall₂ (fun d d' : RuleDraft => ∀ n, (d.toRule n).Rearranges (d'.toRule n)) drafts
      (entries.map fun e => RuleDraft.ofSteps e.1 e.2) := by
  induction hdrafts generalizing entries with
  | nil =>
    cases hentries
    exact .nil
  | cons hdraft _ ih =>
    obtain ⟨n, hdraft⟩ := hdraft
    cases hentries with
    | cons hentry hentries =>
      exact .cons (RuleConfig.rearranges_of_enteredBy hdraft hentry) (ih hentries)

theorem exists_forall₂_enteredBy :
    ∃ entries : List (Option String × List RuleStep),
      List.Forall₂ (fun r e => RuleConfig.EnteredBy r e.1 e.2) configs entries := by
  induction hdrafts with
  | nil => exact ⟨[], .nil⟩
  | @cons r _ _ _ hdraft _ ih =>
    obtain ⟨n, hdraft⟩ := hdraft
    obtain ⟨conditions, outputs, hconditions, houtputs, _⟩ :=
      RuleConfig.exists_of_draft_eq_ok hdraft
    obtain ⟨entries, hentries⟩ := ih
    have hentry : r.EnteredBy (r.id.filter (· ≠ "")) (r.steps conditions outputs) :=
      ⟨rfl, conditions, outputs, hconditions, houtputs, List.Perm.refl _⟩
    exact ⟨(_, _) :: entries, .cons hentry hentries⟩

theorem nodup_of_mem_numberRules (position : ℕ) :
    ∀ rule ∈ numberRules position drafts, (rule.outputs.map Prod.fst).Nodup := by
  induction hdrafts generalizing position with
  | nil => exact List.forall_mem_nil _
  | cons hdraft _ ih =>
    obtain ⟨n, hdraft⟩ := hdraft
    exact List.forall_mem_cons.mpr ⟨RuleConfig.nodup_outputs hdraft, ih (position + 1)⟩

end Rules

namespace TableConfig

def HasAggregation (t : TableConfig) (aggregation : Aggregation) : Prop :=
  match t.aggregation with
  | none => aggregation = .none
  | some name => Aggregation.ofName? name = some aggregation

/-- All of a draft but its rules is what the configuration says. -/
structure Declares (t : TableConfig) (draft : Draft) : Prop where
  policy : HitPolicy.ofName? t.policy = some draft.policy
  aggregation : t.HasAggregation draft.aggregation
  inputs : List.Forall₂ ColumnConfig.IsInput t.inputs draft.inputs
  outputs : List.Forall₂ ColumnConfig.IsOutput t.outputs draft.outputs

/-- A configuration is entered by steps that declare what it says, and that enter its rules in their
order. -/
structure EnteredBy (t : TableConfig) (policy : HitPolicy) (steps : List TableStep) : Prop where
  declares : t.Declares (.ofSteps policy steps)
  rules : List.Forall₂ (fun r e => RuleConfig.EnteredBy r e.1 e.2) t.rules
    (steps.filterMap TableStep.rule?)

variable {t : TableConfig} {draft : Draft} {policy : HitPolicy} {steps : List TableStep}

theorem policyNamed_eq_ok_iff {name : String} :
    policyNamed name = .ok policy ↔ HitPolicy.ofName? name = some policy := by
  unfold policyNamed
  cases HitPolicy.ofName? name <;> simp

theorem aggregationNamed_eq_ok_iff {aggregation : Aggregation} :
    aggregationNamed t.aggregation = .ok aggregation ↔ t.HasAggregation aggregation := by
  unfold HasAggregation
  cases t.aggregation with
  | none =>
    simp only [aggregationNamed, Except.ok.injEq]
    exact eq_comm
  | some name =>
    simp only [aggregationNamed]
    cases Aggregation.ofName? name <;> simp

theorem declares_of_draft_eq_ok (h : t.draft = .ok draft) :
    t.Declares draft ∧ ruleDrafts 1 t.rules = .ok draft.rules := by
  obtain ⟨policy, hpolicy, h⟩ := exists_of_bind_eq_ok h
  obtain ⟨aggregation, haggregation, h⟩ := exists_of_bind_eq_ok h
  obtain ⟨inputs, hinputs, h⟩ := exists_of_bind_eq_ok h
  obtain ⟨outputs, houtputs, h⟩ := exists_of_bind_eq_ok h
  obtain ⟨rules, hrules, h⟩ := exists_of_bind_eq_ok h
  cases h
  refine ⟨⟨policyNamed_eq_ok_iff.mp hpolicy, aggregationNamed_eq_ok_iff.mp haggregation, ?_, ?_⟩,
    hrules⟩
  · exact (columnsOf_eq_ok_iff.mp hinputs).imp fun _ _ => ColumnConfig.input_eq_ok_iff.mp
  · exact (columnsOf_eq_ok_iff.mp houtputs).imp fun _ _ => ColumnConfig.output_eq_ok_iff.mp

theorem Declares.draft_eq (h : t.Declares draft) {rules : List RuleDraft}
    (hrules : ruleDrafts 1 t.rules = .ok rules) : t.draft = .ok { draft with rules := rules } := by
  have hinputs : columnsOf ColumnConfig.input t.inputs = .ok draft.inputs :=
    columnsOf_eq_ok_iff.mpr (h.inputs.imp fun _ _ => ColumnConfig.input_eq_ok_iff.mpr)
  have houtputs : columnsOf ColumnConfig.output t.outputs = .ok draft.outputs :=
    columnsOf_eq_ok_iff.mpr (h.outputs.imp fun _ _ => ColumnConfig.output_eq_ok_iff.mpr)
  rw [TableConfig.draft, policyNamed_eq_ok_iff.mpr h.policy,
    aggregationNamed_eq_ok_iff.mpr h.aggregation, hinputs, houtputs, hrules]
  rfl

theorem exists_enteredBy (h : t.draft = .ok draft) : ∃ policy steps, t.EnteredBy policy steps := by
  obtain ⟨hdeclares, hrules⟩ := declares_of_draft_eq_ok h
  obtain ⟨entries, hentries⟩ := exists_forall₂_enteredBy (forall₂_of_ruleDrafts hrules)
  let steps : List TableStep := .aggregation draft.aggregation :: (draft.inputs.map .input ++
    draft.outputs.map .output ++ entries.map fun e => .rule e.1 e.2)
  have haggregation : steps.filterMap TableStep.aggregation? = [draft.aggregation] := by
    simp [steps, TableStep.aggregation?, Function.comp_def]
  have hinputs : steps.filterMap TableStep.input? = draft.inputs := by
    simp [steps, List.filterMap_cons, TableStep.input?, Function.comp_def]
  have houtputs : steps.filterMap TableStep.output? = draft.outputs := by
    simp [steps, List.filterMap_cons, TableStep.output?, Function.comp_def]
  have hrule : steps.filterMap TableStep.rule? = entries := by
    simp [steps, List.filterMap_cons, TableStep.rule?, Function.comp_def]
  refine ⟨draft.policy, steps, ?_, hrule.symm ▸ hentries⟩
  rw [Draft.ofSteps_eq, haggregation, hinputs, houtputs]
  exact ⟨hdeclares.policy, hdeclares.aggregation, hdeclares.inputs, hdeclares.outputs⟩

/-- What is declared differs from what is entered at most in the rules. -/
theorem EnteredBy.exists_draft_eq (h : t.EnteredBy policy steps) (hdraft : t.draft = .ok draft) :
    ∃ rules, draft = { Draft.ofSteps policy steps with rules := rules } ∧
      ruleDrafts 1 t.rules = .ok rules := by
  obtain ⟨_, hrules⟩ := declares_of_draft_eq_ok hdraft
  have heq := hdraft.symm.trans (h.declares.draft_eq hrules)
  exact ⟨draft.rules, Except.ok.inj heq, hrules⟩

/-- The table that is entered by steps answers as the one that is built. -/
theorem EnteredBy.exists_build_eq_ok {table : Table} (h : t.EnteredBy policy steps)
    (hbuild : t.build = .ok table) :
    ∃ entered, (Draft.ofSteps policy steps).build = .ok entered ∧
      ∀ record options, entered.evaluate record options = table.evaluate record options := by
  obtain ⟨draft, hdraft, hbuild⟩ := exists_of_bind_eq_ok hbuild
  obtain ⟨rules, rfl, hrules⟩ := h.exists_draft_eq hdraft
  obtain ⟨hInputs, hOutputs, rfl⟩ := Draft.exists_of_build_eq_ok hbuild
  refine ⟨_, (Draft.ofSteps policy steps).build_eq_ok hInputs hOutputs, fun record options => ?_⟩
  have hdrafts := forall₂_of_ruleDrafts hrules
  have hentered : (Draft.ofSteps policy steps).rules =
      (steps.filterMap TableStep.rule?).map fun e => RuleDraft.ofSteps e.1 e.2 := by
    rw [Draft.ofSteps_eq]
  have hrearranged := forall₂_numberRules 1 (forall₂_rearranges hdrafts h.rules)
  rw [← hentered] at hrearranged
  let draft : Draft := { Draft.ofSteps policy steps with rules := rules }
  exact (draft.table hInputs hOutputs).evaluate_rearranged hrearranged
    (nodup_of_mem_numberRules hdrafts 1) record options

end TableConfig

/-- Two payloads of one object, each inline or as text. -/
def Payload.SameObject (payload payload' : Payload) : Prop :=
  ∃ members, payload.Holds members ∧ payload'.Holds members

theorem Payload.SameObject.scalars?_eq {payload payload' : Payload}
    (h : payload.SameObject payload') : payload'.scalars? = payload.scalars? := by
  obtain ⟨members, h, h'⟩ := h
  rw [scalars?, scalars?, object?_eq_ok_iff.mpr h, object?_eq_ok_iff.mpr h']

structure RuleConfig.SameObjects (r r' : RuleConfig) : Prop where
  id : r'.id = r.id
  conditions : r.conditions.SameObject r'.conditions
  outputs : r.outputs.SameObject r'.outputs
  priority : r'.priority = r.priority
  annotation : r'.annotation = r.annotation

theorem RuleConfig.SameObjects.draft_eq {r r' : RuleConfig} (h : r.SameObjects r')
    (position : ℕ) : r'.draft position = r.draft position := by
  rw [draft, draft, h.conditions.scalars?_eq, h.outputs.scalars?_eq, h.id, h.priority,
    h.annotation]

theorem ruleDrafts_eq {configs configs' : List RuleConfig}
    (h : List.Forall₂ RuleConfig.SameObjects configs configs') (position : ℕ) :
    ruleDrafts position configs' = ruleDrafts position configs := by
  induction h generalizing position with
  | nil => rfl
  | cons hrule _ ih => rw [ruleDrafts, ruleDrafts, hrule.draft_eq, ih]

namespace TableConfig

/-- The same configuration, the payloads of its rules in other forms. -/
structure SameObjects (t t' : TableConfig) : Prop where
  policy : t'.policy = t.policy
  aggregation : t'.aggregation = t.aggregation
  inputs : t'.inputs = t.inputs
  outputs : t'.outputs = t.outputs
  rules : List.Forall₂ RuleConfig.SameObjects t.rules t'.rules

theorem SameObjects.build_eq {t t' : TableConfig} (h : t.SameObjects t') :
    t'.build = t.build := by
  simp only [build, draft, h.policy, h.aggregation, h.inputs, h.outputs, ruleDrafts_eq h.rules]

/-- A configuration that builds can be entered by steps. In whichever order they enter a rule, and
in whichever form its payloads are given, the table gives the same answers. -/
theorem evaluate_eq_of_enteredBy {t : TableConfig} {table : Table} (h : t.build = .ok table) :
    (∃ policy steps, t.EnteredBy policy steps) ∧
      ∀ t', t.SameObjects t' → t'.build = .ok table ∧
        ∀ policy steps, t'.EnteredBy policy steps →
          ∃ entered, (Draft.ofSteps policy steps).build = .ok entered ∧
            ∀ record options,
              entered.evaluate record options = table.evaluate record options := by
  constructor
  · obtain ⟨draft, hdraft, _⟩ := exists_of_bind_eq_ok h
    exact exists_enteredBy hdraft
  · intro t' hsame
    have hbuild : t'.build = .ok table := hsame.build_eq.trans h
    exact ⟨hbuild, fun policy steps hentered => hentered.exists_build_eq_ok hbuild⟩

def adults : TableConfig where
  policy := "FIRST"
  aggregation := none
  inputs := [⟨"age", some "Number", none, none⟩, ⟨"group", none, some " ", none⟩]
  outputs := [⟨"tier", none, none, some (.string "LOW")⟩]
  rules := [⟨some "", .text " \x7b\"group\": null, \"age\": \">= 18\"\x7d",
    .object (.ofList [("tier", .string "HIGH")]), none, some "of age"⟩]

def adultsInline : TableConfig :=
  { adults with
    rules := [⟨some "", .object (.ofList [("age", .string ">= 18"), ("group", .null)]),
      .object (.ofList [("tier", .string "HIGH")]), none, some "of age"⟩] }

/-- The output comes before the conditions. -/
def adultsSteps : List TableStep :=
  [.input ⟨"age", .number, none, none⟩,
    .rule none [.output "tier" (.string "HIGH"), .note "of age", .entry "group" (.exact .null),
      .entry "age" (.text ">= 18")],
    .output ⟨"tier", .string, none, some (.string "LOW")⟩,
    .input ⟨"group", .string, none, none⟩]

theorem adults_sameObjects : adults.SameObjects adultsInline where
  policy := rfl
  aggregation := rfl
  inputs := rfl
  outputs := rfl
  rules := by
    have hread : Json.ofText " \x7b\"group\": null, \"age\": \">= 18\"\x7d" =
        .ok (.object [("age", .string ">= 18"), ("group", .null)]) := by decide +kernel
    exact .cons ⟨rfl, ⟨_, .written hread, .inline _⟩, ⟨_, .inline _, .inline _⟩, rfl, rfl⟩ .nil

theorem adultsInline_enteredBy : adultsInline.EnteredBy .first adultsSteps where
  declares := by
    refine ⟨rfl, rfl, ?_, ?_⟩
    · exact .cons ⟨rfl, rfl, rfl, rfl⟩ (.cons ⟨rfl, rfl, by decide +kernel, rfl⟩ .nil)
    · exact .cons ⟨rfl, rfl, rfl, rfl⟩ .nil
  rules := .cons ⟨rfl, _, _, .inline _, .inline _, by decide +kernel⟩ .nil

theorem evaluate_eq_of_enteredBy_adults :
    ∃ table entered, adults.build = .ok table ∧ adultsInline.build = .ok table ∧
      (Draft.ofSteps .first adultsSteps).build = .ok entered ∧
      ∀ record options, entered.evaluate record options = table.evaluate record options := by
  have hok : adults.build.isOk = true := by decide +kernel
  obtain ⟨table, htable⟩ : ∃ table, adults.build = .ok table := by
    cases hbuild : adults.build with
    | error e =>
      rw [hbuild] at hok
      cases hok
    | ok table => exact ⟨table, rfl⟩
  obtain ⟨_, hforms⟩ := evaluate_eq_of_enteredBy htable
  obtain ⟨hinline, hsteps⟩ := hforms adultsInline adults_sameObjects
  obtain ⟨entered, hentered, heq⟩ := hsteps .first adultsSteps adultsInline_enteredBy
  exact ⟨table, entered, htable, hinline, hentered, heq⟩

end TableConfig
end DecisionTables
