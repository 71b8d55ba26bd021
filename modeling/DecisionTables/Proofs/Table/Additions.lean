import DecisionTables.Json.Basic
import DecisionTables.Proofs.Table.Building
import DecisionTables.Table.Evaluation

/-!
# What is asked for besides the decision

Metadata and a trace change neither whether a table decides nor what it decides. In the JSON object
of an outcome they stand beside the outputs, under names of their own; only an output that bears
such a name gives way.
-/
namespace DecisionTables

namespace Outcome

theorem nodup_additions (outcome : Outcome) : (outcome.additions.map Prod.fst).Nodup := by
  obtain ⟨decision, metadata, trace⟩ := outcome
  cases metadata <;> cases trace <;> simp [additions]

/-- A member of the JSON object is an addition, or else it is the decision's. -/
theorem child?_toJson (outcome : Outcome) (name : String) :
    outcome.toJson.child? name.toList =
      (outcome.additions.lookup name).or (outcome.decision.members.get? name) := by
  rw [toJson, Json.ofFields, Json.child?, String.ofList_toList]
  exact Fields.get?_foldl_insert_of_nodup outcome.nodup_additions _ name

end Outcome

namespace Options

/-- At the same strictness, all that the first options ask for, and perhaps more. -/
structure AtMost (options more : Options) : Prop where
  strict : more.strict = options.strict
  metadata : options.metadata = true → more.metadata = true
  trace : options.trace = true → more.trace = true

/-- The name of an addition for which only the second options ask. -/
def AddsName (options more : Options) (name : String) : Prop :=
  (name = "_metadata" ∧ options.metadata = false ∧ more.metadata = true) ∨
    (name = "_trace" ∧ options.trace = false ∧ more.trace = true)

end Options

namespace Table

variable {table : Table} {record : FactRecord} {options more : Options}

theorem lookup_additions (hits : List Match) (decision : Decision) (name : String) :
    (table.outcomeOf record options hits decision).additions.lookup name =
      if name = "_metadata" ∧ options.metadata = true then some (table.metadataOf hits).toJson
      else if name = "_trace" ∧ options.trace = true then
        some (table.traceOf record hits).toJson
      else none := by
  obtain ⟨strict, metadata, trace⟩ := options
  by_cases hmetadata : name = "_metadata"
  · subst hmetadata
    cases metadata <;> cases trace <;> rfl
  · by_cases htrace : name = "_trace"
    · subst htrace
      cases metadata <;> cases trace <;> rfl
    · cases metadata <;> cases trace <;>
        simp [Outcome.additions, outcomeOf, List.lookup_cons, hmetadata, htrace,
          beq_eq_false_iff_ne.mpr]

/-- A member stays as it is, unless an addition that was not asked for before takes its name. -/
theorem child?_outcomeOf (hmore : options.AtMost more) {hits : List Match} {decision : Decision}
    {name : String} (hname : ¬ options.AddsName more name) {value : Json}
    (h : (table.outcomeOf record options hits decision).toJson.child? name.toList = some value) :
    (table.outcomeOf record more hits decision).toJson.child? name.toList = some value := by
  have hmetadata : (name = "_metadata" ∧ more.metadata = true) ↔
      (name = "_metadata" ∧ options.metadata = true) := by
    refine and_congr_right fun heq => ⟨fun hm => ?_, hmore.metadata⟩
    exact Bool.of_not_eq_false fun hold => hname (.inl ⟨heq, hold, hm⟩)
  have htrace : (name = "_trace" ∧ more.trace = true) ↔
      (name = "_trace" ∧ options.trace = true) := by
    refine and_congr_right fun heq => ⟨fun hm => ?_, hmore.trace⟩
    exact Bool.of_not_eq_false fun hold => hname (.inr ⟨heq, hold, hm⟩)
  rw [Outcome.child?_toJson, lookup_additions] at h ⊢
  simp only [hmetadata, htrace]
  exact h

theorem evaluate_eq_error_iff (hmore : options.AtMost more) {e : DecisionError} :
    table.evaluate record more = .error e ↔ table.evaluate record options = .error e := by
  cases h : table.resolve (table.matched record) with
  | error e' => rw [evaluate_of_error h, evaluate_of_error h]
  | ok decision =>
    rw [evaluate_of_ok h, evaluate_of_ok h, hmore.strict]
    split_ifs <;> simp

theorem exists_evaluate_eq_ok (hmore : options.AtMost more) {outcome : Outcome}
    (h : table.evaluate record options = .ok outcome) :
    ∃ decision, outcome = table.outcomeOf record options (table.matched record) decision ∧
      table.evaluate record more =
        .ok (table.outcomeOf record more (table.matched record) decision) := by
  obtain ⟨decision, hresolve, hmissing, rfl⟩ := evaluate_eq_ok_iff.mp h
  rw [← hmore.strict] at hmissing
  exact ⟨decision, rfl, evaluate_eq_ok_iff.mpr ⟨decision, hresolve, hmissing, rfl⟩⟩

/-- To ask for more changes neither the error nor the decision, and it keeps the members of the JSON
object but for an output that bears the name of what is added. -/
theorem evaluate_of_atMost (table : Table) (record : FactRecord) (hmore : options.AtMost more) :
    (∀ e, table.evaluate record more = .error e ↔ table.evaluate record options = .error e) ∧
      ∀ outcome, table.evaluate record options = .ok outcome →
        ∃ outcome', table.evaluate record more = .ok outcome' ∧
          outcome'.decision = outcome.decision ∧
          ∀ name value, ¬ options.AddsName more name →
            outcome.toJson.child? name.toList = some value →
            outcome'.toJson.child? name.toList = some value := by
  refine ⟨fun e => evaluate_eq_error_iff hmore, fun outcome h => ?_⟩
  obtain ⟨decision, rfl, hmoreOk⟩ := exists_evaluate_eq_ok hmore h
  exact ⟨_, hmoreOk, rfl, fun name value hname hvalue => child?_outcomeOf hmore hname hvalue⟩

end Table

/-- One rule, whose first output bears the name of the metadata. -/
def underscoredDraft : Draft where
  policy := .first
  aggregation := .none
  inputs := []
  outputs := [⟨"_metadata", .string, none, none⟩, ⟨"tier", .string, none, none⟩]
  rules := [⟨none, [], [("_metadata", .string "kept"), ("tier", .string "GOLD")], none, none⟩]

theorem Table.evaluate_of_atMost_underscored :
    ∃ table, underscoredDraft.build = .ok table ∧
      Options.default.AtMost ⟨false, true, true⟩ ∧
      (∀ e, table.evaluate .empty ⟨false, true, true⟩ = .error e ↔
        table.evaluate .empty .default = .error e) ∧
      ∃ outcome outcome', table.evaluate .empty .default = .ok outcome ∧
        outcome.toJson.child? "tier".toList = some (.string "GOLD") ∧
        ¬ Options.default.AddsName ⟨false, true, true⟩ "tier" ∧
        table.evaluate .empty ⟨false, true, true⟩ = .ok outcome' ∧
        outcome'.toJson.child? "tier".toList = some (.string "GOLD") := by
  obtain ⟨table, hbuild, outcome, houtcome, htier⟩ :
      ∃ table, underscoredDraft.build = .ok table ∧
        ∃ outcome, table.evaluate .empty .default = .ok outcome ∧
          outcome.toJson.child? "tier".toList = some (.string "GOLD") :=
    ⟨_, rfl, _, rfl, rfl⟩
  have hmore : Options.default.AtMost ⟨false, true, true⟩ := ⟨rfl, nofun, nofun⟩
  have hname : ¬ Options.default.AddsName ⟨false, true, true⟩ "tier" := by
    simp [Options.AddsName]
  obtain ⟨herror, hok⟩ := Table.evaluate_of_atMost table .empty hmore
  obtain ⟨outcome', houtcome', -, hkept⟩ := hok outcome houtcome
  exact ⟨table, hbuild, hmore, herror, outcome, outcome', houtcome, htier, hname, houtcome',
    hkept "tier" _ hname htier⟩

/-- The output is there without metadata, and gives way to metadata. -/
theorem Table.child?_metadata_underscored :
    ∃ table outcome outcome', underscoredDraft.build = .ok table ∧
      table.evaluate .empty .default = .ok outcome ∧
      table.evaluate .empty ⟨false, true, false⟩ = .ok outcome' ∧
      outcome.toJson.child? "_metadata".toList = some (.string "kept") ∧
      outcome'.toJson.child? "_metadata".toList ≠ some (.string "kept") :=
  ⟨_, _, _, rfl, rfl, rfl, rfl, by decide⟩

end DecisionTables
