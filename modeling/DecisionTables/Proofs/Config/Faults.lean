import DecisionTables.Proofs.Config.Entry

/-!
# Faults of configurations

What is checked before a table is built, as a list in the order of the checks. Main statement: a
configuration builds exactly if all its parts are well formed, and otherwise the error is that of
the first check that fails; of a malformed rule it gives the position, the payload and the least
column of it that is at fault.
-/
namespace DecisionTables

namespace Payload

def IsFlat (payload : Payload) : Prop :=
  ∃ members, payload.Holds members ∧ ∀ e ∈ members.entries, e.2.isContainer = false

/-- A column of an object has an array or an object as its value, and no column before it does. -/
structure IsLeastNested (members : Fields Json) (column : String) : Prop where
  nested : ∃ j, (column, j) ∈ members.entries ∧ j.isContainer = true
  least : ∀ e ∈ members.entries, e.2.isContainer = true → compare column e.1 ≠ .gt

inductive Faulty : Payload → PayloadFault → Prop
  | notJson {t : String} {fault : Json.Fault} (h : Json.ofText t = .error fault) :
      Faulty (.text t) (.notJson fault)
  | notObject {t : String} {j : Json} (h : Json.ofText t = .ok j)
      (hOther : ∀ members, j ≠ .object members) : Faulty (.text t) .notObject
  | nested {payload : Payload} {members : Fields Json} {column : String}
      (h : payload.Holds members) (hLeast : IsLeastNested members column) :
      Faulty payload (.nested column)

/-- The place of a fault in a payload of a given name: the payload itself if it holds no object, or
else the least column that is nested. -/
inductive FaultyAt (name : String) : Payload → String → Prop
  | whole {payload : Payload} (h : ∀ members, ¬ payload.Holds members) : FaultyAt name payload name
  | column {payload : Payload} {members : Fields Json} {column : String}
      (h : payload.Holds members) (hLeast : IsLeastNested members column) :
      FaultyAt name payload (name ++ "." ++ column)

variable {payload : Payload} {members : Fields Json} {fault : PayloadFault}

theorem IsLeastNested.unique {column column' : String} (h : IsLeastNested members column)
    (h' : IsLeastNested members column') : column = column' := by
  obtain ⟨j, hj, hcontainer⟩ := h.nested
  obtain ⟨j', hj', hcontainer'⟩ := h'.nested
  have hle := h.least _ hj' hcontainer'
  have hge := h'.least _ hj hcontainer
  cases hcompare : compare column column' with
  | lt => exact absurd (Std.OrientedCmp.gt_of_lt hcompare) hge
  | eq => exact Std.LawfulEqCmp.eq_of_compare hcompare
  | gt => exact absurd hcompare hle

/-- Members are sorted by name, so that the first nested one is the least. -/
theorem isLeastNested_of_find? {e : String × Json}
    (h : members.entries.find? (fun e => e.2.isContainer) = some e) :
    IsLeastNested members e.1 := by
  obtain ⟨hcontainer, before, after, hentries, hbefore⟩ := List.find?_eq_some_iff_append.mp h
  have hsorted := members.sorted
  rw [hentries, Fields.Sorted, List.pairwise_append, List.pairwise_cons] at hsorted
  refine ⟨⟨e.2, by simp [hentries], hcontainer⟩, fun e' he' hcontainer' => ?_⟩
  rw [hentries, List.mem_append, List.mem_cons] at he'
  rcases he' with hmem | rfl | hmem
  · have hnot := hbefore e' hmem
    simp [hcontainer'] at hnot
  · simp
  · rw [hsorted.2.1.1 e' hmem]
    nofun

theorem scalars?_of_holds (h : payload.Holds members) :
    payload.scalars? =
      match members.entries.find? fun e => e.2.isContainer with
      | some e => .error (.nested e.1)
      | none => .ok members := by
  rw [scalars?, object?_eq_ok_iff.mpr h]
  rfl

theorem scalars?_eq_error_iff : payload.scalars? = .error fault ↔ payload.Faulty fault := by
  constructor
  · intro h
    rcases exists_of_bind_eq_error h with hobject | ⟨members, hobject, hnested⟩
    · cases payload with
      | object members => cases hobject
      | text t =>
        rw [object?] at hobject
        split at hobject
        case h_1 hread =>
          cases hobject
          exact .notJson hread
        case h_2 => cases hobject
        case h_3 j hother hread =>
          cases hobject
          exact .notObject hread hother
    · split at hnested
      case h_1 e hfind =>
        cases hnested
        exact .nested (object?_eq_ok_iff.mp hobject) (isLeastNested_of_find? hfind)
      case h_2 => cases hnested
  · intro h
    cases h with
    | notJson hread =>
      rw [scalars?, object?, hread]
      rfl
    | @notObject t j hread hother =>
      have hobject : (Payload.text t).object? = .error .notObject := by
        rw [object?, hread]
        cases j with
        | object members => exact absurd rfl (hother members)
        | _ => rfl
      rw [scalars?, hobject]
      rfl
    | @nested payload members column hholds hleast =>
      rw [scalars?_of_holds hholds]
      cases hfind : members.entries.find? fun e => e.2.isContainer with
      | some e => rw [hleast.unique (isLeastNested_of_find? hfind)]
      | none =>
        obtain ⟨j, hj, hcontainer⟩ := hleast.nested
        exact absurd hcontainer (List.find?_eq_none.mp hfind _ hj)

theorem scalars?_of_forall (h : payload.Holds members)
    (hflat : ∀ e ∈ members.entries, e.2.isContainer = false) :
    payload.scalars? = .ok members := by
  have hfind : members.entries.find? (fun e => e.2.isContainer) = none := by
    refine List.find?_eq_none.mpr fun e he => ?_
    rw [hflat e he]
    exact Bool.false_ne_true
  rw [scalars?_of_holds h, hfind]

theorem isFlat_iff : payload.IsFlat ↔ ∀ fault, ¬ payload.Faulty fault := by
  constructor
  · rintro ⟨members, hholds, hflat⟩ fault hfaulty
    have herror := scalars?_eq_error_iff.mpr hfaulty
    rw [scalars?_of_forall hholds hflat] at herror
    cases herror
  · intro h
    cases hscalars : payload.scalars? with
    | error fault => exact absurd (scalars?_eq_error_iff.mp hscalars) (h fault)
    | ok members =>
      have hholds := holds_of_scalars? hscalars
      refine ⟨members, hholds, fun e he => ?_⟩
      rw [scalars?_of_holds hholds] at hscalars
      split at hscalars
      case h_1 => cases hscalars
      case h_2 hfind => simpa using List.find?_eq_none.mp hfind e he

theorem Faulty.faultyAt (h : payload.Faulty fault) (part : RulePart) :
    payload.FaultyAt part.name (fault.place part) := by
  cases h with
  | notJson hread =>
    refine .whole fun members hholds => ?_
    cases hholds with
    | written hread' =>
      rw [hread] at hread'
      cases hread'
  | notObject hread hother =>
    refine .whole fun members hholds => ?_
    cases hholds with
    | written hread' =>
      rw [hread] at hread'
      cases hread'
      exact hother _ rfl
  | nested hholds hleast => exact .column hholds hleast

end Payload

def RuleConfig.payload (r : RuleConfig) : RulePart → Payload
  | .conditions => r.conditions
  | .outputs => r.outputs

/-- The type is not declared, or is declared by the name of one in any case. -/
def ColumnConfig.HasKnownType (c : ColumnConfig) : Prop :=
  ∀ name ∈ c.type, ∃ type : ColumnType, type.name.toList = name.toList.map Char.toLower

/-- What is checked of a configuration: a name or its absence, the type of a column, a payload of a
rule, or the name of a column with the names before it on its side. -/
inductive Check where
  | policy (name : String)
  | aggregation (name : Option String)
  | type (column : ColumnConfig)
  | payload (position : ℕ) (part : RulePart) (payload : Payload)
  | name (side : ColumnSide) (earlier : List String) (name : String)

namespace Check

inductive Fails : Check → BuildError → Prop
  | policy {name : String} (h : ∀ policy : HitPolicy, policy.name ≠ name) :
      Fails (.policy name) (.unknownHitPolicy name)
  | aggregation {name : String} (h : ∀ aggregation : Aggregation, aggregation.name ≠ name) :
      Fails (.aggregation (some name)) (.unknownAggregation name)
  | type {c : ColumnConfig} {name : String} (hType : c.type = some name)
      (h : ∀ type : ColumnType, type.name.toList ≠ name.toList.map Char.toLower) :
      Fails (.type c) (.unknownColumnType name)
  | payload {position : ℕ} {part : RulePart} {payload : Payload} {fault : PayloadFault}
      (h : payload.Faulty fault) :
      Fails (.payload position part payload) (.malformedRule position part fault)
  | emptyName {side : ColumnSide} {earlier : List String} :
      Fails (.name side earlier "") (.emptyColumnName side (earlier.length + 1))
  | duplicate {side : ColumnSide} {earlier : List String} {name : String} (hName : name ≠ "")
      (h : name ∈ earlier) : Fails (.name side earlier name) (.duplicateColumn side name)

def Passes (check : Check) : Prop := ∀ e, ¬ check.Fails e

theorem passes_policy_iff {name : String} :
    (policy name).Passes ↔ ∃ policy : HitPolicy, policy.name = name := by
  constructor
  · intro h
    by_contra hNone
    exact h _ (.policy fun policy hname => hNone ⟨policy, hname⟩)
  · rintro ⟨policy, rfl⟩ e hfails
    cases hfails with
    | policy h => exact h policy rfl

theorem passes_aggregation_iff {name : Option String} : (aggregation name).Passes ↔
    ∀ text ∈ name, ∃ aggregation : Aggregation, aggregation.name = text := by
  constructor
  · rintro h text rfl
    by_contra hNone
    exact h _ (.aggregation fun aggregation hname => hNone ⟨aggregation, hname⟩)
  · intro h e hfails
    cases hfails with
    | aggregation hNone =>
      obtain ⟨aggregation, hname⟩ := h _ rfl
      exact hNone aggregation hname

theorem passes_type_iff {c : ColumnConfig} : (type c).Passes ↔ c.HasKnownType := by
  constructor
  · intro h name hType
    by_contra hNone
    exact h _ (.type hType fun type hname => hNone ⟨type, hname⟩)
  · intro h e hfails
    cases hfails with
    | type hType hNone =>
      obtain ⟨type, hname⟩ := h _ hType
      exact hNone type hname

theorem passes_payload_iff {position : ℕ} {part : RulePart} {payload : Payload} :
    (Check.payload position part payload).Passes ↔ payload.IsFlat := by
  rw [Payload.isFlat_iff]
  constructor
  · exact fun h fault hfaulty => h _ (.payload hfaulty)
  · intro h e hfails
    cases hfails with
    | payload hfaulty => exact h _ hfaulty

variable {side : ColumnSide} {earlier : List String} {name : String} {e : BuildError}

theorem fails_name_iff : (Check.name side earlier name).Fails e ↔
    name = "" ∧ e = .emptyColumnName side (earlier.length + 1) ∨
      name ≠ "" ∧ name ∈ earlier ∧ e = .duplicateColumn side name := by
  constructor
  · intro h
    cases h with
    | emptyName => exact .inl ⟨rfl, rfl⟩
    | duplicate hName h => exact .inr ⟨hName, h, rfl⟩
  · rintro (⟨rfl, rfl⟩ | ⟨hName, h, rfl⟩)
    · exact .emptyName
    · exact .duplicate hName h

theorem passes_name_iff :
    (Check.name side earlier name).Passes ↔ name ≠ "" ∧ name ∉ earlier := by
  simp only [Passes, fails_name_iff]
  constructor
  · intro h
    have hName : name ≠ "" := fun hEmpty => h _ (.inl ⟨hEmpty, rfl⟩)
    exact ⟨hName, fun hMem => h _ (.inr ⟨hName, hMem, rfl⟩)⟩
  · rintro ⟨hName, hNew⟩ e (⟨hEmpty, _⟩ | ⟨_, hMem, _⟩)
    · exact hName hEmpty
    · exact hNew hMem

end Check

/-- The first check of a list that fails does so with an error. -/
inductive Reports : List Check → BuildError → Prop
  | here {check : Check} {checks : List Check} {e : BuildError} (h : check.Fails e) :
      Reports (check :: checks) e
  | later {check : Check} {checks : List Check} {e : BuildError} (hPasses : check.Passes)
      (h : Reports checks e) : Reports (check :: checks) e

section Reports

variable {checks first second : List Check} {check : Check} {e : BuildError}

@[simp] theorem reports_nil : ¬ Reports [] e := nofun

theorem reports_cons :
    Reports (check :: checks) e ↔ check.Fails e ∨ check.Passes ∧ Reports checks e := by
  constructor
  · intro h
    cases h with
    | here h => exact .inl h
    | later hPasses h => exact .inr ⟨hPasses, h⟩
  · rintro (h | ⟨hPasses, h⟩)
    · exact .here h
    · exact .later hPasses h

theorem reports_append :
    Reports (first ++ second) e ↔
      Reports first e ∨ (∀ check ∈ first, check.Passes) ∧ Reports second e := by
  induction first with
  | nil => simp
  | cons check first ih =>
    rw [List.cons_append, List.forall_mem_cons, reports_cons, reports_cons, ih]
    tauto

theorem forall_passes_iff : (∀ check ∈ checks, check.Passes) ↔ ∀ e, ¬ Reports checks e := by
  induction checks with
  | nil => simp
  | cons check checks ih =>
    simp only [List.forall_mem_cons, ih, reports_cons, not_or, not_and]
    constructor
    · rintro ⟨hPasses, hAll⟩ e
      exact ⟨hPasses e, fun _ => hAll e⟩
    · intro h
      have hPasses : check.Passes := fun e => (h e).1
      exact ⟨hPasses, fun e => (h e).2 hPasses⟩

theorem Reports.exists_fails (h : Reports checks e) : ∃ check ∈ checks, check.Fails e := by
  induction h with
  | here h => exact ⟨_, List.mem_cons_self, h⟩
  | later _ _ ih =>
    obtain ⟨check, hmem, hfails⟩ := ih
    exact ⟨check, List.mem_cons_of_mem _ hmem, hfails⟩

def Makes {α : Type} (checks : List Check) (x : Except BuildError α) : Prop :=
  ∀ e, x = .error e ↔ Reports checks e

variable {α β : Type} {x : Except BuildError α}

theorem Makes.exists_ok_iff (h : Makes checks x) :
    (∃ a, x = .ok a) ↔ ∀ check ∈ checks, check.Passes := by
  rw [forall_passes_iff]
  cases x with
  | ok a =>
    refine ⟨fun _ e hreports => ?_, fun _ => ⟨a, rfl⟩⟩
    cases (h e).mpr hreports
  | error e =>
    refine ⟨fun hok => ?_, fun hnone => absurd ((h e).mp rfl) (hnone e)⟩
    obtain ⟨a, ha⟩ := hok
    cases ha

theorem makes_ok (a : α) : Makes [] (.ok a) := by
  intro e
  simp

theorem makes_single (h : ∀ e, x = .error e ↔ check.Fails e) : Makes [check] x := by
  intro e
  rw [h, reports_cons]
  simp

/-- One step after another makes the checks of the one, and if they pass those of the other. -/
theorem Makes.bind {f : α → Except BuildError β} (hx : Makes first x)
    (hf : ∀ a, x = .ok a → Makes second (f a)) : Makes (first ++ second) (x >>= f) := by
  intro e
  rw [reports_append, ← hx.exists_ok_iff, ← hx e]
  constructor
  · intro h
    rcases exists_of_bind_eq_error h with h | ⟨a, ha, h⟩
    · exact .inl h
    · exact .inr ⟨⟨a, ha⟩, (hf a ha e).mp h⟩
  · rintro (rfl | ⟨⟨a, rfl⟩, h⟩)
    · rfl
    · exact (hf a rfl e).mpr h

theorem Makes.bind_ok {f : α → β} (hx : Makes checks x) :
    Makes checks (x >>= fun a => .ok (f a)) := by
  rw [← List.append_nil checks]
  exact hx.bind fun a _ => makes_ok (f a)

end Reports

theorem HitPolicy.ofName?_eq_none_iff {text : String} :
    ofName? text = .none ↔ ∀ policy : HitPolicy, policy.name ≠ text := by
  have hall : ∀ policy : HitPolicy, policy ∈ all := by intro policy; cases policy <;> decide
  rw [ofName?, List.find?_eq_none]
  simp [hall]

theorem Aggregation.ofName?_eq_none_iff {text : String} :
    ofName? text = .none ↔ ∀ aggregation : Aggregation, aggregation.name ≠ text := by
  have hall : ∀ aggregation : Aggregation, aggregation ∈ all := by
    intro aggregation
    cases aggregation <;> decide
  rw [ofName?, List.find?_eq_none]
  simp [hall]

theorem ColumnType.ofName?_eq_none_iff {text : String} :
    ofName? text = .none ↔
      ∀ type : ColumnType, type.name.toList ≠ text.toList.map Char.toLower := by
  have hall : ∀ type : ColumnType, type ∈ [string, number, boolean, date] := by
    intro type
    cases type <;> decide
  rw [ofName?, List.find?_eq_none]
  exact ⟨fun h type => by simpa using h type (hall type), fun h type _ => by simpa using h type⟩

theorem makes_policyNamed (name : String) : Makes [.policy name] (policyNamed name) := by
  apply makes_single
  intro e
  constructor
  · intro h
    rw [policyNamed] at h
    split at h
    case h_1 => cases h
    case h_2 hname =>
      cases h
      exact .policy (HitPolicy.ofName?_eq_none_iff.mp hname)
  · intro hfails
    cases hfails with
    | policy h => rw [policyNamed, HitPolicy.ofName?_eq_none_iff.mpr h]

theorem makes_aggregationNamed (name : Option String) :
    Makes [.aggregation name] (aggregationNamed name) := by
  apply makes_single
  intro e
  constructor
  · intro h
    cases name with
    | none => cases h
    | some name =>
      rw [aggregationNamed] at h
      split at h
      case h_1 => cases h
      case h_2 hname =>
        cases h
        exact .aggregation (Aggregation.ofName?_eq_none_iff.mp hname)
  · intro hfails
    cases hfails with
    | aggregation h => rw [aggregationNamed, Aggregation.ofName?_eq_none_iff.mpr h]

theorem ColumnConfig.makes_columnType (c : ColumnConfig) : Makes [.type c] c.columnType := by
  apply makes_single
  intro e
  constructor
  · intro h
    rw [columnType] at h
    split at h
    case h_1 => cases h
    case h_2 name htype =>
      split at h
      case h_1 => cases h
      case h_2 hname =>
        cases h
        exact .type htype (ColumnType.ofName?_eq_none_iff.mp hname)
  · intro hfails
    cases hfails with
    | @type _ name htype h =>
      simp only [columnType, htype, ColumnType.ofName?_eq_none_iff.mpr h]

theorem ColumnConfig.makes_input (c : ColumnConfig) : Makes [.type c] c.input :=
  c.makes_columnType.bind_ok

theorem ColumnConfig.makes_output (c : ColumnConfig) : Makes [.type c] c.output :=
  c.makes_columnType.bind_ok

theorem makes_columnsOf {column : ColumnConfig → Except BuildError Column}
    (h : ∀ c, Makes [.type c] (column c)) (configs : List ColumnConfig) :
    Makes (configs.map .type) (columnsOf column configs) := by
  induction configs with
  | nil => exact makes_ok []
  | cons c rest ih => exact (h c).bind fun d _ => ih.bind_ok

theorem Payload.makes_scalars? (payload : Payload) (position : ℕ) (part : RulePart) :
    Makes [.payload position part payload]
      (payload.scalars?.mapError (.malformedRule position part)) := by
  apply makes_single
  intro e
  constructor
  · intro h
    cases hscalars : payload.scalars? with
    | error fault =>
      rw [hscalars] at h
      cases h
      exact .payload (scalars?_eq_error_iff.mp hscalars)
    | ok members =>
      rw [hscalars] at h
      cases h
  · intro hfails
    cases hfails with
    | payload h =>
      rw [scalars?_eq_error_iff.mpr h]
      rfl

/-- The payloads of rules, those of one rule together, conditions before outputs. -/
def ruleChecks (position : ℕ) (rules : List RuleConfig) : List Check :=
  (rules.zipIdx position).flatMap fun (r, position) =>
    [.payload position .conditions r.conditions, .payload position .outputs r.outputs]

theorem ruleChecks_cons (position : ℕ) (r : RuleConfig) (rest : List RuleConfig) :
    ruleChecks position (r :: rest) =
      [.payload position .conditions r.conditions, .payload position .outputs r.outputs] ++
        ruleChecks (position + 1) rest := rfl

theorem RuleConfig.makes_draft (r : RuleConfig) (position : ℕ) :
    Makes [.payload position .conditions r.conditions, .payload position .outputs r.outputs]
      (r.draft position) :=
  (r.conditions.makes_scalars? position .conditions).bind fun _ _ =>
    (r.outputs.makes_scalars? position .outputs).bind_ok

theorem makes_ruleDrafts (position : ℕ) (rules : List RuleConfig) :
    Makes (ruleChecks position rules) (ruleDrafts position rules) := by
  induction rules generalizing position with
  | nil => exact makes_ok []
  | cons r rest ih =>
    rw [ruleChecks_cons]
    exact (r.makes_draft position).bind fun draft _ => (ih (position + 1)).bind_ok

def RuleConfig.IsFlat (r : RuleConfig) : Prop := r.conditions.IsFlat ∧ r.outputs.IsFlat

theorem forall_passes_ruleChecks_iff {position : ℕ} {rules : List RuleConfig} :
    (∀ check ∈ ruleChecks position rules, check.Passes) ↔ ∀ r ∈ rules, r.IsFlat := by
  induction rules generalizing position with
  | nil => simp [ruleChecks]
  | cons r rest ih =>
    rw [ruleChecks_cons, List.forall_mem_append, ih, List.forall_mem_cons]
    simp [Check.passes_payload_iff, RuleConfig.IsFlat]

/-- The rule at a position is the first with a faulty payload, and the part of it is the first. -/
structure FirstFaulty (rules : List RuleConfig) (r : RuleConfig) (index : ℕ) (part : RulePart)
    (fault : PayloadFault) : Prop where
  rule : rules[index]? = some r
  before : ∀ r' ∈ rules.take index, r'.IsFlat
  conditions : part = .outputs → r.conditions.IsFlat
  faulty : (r.payload part).Faulty fault

theorem FirstFaulty.cons {rules : List RuleConfig} {r r' : RuleConfig} {index : ℕ}
    {part : RulePart} {fault : PayloadFault} (h : FirstFaulty rules r index part fault)
    (hFlat : r'.IsFlat) : FirstFaulty (r' :: rules) r (index + 1) part fault where
  rule := h.rule
  before := List.forall_mem_cons.mpr ⟨hFlat, h.before⟩
  conditions := h.conditions
  faulty := h.faulty

theorem exists_firstFaulty {position n : ℕ} {rules : List RuleConfig} {part : RulePart}
    {fault : PayloadFault} (h : Reports (ruleChecks position rules) (.malformedRule n part fault)) :
    ∃ r index, n = position + index ∧ FirstFaulty rules r index part fault := by
  induction rules generalizing position with
  | nil => cases h
  | cons r rest ih =>
    rw [ruleChecks_cons] at h
    cases h with
    | here hfails =>
      cases hfails with
      | payload hfaulty => exact ⟨r, 0, rfl, rfl, by simp, nofun, hfaulty⟩
    | later hconditions h =>
      rw [Check.passes_payload_iff] at hconditions
      cases h with
      | here hfails =>
        cases hfails with
        | payload hfaulty => exact ⟨r, 0, rfl, rfl, by simp, fun _ => hconditions, hfaulty⟩
      | later houtputs h =>
        rw [Check.passes_payload_iff] at houtputs
        obtain ⟨r', index, rfl, hfirst⟩ := ih h
        exact ⟨r', index + 1, by omega, hfirst.cons ⟨hconditions, houtputs⟩⟩

/-- The names of the columns of a side, each with those before it. -/
def nameChecks (side : ColumnSide) (earlier : List String) : List String → List Check
  | [] => []
  | name :: rest => .name side earlier name :: nameChecks side (earlier ++ [name]) rest

section Names

variable {side : ColumnSide} {earlier : List String} {columns : List Column} {e : BuildError}

theorem payload_not_mem_nameChecks {position : ℕ} {part : RulePart} {payload : Payload}
    {names : List String} :
    Check.payload position part payload ∉ nameChecks side earlier names := by
  induction names generalizing earlier with
  | nil => simp [nameChecks]
  | cons name rest ih => simp [nameChecks, ih]

theorem reports_nameChecks_iff_of_seen {seen : List String}
    (hSeen : ∀ name, name ∈ seen ↔ name ∈ earlier) :
    Reports (nameChecks side earlier (columns.map Column.name)) e ↔
      nameFault? side seen (earlier.length + 1) columns = some e := by
  induction columns generalizing seen earlier with
  | nil => simp [nameChecks, nameFault?]
  | cons c rest ih =>
    rw [List.map_cons, nameChecks, reports_cons, Check.fails_name_iff, Check.passes_name_iff,
      nameFault?]
    have hSeen' : ∀ name, name ∈ c.name :: seen ↔ name ∈ earlier ++ [c.name] := by
      simp [hSeen, or_comm]
    have hrest := ih hSeen'
    rw [List.length_append, List.length_singleton] at hrest
    rw [hrest, ← hSeen]
    split_ifs with hEmpty hDuplicate
    · simp [hEmpty, eq_comm]
    · simp [hEmpty, hDuplicate, eq_comm]
    · simp [hEmpty, hDuplicate]

theorem reports_nameChecks_iff : Reports (nameChecks side [] (columns.map Column.name)) e ↔
    nameFault? side [] 1 columns = some e :=
  reports_nameChecks_iff_of_seen fun _ => Iff.rfl

theorem forall_passes_nameChecks_iff :
    (∀ check ∈ nameChecks side [] (columns.map Column.name), check.Passes) ↔
      nameFault? side [] 1 columns = none := by
  rw [forall_passes_iff, Option.eq_none_iff_forall_ne_some]
  simp only [reports_nameChecks_iff, ne_eq]

theorem forall_passes_names_iff {configs : List ColumnConfig} :
    (∀ check ∈ nameChecks side [] (configs.map ColumnConfig.name), check.Passes) ↔
      (∀ c ∈ configs, c.name ≠ "") ∧ (configs.map ColumnConfig.name).Nodup := by
  -- Only the names of the columns count.
  let columns : List Column := configs.map fun c => ⟨c.name, .string, none, none⟩
  have hnames : columns.map Column.name = configs.map ColumnConfig.name := by
    simp [columns, Function.comp_def]
  rw [← hnames, forall_passes_nameChecks_iff, nameFault?_eq_none_iff, ProperlyNamed]
  simp [columns]

theorem Draft.makes_build (draft : Draft) :
    Makes (nameChecks .input [] (draft.inputs.map Column.name) ++
      nameChecks .output [] (draft.outputs.map Column.name)) draft.build := by
  intro e
  rw [reports_append, forall_passes_nameChecks_iff, reports_nameChecks_iff, reports_nameChecks_iff,
    build_eq_error_iff]

end Names

theorem ColumnConfig.map_name_eq {configs : List ColumnConfig} {columns : List Column}
    {expression : ColumnConfig → Option String} {default : ColumnConfig → Option Value}
    (h : List.Forall₂ (fun c => c.IsColumn (expression c) (default c)) configs columns) :
    columns.map Column.name = configs.map ColumnConfig.name := by
  induction h with
  | nil => rfl
  | cons hcolumn _ ih => rw [List.map_cons, List.map_cons, hcolumn.name, ih]

namespace TableConfig

/-- What is checked before a configuration is built, in the order of the checks. -/
def checks (t : TableConfig) : List Check :=
  [.policy t.policy] ++ ([.aggregation t.aggregation] ++ (t.inputs.map .type ++
    (t.outputs.map .type ++ ruleChecks 1 t.rules))) ++
    (nameChecks .input [] (t.inputs.map ColumnConfig.name) ++
      nameChecks .output [] (t.outputs.map ColumnConfig.name))

variable {t : TableConfig}

theorem makes_draft (t : TableConfig) :
    Makes ([.policy t.policy] ++ ([.aggregation t.aggregation] ++ (t.inputs.map .type ++
      (t.outputs.map .type ++ ruleChecks 1 t.rules)))) t.draft := by
  apply (makes_policyNamed t.policy).bind
  intro policy _
  apply (makes_aggregationNamed t.aggregation).bind
  intro aggregation _
  apply (makes_columnsOf ColumnConfig.makes_input t.inputs).bind
  intro inputs _
  apply (makes_columnsOf ColumnConfig.makes_output t.outputs).bind
  intro outputs _
  exact (makes_ruleDrafts 1 t.rules).bind_ok

theorem makes_build (t : TableConfig) : Makes t.checks t.build := by
  apply t.makes_draft.bind
  intro draft hdraft
  obtain ⟨hdeclares, _⟩ := declares_of_draft_eq_ok hdraft
  rw [← ColumnConfig.map_name_eq hdeclares.inputs, ← ColumnConfig.map_name_eq hdeclares.outputs]
  exact draft.makes_build

/-- All names are known, and the payloads of all rules flat. On each side the names of columns are
distinct, and none is empty. -/
structure WellFormed (t : TableConfig) : Prop where
  policy : ∃ policy : HitPolicy, policy.name = t.policy
  aggregation : ∀ name ∈ t.aggregation, ∃ aggregation : Aggregation, aggregation.name = name
  types : ∀ c ∈ t.inputs ++ t.outputs, c.HasKnownType
  rules : ∀ r ∈ t.rules, r.IsFlat
  inputs : (∀ c ∈ t.inputs, c.name ≠ "") ∧ (t.inputs.map ColumnConfig.name).Nodup
  outputs : (∀ c ∈ t.outputs, c.name ≠ "") ∧ (t.outputs.map ColumnConfig.name).Nodup

theorem forall_passes_checks_iff :
    (∀ check ∈ t.checks, check.Passes) ↔ t.WellFormed := by
  simp only [checks, List.forall_mem_append, List.forall_mem_singleton, List.forall_mem_map,
    Check.passes_policy_iff, Check.passes_aggregation_iff, Check.passes_type_iff,
    forall_passes_ruleChecks_iff, forall_passes_names_iff]
  constructor
  · rintro ⟨⟨hpolicy, haggregation, hinputs, houtputs, hrules⟩, hinputNames, houtputNames⟩
    exact ⟨hpolicy, haggregation, List.forall_mem_append.mpr ⟨hinputs, houtputs⟩, hrules,
      hinputNames, houtputNames⟩
  · rintro ⟨hpolicy, haggregation, htypes, hrules, hinputNames, houtputNames⟩
    obtain ⟨hinputs, houtputs⟩ := List.forall_mem_append.mp htypes
    exact ⟨⟨hpolicy, haggregation, hinputs, houtputs, hrules⟩, hinputNames, houtputNames⟩

theorem reports_ruleChecks {position : ℕ} {part : RulePart} {fault : PayloadFault}
    (h : Reports t.checks (.malformedRule position part fault)) :
    Reports (ruleChecks 1 t.rules) (.malformedRule position part fault) := by
  simp only [checks, reports_append] at h
  rcases h with (h | ⟨-, h | ⟨-, h | ⟨-, h | ⟨-, h⟩⟩⟩⟩) | ⟨-, h | ⟨-, h⟩⟩
  case inl.inr.inr.inr.inr => exact h
  all_goals
    obtain ⟨check, hmem, hfails⟩ := h.exists_fails
    cases hfails
    simp [payload_not_mem_nameChecks] at hmem

/-- A configuration builds exactly if it is well formed, and otherwise the first check that fails
gives the error. The error of a malformed rule has the position of the first rule with a faulty
payload, and the place in the first of its payloads that is faulty. -/
theorem build_checked (t : TableConfig) :
    ((∃ table, t.build = .ok table) ↔ t.WellFormed) ∧
      (∀ e, t.build = .error e ↔ Reports t.checks e) ∧
      ∀ position part fault, t.build = .error (.malformedRule position part fault) →
        ∃ r index, position = index + 1 ∧ FirstFaulty t.rules r index part fault ∧
          (r.payload part).FaultyAt part.name (fault.place part) := by
  refine ⟨t.makes_build.exists_ok_iff.trans forall_passes_checks_iff, t.makes_build, ?_⟩
  intro position part fault h
  have hreports := reports_ruleChecks ((t.makes_build _).mp h)
  obtain ⟨r, index, rfl, hfirst⟩ := exists_firstFaulty hreports
  exact ⟨r, index, Nat.add_comm 1 index, hfirst, hfirst.faulty.faultyAt part⟩

end TableConfig
end DecisionTables
