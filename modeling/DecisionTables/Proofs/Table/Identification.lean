import DecisionTables.Proofs.Calendar.Printing
import DecisionTables.Table.Evaluation
import Mathlib

/-!
# What the JSON of an outcome tells apart

The flat object of an outcome does not say which kind of decision it writes. Main statement: without
additions it tells a single decision from several, and one output from another, except that numbers
which are not finite look like null, and dates like their texts and like dates with the same text.
-/
namespace DecisionTables

/-- JSON values are equal up to the sign of zero; the members of an object have no order. -/
inductive Json.Equal : Json → Json → Prop
  | null : Equal null null
  | bool (b : Bool) : Equal (bool b) (bool b)
  | int (i : ℤ) : Equal (int i) (int i)
  | real {x y : FiniteNumber} (h : x.order y = .eq) : Equal (real x) (real y)
  | string (text : String) : Equal (string text) (string text)
  | array {items items' : List Json} (h : List.Forall₂ Equal items items') :
      Equal (array items) (array items')
  | object {members members' : List (String × Json)}
      (h : ∀ name, Option.Rel Equal (members.lookup name) (members'.lookup name)) :
      Equal (object members) (object members')

theorem Json.equal_array_iff {items items' : List Json} :
    Equal (array items) (array items') ↔ List.Forall₂ Equal items items' := by
  refine ⟨fun h => ?_, .array⟩
  cases h with
  | array h => exact h

theorem Json.equal_ofFields_iff {a b : Fields Json} :
    Equal (ofFields a) (ofFields b) ↔
      ∀ name, Option.Rel Equal (a.get? name) (b.get? name) := by
  refine ⟨fun h => ?_, .object⟩
  cases h with
  | object h => exact h

namespace Value

/-- Null, or a number that is not finite. -/
def IsVoid : Value → Prop
  | null => True
  | number x => x.finite? = none
  | _ => False

/-- Equal values, and those that JSON does not tell apart: what is void, a date and its text, and
so two dates with one text. -/
inductive Identified : Value → Value → Prop
  | equal {v w : Value} (h : v.equal w = true) : Identified v w
  | void {v w : Value} (hv : v.IsVoid) (hw : w.IsVoid) : Identified v w
  | dateText (a : Calendar.Instant) : Identified (date a) (string (a.toText .offset))
  | textDate (a : Calendar.Instant) : Identified (string (a.toText .offset)) (date a)
  | dates {a b : Calendar.Instant} (h : a.toText .offset = b.toText .offset) :
      Identified (date a) (date b)

variable {v w : Value} {zone : Calendar.Zone}

theorem toJson_eq_null_iff : v.toJson zone = .null ↔ v.IsVoid := by
  cases v with
  | number x => cases x <;> simp [toJson, IsVoid, Number.finite?]
  | _ => simp [toJson, IsVoid]

theorem toJson_eq_bool_iff {b : Bool} : v.toJson zone = .bool b ↔ v = .bool b := by
  cases v with
  | number x => cases x <;> simp [toJson]
  | _ => simp [toJson]

theorem toJson_eq_real_iff {x : FiniteNumber} :
    v.toJson zone = .real x ↔ v = .number (.finite x) := by
  cases v with
  | number y => cases y <;> simp [toJson]
  | _ => simp [toJson]

theorem toJson_eq_string_iff {text : String} :
    v.toJson zone = .string text ↔ v = .string text ∨ ∃ a, v = .date a ∧ a.toText zone = text := by
  cases v with
  | number x => cases x <;> simp [toJson]
  | _ => simp [toJson]

/-- No value is written as a whole number, as an array or as an object. -/
theorem toJson_ne (zone : Calendar.Zone) (v : Value) :
    (∀ i, v.toJson zone ≠ .int i) ∧ (∀ items, v.toJson zone ≠ .array items) ∧
      ∀ members, v.toJson zone ≠ .object members := by
  cases v with
  | number x => cases x <;> simp [toJson]
  | _ => simp [toJson]

theorem not_equal_array (v : Value) (items : List Json) :
    ¬ Json.Equal (v.toJson zone) (.array items) ∧ ¬ Json.Equal (.array items) (v.toJson zone) := by
  have hne := (toJson_ne zone v).2.1
  generalize v.toJson zone = j at hne
  constructor
  · intro h
    cases h with
    | array => exact hne _ rfl
  · intro h
    cases h with
    | array => exact hne _ rfl

theorem not_rel_array (v? : Option Value) (items : List Json) :
    ¬ Option.Rel Json.Equal (v?.map (toJson zone)) (some (.array items)) ∧
      ¬ Option.Rel Json.Equal (some (.array items)) (v?.map (toJson zone)) := by
  cases v? with
  | none => exact ⟨nofun, nofun⟩
  | some v => simpa only [Option.map_some, Option.rel_some_some] using v.not_equal_array items

theorem equal_finite_iff {x y : FiniteNumber} :
    (number (.finite x)).equal (number (.finite y)) = true ↔ x.order y = .eq := by
  simp [equal, Number.equal, Number.order?]

theorem identified_of_equal_toJson (h : Json.Equal (v.toJson .offset) (w.toJson .offset)) :
    v.Identified w := by
  generalize hv : v.toJson .offset = j at h
  generalize hw : w.toJson .offset = j' at h
  cases h with
  | null => exact .void (toJson_eq_null_iff.mp hv) (toJson_eq_null_iff.mp hw)
  | bool b =>
    rw [toJson_eq_bool_iff] at hv hw
    subst hv hw
    exact .equal (beq_self_eq_true b)
  | int i => exact absurd hv ((toJson_ne _ v).1 i)
  | real h =>
    rw [toJson_eq_real_iff] at hv hw
    subst hv hw
    exact .equal (equal_finite_iff.mpr h)
  | string text =>
    rw [toJson_eq_string_iff] at hv hw
    rcases hv with rfl | ⟨a, rfl, hv⟩ <;> rcases hw with rfl | ⟨b, rfl, hw⟩
    · exact .equal (beq_self_eq_true text)
    · subst hw
      exact .textDate b
    · subst hv
      exact .dateText a
    · exact .dates (hv.trans hw.symm)
  | array => exact absurd hv ((toJson_ne _ v).2.1 _)
  | object => exact absurd hv ((toJson_ne _ v).2.2 _)

/-- Equal numbers are equal finite numbers, or infinite both. -/
theorem finite_or_isVoid_of_equal {x y : Number} (h : x.equal y = true) :
    (∃ x' y', x = .finite x' ∧ y = .finite y' ∧ x'.order y' = .eq) ∨
      (number x).IsVoid ∧ (number y).IsVoid := by
  rcases x with _ | ⟨_ | _⟩ | x <;> rcases y with _ | ⟨_ | _⟩ | y <;>
    simp_all [Number.equal, Number.order?, IsVoid, Number.finite?]

theorem equal_toJson_of_isVoid (hv : v.IsVoid) (hw : w.IsVoid) :
    Json.Equal (v.toJson zone) (w.toJson zone) := by
  rw [toJson_eq_null_iff.mpr hv, toJson_eq_null_iff.mpr hw]
  exact .null

theorem equal_toJson_of_equal (h : v.equal w = true) :
    Json.Equal (v.toJson zone) (w.toJson zone) := by
  cases v <;> cases w <;> try cases h
  case null.null => exact .null
  case bool.bool b c =>
    obtain rfl := beq_iff_eq.mp h
    exact .bool b
  case number.number x y =>
    rcases finite_or_isVoid_of_equal h with ⟨x, y, rfl, rfl, horder⟩ | ⟨hx, hy⟩
    · exact .real horder
    · exact equal_toJson_of_isVoid hx hy
  case string.string s t =>
    obtain rfl := beq_iff_eq.mp h
    exact .string s
  case date.date a b =>
    obtain rfl := beq_iff_eq.mp h
    exact .string _

theorem equal_toJson_iff :
    Json.Equal (v.toJson .offset) (w.toJson .offset) ↔ v.Identified w := by
  refine ⟨identified_of_equal_toJson, fun h => ?_⟩
  cases h with
  | equal h => exact equal_toJson_of_equal h
  | void hv hw => exact equal_toJson_of_isVoid hv hw
  | dateText a => exact .string _
  | textDate a => exact .string _
  | dates h =>
    rw [toJson, toJson, h]
    exact .string _

/-- Two dates are identified only if they are equal but for a leap second inside a minute. -/
theorem identified_date_iff {a b : Calendar.Instant} :
    (date a).Identified (date b) ↔ a.shown = b.shown := by
  rw [← Calendar.Instant.toText_eq_iff]
  constructor
  · intro h
    cases h with
    | equal h =>
      obtain rfl := beq_iff_eq.mp h
      rfl
    | void hv => exact hv.elim
    | dates h => exact h
  · exact .dates

end Value

def Outputs.Identified (a b : Outputs) : Prop :=
  ∀ column, Option.Rel Value.Identified (a.get? column) (b.get? column)

inductive Decision.Identified : Decision → Decision → Prop
  | single {a b : Outputs} (h : a.Identified b) : Identified (single a) (single b)
  | multiple {as bs : List Outputs} (h : List.Forall₂ Outputs.Identified as bs) :
      Identified (multiple as) (multiple bs)

theorem rel_map_toJson_iff {v? w? : Option Value} :
    Option.Rel Json.Equal (v?.map (Value.toJson .offset)) (w?.map (Value.toJson .offset)) ↔
      Option.Rel Value.Identified v? w? := by
  cases v? with
  | none =>
    cases w? with
    | none => exact iff_of_true .none .none
    | some w => exact iff_of_false nofun nofun
  | some v =>
    cases w? with
    | none => exact iff_of_false nofun nofun
    | some w =>
      rw [Option.map_some, Option.map_some, Option.rel_some_some, Option.rel_some_some,
        Value.equal_toJson_iff]

theorem Outputs.equal_toJson_iff {a b : Outputs} :
    Json.Equal (a.toJson .offset) (b.toJson .offset) ↔ a.Identified b := by
  simp only [toJson, Json.equal_ofFields_iff, Fields.get?_map, rel_map_toJson_iff, Identified]

theorem Outputs.forall₂_equal_toJson_iff {as bs : List Outputs} :
    List.Forall₂ Json.Equal (as.map (toJson .offset)) (bs.map (toJson .offset)) ↔
      List.Forall₂ Identified as bs := by
  rw [List.forall₂_map_left_iff, List.forall₂_map_right_iff]
  constructor
  · exact fun h => h.imp fun _ _ => equal_toJson_iff.mp
  · exact fun h => h.imp fun _ _ => equal_toJson_iff.mpr

namespace Decision

theorem get?_members_multiple (list : List Outputs) (name : String) :
    (multiple list).members.get? name =
      if name = "results" then some (.array (list.map (Outputs.toJson .offset))) else none := by
  rw [members, Fields.get?_insert, Fields.get?_empty]

/-- An output in the place of the list of several outputs is no list. -/
theorem not_equal_members (a : Outputs) (list : List Outputs) :
    ¬ Json.Equal (.ofFields (single a).members) (.ofFields (multiple list).members) ∧
      ¬ Json.Equal (.ofFields (multiple list).members) (.ofFields (single a).members) := by
  have hsingle : (single a).members.get? "results" =
      (a.get? "results").map (Value.toJson .offset) := Fields.get?_map _ a _
  have hlist := get?_members_multiple list "results"
  rw [if_pos rfl] at hlist
  constructor
  · intro h
    have hresults := Json.equal_ofFields_iff.mp h "results"
    rw [hsingle, hlist] at hresults
    exact (Value.not_rel_array _ _).1 hresults
  · intro h
    have hresults := Json.equal_ofFields_iff.mp h "results"
    rw [hsingle, hlist] at hresults
    exact (Value.not_rel_array _ _).2 hresults

theorem equal_multiple_iff {as bs : List Outputs} :
    Json.Equal (.ofFields (multiple as).members) (.ofFields (multiple bs).members) ↔
      List.Forall₂ Outputs.Identified as bs := by
  rw [Json.equal_ofFields_iff, ← Outputs.forall₂_equal_toJson_iff, ← Json.equal_array_iff]
  constructor
  · intro h
    have hresults := h "results"
    rwa [get?_members_multiple, get?_members_multiple, if_pos rfl, if_pos rfl,
      Option.rel_some_some] at hresults
  · intro h name
    rw [get?_members_multiple, get?_members_multiple]
    split_ifs
    · exact .some h
    · exact .none

theorem equal_members_iff {d d' : Decision} :
    Json.Equal (.ofFields d.members) (.ofFields d'.members) ↔ d.Identified d' := by
  cases d with
  | single a =>
    cases d' with
    | single b =>
      refine Outputs.equal_toJson_iff.trans ⟨.single, fun h => ?_⟩
      cases h with
      | single h => exact h
    | multiple bs => exact iff_of_false (not_equal_members a bs).1 nofun
  | multiple as =>
    cases d' with
    | single b => exact iff_of_false (not_equal_members b as).2 nofun
    | multiple bs =>
      refine equal_multiple_iff.trans ⟨.multiple, fun h => ?_⟩
      cases h with
      | multiple h => exact h

end Decision

namespace Table

variable {table table' : Table} {record record' : FactRecord} {strict strict' : Bool}
  {outcome outcome' : Outcome}

theorem toJson_of_evaluate (h : table.evaluate record ⟨strict, false, false⟩ = .ok outcome) :
    outcome.toJson = .ofFields outcome.decision.members := by
  obtain ⟨decision, -, -, rfl⟩ := evaluate_eq_ok_iff.mp h
  rfl

/-- Two outcomes without additions are written as equal JSON exactly if their decisions are of one
kind and JSON does not tell their outputs apart. -/
theorem equal_toJson_iff_identified
    (h : table.evaluate record ⟨strict, false, false⟩ = .ok outcome)
    (h' : table'.evaluate record' ⟨strict', false, false⟩ = .ok outcome') :
    Json.Equal outcome.toJson outcome'.toJson ↔
      outcome.decision.Identified outcome'.decision := by
  rw [toJson_of_evaluate h, toJson_of_evaluate h']
  exact Decision.equal_members_iff

end Table

def stampDraft (v : Value) : Draft where
  policy := .first
  aggregation := .none
  inputs := []
  outputs := []
  rules := [⟨none, [], [("at", v)], none, none⟩]

def newYear : Calendar.Instant := ⟨1704067200, 0, by decide, by decide, by decide⟩

theorem Table.equal_toJson_iff_identified_newYear :
    ∃ table table' outcome outcome',
      (stampDraft (.date newYear)).build = .ok table ∧
      (stampDraft (.string "2024-01-01T00:00:00+00:00")).build = .ok table' ∧
      table.evaluate .empty ⟨false, false, false⟩ = .ok outcome ∧
      table'.evaluate .empty ⟨true, false, false⟩ = .ok outcome' ∧
      outcome.decision ≠ outcome'.decision ∧ Json.Equal outcome.toJson outcome'.toJson := by
  have htext : newYear.toText .offset = "2024-01-01T00:00:00+00:00" := by decide +kernel
  rw [← htext]
  obtain ⟨table, hbuild, outcome, houtcome, hdecision⟩ :
      ∃ table, (stampDraft (.date newYear)).build = .ok table ∧
        ∃ outcome, table.evaluate .empty ⟨false, false, false⟩ = .ok outcome ∧
          outcome.decision = .single (Fields.empty.insert "at" (.date newYear)) :=
    ⟨_, rfl, _, rfl, rfl⟩
  obtain ⟨table', hbuild', outcome', houtcome', hdecision'⟩ :
      ∃ table, (stampDraft (.string (newYear.toText .offset))).build = .ok table ∧
        ∃ outcome, table.evaluate .empty ⟨true, false, false⟩ = .ok outcome ∧
          outcome.decision =
            .single (Fields.empty.insert "at" (.string (newYear.toText .offset))) :=
    ⟨_, rfl, _, rfl, rfl⟩
  have hidentified : outcome.decision.Identified outcome'.decision := by
    rw [hdecision, hdecision']
    refine .single fun column => ?_
    rw [Fields.get?_insert, Fields.get?_insert, Fields.get?_empty]
    split_ifs
    · exact .some (.dateText newYear)
    · exact .none
  have hne : outcome.decision ≠ outcome'.decision := by
    rw [hdecision, hdecision']
    rintro ⟨⟩
  exact ⟨table, table', outcome, outcome', hbuild, hbuild', houtcome, houtcome', hne,
    (Table.equal_toJson_iff_identified houtcome houtcome').mpr hidentified⟩

end DecisionTables
