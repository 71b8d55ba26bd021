import DecisionTables.Value.Basic
import DecisionTables.Proofs.Calendar.Forms
import Mathlib

/-!
# Readings of strings

A number goes on after its digits with a point or an exponent, a date with a hyphen, and a truth
value has no digits. Main statement: a string has at most one of the three readings, so it is
comparable with values of at most one kind besides strings, and where it is a date it is so in one
form only.
-/
namespace DecisionTables.Value
open Text Calendar

variable {text : String}

/-- Digits before a hyphen are not the start of a number. -/
theorem numeric?_of_hyphen {chars run rest : List Char}
    (h : (splitSign chars).2 = run ++ '-' :: rest) (hrun : IsDigits run) :
    numeric? chars = none := by
  have hspan : spanDigits (run ++ '-' :: rest) = (run, '-' :: rest) :=
    spanDigits_run hrun (startsOutside_cons rfl)
  have hfraction : spanFraction ('-' :: rest) = ([], '-' :: rest) := rfl
  have hexponent : exponent? ('-' :: rest) = none := by simp [exponent?]
  simp [numeric?, h, hspan, hfraction, hexponent]

theorem numberOf?_of_dateOf? {a : Instant} (h : dateOf? text = some a) : numberOf? text = none := by
  obtain ⟨run, rest, hchars, hrun⟩ := Instant.exists_run_of_ofText? h
  rw [numberOf?, Text.number?, numeric?_of_hyphen hchars hrun]
  rfl

theorem boolOf?_eq_some {b : Bool} (h : boolOf? text = some b) :
    text = "true" ∨ text = "false" := by
  unfold boolOf? at h
  split_ifs at h with htrue hfalse
  · exact .inl htrue
  · exact .inr hfalse

theorem numberOf?_of_boolOf? {b : Bool} (h : boolOf? text = some b) : numberOf? text = none := by
  rcases boolOf?_eq_some h with rfl | rfl <;> decide

theorem dateOf?_of_boolOf? {b : Bool} (h : boolOf? text = some b) : dateOf? text = none := by
  rcases boolOf?_eq_some h with rfl | rfl <;> decide

/-- The reading of a string as a value of another kind. Null is not read from strings. -/
def readAs? : Kind → String → Option Value
  | .number, text => (numberOf? text).map number
  | .boolean, text => (boolOf? text).map bool
  | .date, text => (dateOf? text).map date
  | _, _ => none

theorem kind_of_readAs? {kind : Kind} {v : Value} (h : readAs? kind text = some v) :
    v.kind = kind := by
  cases kind with
  | null => cases h
  | string => cases h
  | _ =>
    obtain ⟨_, -, rfl⟩ := Option.map_eq_some_iff.mp h
    rfl

/-- Values of a kind compare with a string as they compare with its reading. -/
theorem order?_string_of_readAs? {v w : Value} (h : readAs? w.kind text = some v) :
    w.order? (string text) = w.order? v := by
  cases w with
  | null => cases h
  | string s => cases h
  | _ =>
    obtain ⟨_, hread, rfl⟩ := Option.map_eq_some_iff.mp h
    simp [order?, hread]

theorem eq_of_readAs?_ne_none {kind kind' : Kind} (h : readAs? kind text ≠ none)
    (h' : readAs? kind' text ≠ none) : kind = kind' := by
  cases hbool : boolOf? text with
  | some b =>
    have hnumber := numberOf?_of_boolOf? hbool
    have hdate := dateOf?_of_boolOf? hbool
    cases kind <;> cases kind' <;> simp [readAs?, hnumber, hdate] at h h' ⊢
  | none =>
    cases hdate : dateOf? text with
    | some a =>
      have hnumber := numberOf?_of_dateOf? hdate
      cases kind <;> cases kind' <;> simp [readAs?, hnumber, hbool] at h h' ⊢
    | none => cases kind <;> cases kind' <;> simp [readAs?, hbool, hdate] at h h' ⊢

/-- A string is comparable with some value of another kind if it has a reading of that kind. -/
theorem exists_order?_ne_none_iff {kind : Kind} (hkind : kind ≠ .string) :
    (∃ v : Value, v.kind = kind ∧ v.order? (string text) ≠ none) ↔ readAs? kind text ≠ none := by
  constructor
  · rintro ⟨v, rfl, hv⟩
    cases v with
    | null => exact absurd rfl hv
    | bool b => simpa [readAs?, Value.kind, order?] using hv
    | number x =>
      intro hnone
      have hnumber : numberOf? text = none := Option.map_eq_none_iff.mp hnone
      exact hv (by rw [order?, hnumber, Option.bind_none])
    | string s => exact absurd rfl hkind
    | date a => simpa [readAs?, Value.kind, order?] using hv
  · intro h
    obtain ⟨v, hv⟩ := Option.ne_none_iff_exists'.mp h
    cases kind with
    | null => cases hv
    | boolean =>
      obtain ⟨b, hb, -⟩ := Option.map_eq_some_iff.mp hv
      exact ⟨bool b, rfl, by simp [order?, hb]⟩
    | number =>
      -- Every reading is finite, and so comparable with zero.
      obtain ⟨x, hx, -⟩ := Option.map_eq_some_iff.mp hv
      obtain ⟨y, -, rfl⟩ := Option.map_eq_some_iff.mp hx
      exact ⟨number .zero, rfl, by simp [order?, hx, Number.zero, Number.order?]⟩
    | string => cases hv
    | date =>
      obtain ⟨a, ha, -⟩ := Option.map_eq_some_iff.mp hv
      exact ⟨date a, rfl, by simp [order?, ha]⟩

/-- A string is read as a value of one other kind at most and compares with values of no further
kind, and of the forms of a date it has one at most. -/
structure SinglyRead (text : String) : Prop where
  kind_eq : ∀ v w : Value, v.kind ≠ .string → w.kind ≠ .string →
    v.order? (string text) ≠ none → w.order? (string text) ≠ none → v.kind = w.kind
  comparable_iff : ∀ kind, kind ≠ .string →
    ((∃ v : Value, v.kind = kind ∧ v.order? (string text) ≠ none) ↔ readAs? kind text ≠ none)
  reading : [(numberOf? text).isSome, (boolOf? text).isSome, (dateOf? text).isSome].count true ≤ 1
  form : Instant.forms.Pairwise fun read read' =>
    read (trim text.toList) = none ∨ read' (trim text.toList) = none
  order : ∀ readers : List (List Char → Option Instant), readers.Perm Instant.forms →
    readers.findSome? (fun read => read (trim text.toList)) = dateOf? text

theorem singlyRead (text : String) : SinglyRead text where
  kind_eq v w hv hw hcomparable hcomparable' := eq_of_readAs?_ne_none
    ((exists_order?_ne_none_iff hv).mp ⟨v, rfl, hcomparable⟩)
    ((exists_order?_ne_none_iff hw).mp ⟨w, rfl, hcomparable'⟩)
  comparable_iff _ := exists_order?_ne_none_iff
  reading := by
    have heq := fun kind kind' => @eq_of_readAs?_ne_none text kind kind'
    have hnumberBool := heq .number .boolean
    have hnumberDate := heq .number .date
    have hboolDate := heq .boolean .date
    cases hnumber : numberOf? text <;> cases hbool : boolOf? text <;>
      cases hdate : dateOf? text <;>
      simp [readAs?, hnumber, hbool, hdate] at hnumberBool hnumberDate hboolDate ⊢
  form := Instant.forms_pairwise _
  order _ h := Instant.findSome?_eq_ofText? h _

end DecisionTables.Value
