import DecisionTables.Value.Basic
import DecisionTables.Proofs.Number.Numeral
import Mathlib

/-!
# The texts of values

A string is displayed between double quotes and may hold anything. Truth values and finite numbers
are displayed without white space, without commas and with at most one dot, which comes after a
digit.
-/
namespace DecisionTables.Value
open Text

def IsPlain : Value → Prop
  | bool _ => True
  | number (.finite _) => True
  | string _ => True
  | _ => False

inductive Shown : List Char → Value → Prop
  | quoted (s : String) : Shown ('"' :: (s.toList ++ ['"'])) (.string s)
  | plus {numeral : List Char} {d : Decimal} {x : FiniteNumber} (h : Numeral numeral d)
      (hSign : x.negative = false) (hValue : d.toNumber false = .finite x) :
      Shown numeral (.number (.finite x))
  | minus {numeral : List Char} {d : Decimal} {x : FiniteNumber} (h : Numeral numeral d)
      (hSign : x.negative = true) (hValue : d.toNumber true = .finite x) :
      Shown ('-' :: numeral) (.number (.finite x))
  | yes : Shown ['t', 'r', 'u', 'e'] (.bool true)
  | no : Shown ['f', 'a', 'l', 's', 'e'] (.bool false)

theorem shown_toText {v : Value} (h : v.IsPlain) : Shown v.toText.toList v := by
  rcases v with _ | (_ | _) | (_ | _ | x) | s | _
  · cases h
  · exact .no
  · exact .yes
  · cases h
  · cases h
  · obtain ⟨numeral, d, hnumeral, hvalue, htext⟩ := x.exists_numeral_display
    have hchars : (number (.finite x)).toText.toList = x.toChars .display := String.toList_ofList
    rw [hchars, htext]
    cases hsign : x.negative with
    | true =>
      rw [hsign] at hvalue
      exact .minus hnumeral hsign hvalue
    | false =>
      rw [hsign] at hvalue
      exact .plus hnumeral hsign hvalue
  · have hchars : (string s).toText.toList = '"' :: (s.toList ++ ['"']) := by
      simp only [toText, String.toList_append]
      rfl
    rw [hchars]
    exact .quoted s
  · cases h

/-- A text without white space and commas, in which at most one dot stands, and not at its start. -/
structure Bare (text : List Char) : Prop where
  ne_nil : text ≠ []
  space : ∀ c ∈ text, isSpace c = false
  comma : ',' ∉ text
  dots : text.count '.' ≤ 1
  head : text.head? ≠ some '.'

theorem isSpace_eq_false_of_isNumeralPart {c : Char} (h : isNumeralPart c = true) :
    isSpace c = false := by
  by_contra hspace
  have hpart : isNumeralPart c = false := eq_false_of_isSpace (by decide) (by simpa using hspace)
  rw [hpart] at h
  cases h

theorem bare_numeral {numeral : List Char} {d : Decimal} (h : Numeral numeral d) :
    Bare numeral := by
  have hpart := h.isNumeralPart_of_mem
  refine ⟨?_, fun c hc => isSpace_eq_false_of_isNumeralPart (hpart c hc), ?_, h.count_dot_le, ?_⟩
  · obtain ⟨c, rest, rfl, _⟩ := h.exists_head
    exact List.cons_ne_nil _ _
  · intro hcomma
    cases hpart ',' hcomma
  · obtain ⟨c, rest, rfl, hc⟩ := h.exists_head
    intro hdot
    cases hdot
    cases hc

theorem Bare.minus {text : List Char} (h : Bare text) : Bare ('-' :: text) := by
  refine ⟨List.cons_ne_nil _ _, ?_, ?_, ?_, ?_⟩
  · intro c hc
    rcases List.mem_cons.mp hc with rfl | hc
    · rfl
    · exact h.space c hc
  · simpa using h.comma
  · simpa using h.dots
  · simp

variable {text : List Char} {v : Value}

/-- Only strings are shown with white space, commas or more than one dot. -/
theorem Shown.bare_or_quoted (h : Shown text v) :
    Bare text ∨ ∃ s : String, v = .string s ∧ text = '"' :: (s.toList ++ ['"']) := by
  cases h with
  | quoted s => exact .inr ⟨s, rfl, rfl⟩
  | plus h hSign hValue => exact .inl (bare_numeral h)
  | minus h hSign hValue => exact .inl (bare_numeral h).minus
  | yes => exact .inl ⟨by simp, by simp [isSpace, spaceCodes], by simp, by simp, by simp⟩
  | no => exact .inl ⟨by simp, by simp [isSpace, spaceCodes], by simp, by simp, by simp⟩

theorem Shown.ne_nil (h : Shown text v) : text ≠ [] := by
  rcases h.bare_or_quoted with hbare | ⟨s, rfl, rfl⟩
  · exact hbare.ne_nil
  · exact List.cons_ne_nil _ _

theorem Shown.startsOutside (h : Shown text v) : StartsOutside isSpace text := by
  rcases h.bare_or_quoted with hbare | ⟨s, rfl, rfl⟩
  · exact fun c hc => hbare.space c (List.mem_of_mem_head? hc)
  · exact startsOutside_cons rfl

theorem Shown.endsOutsideSpace (h : Shown text v) : EndsOutsideSpace text := by
  rcases h.bare_or_quoted with hbare | ⟨s, rfl, rfl⟩
  · exact fun c hc => hbare.space c (List.mem_of_getLast? hc)
  · rw [← List.cons_append]
    exact endsOutsideSpace_concat rfl

theorem Shown.trim_eq (h : Shown text v) : trim text = text :=
  trim_eq_self h.startsOutside h.endsOutsideSpace

theorem Shown.head?_ne_dot (h : Shown text v) : text.head? ≠ some '.' := by
  rcases h.bare_or_quoted with hbare | ⟨s, rfl, rfl⟩
  · exact hbare.head
  · simp

theorem Shown.comma_not_mem (h : Shown text v) (hv : ∀ s, v = .string s → ',' ∉ s.toList) :
    ',' ∉ text := by
  rcases h.bare_or_quoted with hbare | ⟨s, rfl, rfl⟩
  · exact hbare.comma
  · simpa using hv s rfl

/-- The quotes around a string make no two dots of one. -/
theorem Shown.dots_not_infix (h : Shown text v)
    (hv : ∀ s, v = .string s → ¬ ['.', '.'] <:+: s.toList) : ¬ ['.', '.'] <:+: text := by
  intro hdots
  rcases h.bare_or_quoted with hbare | ⟨s, rfl, rfl⟩
  · have hle := hdots.sublist.count_le '.'
    have htwo : ['.', '.'].count '.' = 2 := rfl
    have hone := hbare.dots
    omega
  · refine hv s rfl ?_
    rcases List.infix_cons_iff.mp hdots with hprefix | hdots
    · simp at hprefix
    · rcases List.infix_concat_iff.mp hdots with hsuffix | hdots
      · obtain ⟨front, hfront⟩ := hsuffix
        have hlast := congrArg List.getLast? hfront
        simp at hlast
      · exact hdots

end DecisionTables.Value
