import DecisionTables.Condition.Cell
import DecisionTables.Proofs.Value.Text
import Mathlib

/-!
# Scalars and their texts

The scalar reader takes the quotes off a text that starts and ends with the same one, and reads
plain numerals with an optional minus. Truth values, finite numbers and strings are displayed so
that it gives them back. On one line they can be operands of a cell.
-/
namespace DecisionTables.Cell
open Text

/-- A text that starts and ends with the same quote, and what stands between the two. A quote alone
is both the start and the end, and nothing stands between. -/
inductive Quoted : List Char → List Char → Prop
  | enclosed {quote : Char} {inner : List Char} (hQuote : quote ∈ ['"', '\'']) :
      Quoted (quote :: (inner ++ [quote])) inner
  | lone {quote : Char} (hQuote : quote ∈ ['"', '\'']) : Quoted [quote] []

theorem quoted_of_ends {text : List Char} {quote : Char} (hQuote : quote ∈ ['"', '\''])
    (hhead : text.head? = some quote) (hlast : text.getLast? = some quote) :
    Quoted text text.tail.dropLast := by
  obtain ⟨rest, rfl⟩ := List.head?_eq_some_iff.mp hhead
  rcases List.eq_nil_or_concat rest with rfl | ⟨inner, c, rfl⟩
  · exact .lone hQuote
  · rw [List.concat_eq_append] at hlast ⊢
    rw [← List.cons_append, List.getLast?_concat] at hlast
    cases hlast
    simpa using Quoted.enclosed hQuote

theorem unquoted?_eq_some_iff {text inner : List Char} :
    unquoted? text = some inner ↔ Quoted text inner := by
  constructor
  · intro h
    obtain ⟨quote, hQuote, h⟩ := List.exists_of_findSome?_eq_some h
    split_ifs at h with hends
    cases h
    exact quoted_of_ends hQuote hends.1 hends.2
  · intro h
    cases h with
    | @enclosed quote _ hQuote =>
      have hlast : (quote :: (inner ++ [quote])).getLast? = some quote := by
        simp [List.getLast?_cons]
      simp only [List.mem_cons, List.not_mem_nil, or_false] at hQuote
      rcases hQuote with rfl | rfl <;> simp [unquoted?, hlast]
    | lone hQuote =>
      simp only [List.mem_cons, List.not_mem_nil, or_false] at hQuote
      rcases hQuote with rfl | rfl <;> rfl

theorem unquoted?_eq_none_iff {text : List Char} :
    unquoted? text = none ↔ ¬ ∃ inner, Quoted text inner := by
  simp only [Option.eq_none_iff_forall_ne_some, ne_eq, unquoted?_eq_some_iff, not_exists]

theorem unquoted?_quoted (text : List Char) : unquoted? ('"' :: (text ++ ['"'])) = some text :=
  unquoted?_eq_some_iff.mpr (.enclosed (by simp))

theorem unquoted?_eq_none {c : Char} {rest : List Char} (hc : c ≠ '"' ∧ c ≠ '\'') :
    unquoted? (c :: rest) = none := by
  simp [unquoted?, hc.1, hc.2]

theorem not_quote_of_isDigit {c : Char} (h : c.isDigit = true) :
    (c ≠ '"' ∧ c ≠ '\'') ∧ c ≠ '-' := by
  refine ⟨⟨?_, ?_⟩, ?_⟩ <;> (rintro rfl; cases h)

theorem spanNumeral_self {numeral : List Char} {d : Decimal} (h : Numeral numeral d) :
    spanNumeral numeral = some (d, []) := by
  have hspan := spanNumeral_append h startsOutside_nil
  rwa [List.append_nil] at hspan

theorem plainNumber?_numeral {numeral : List Char} {d : Decimal} (h : Numeral numeral d) :
    plainNumber? numeral = some (d.toNumber false) := by
  have hspan := spanNumeral_self h
  obtain ⟨c, rest, rfl, hc⟩ := h.exists_head
  have hminus := (not_quote_of_isDigit hc).2
  unfold plainNumber?
  split
  case _ negative unsigned heq =>
    split at heq
    case h_1 hcons =>
      cases hcons
      exact absurd rfl hminus
    case h_2 =>
      cases heq
      rw [hspan]

theorem plainNumber?_minus {numeral : List Char} {d : Decimal} (h : Numeral numeral d) :
    plainNumber? ('-' :: numeral) = some (d.toNumber true) := by
  have hspan := spanNumeral_self h
  unfold plainNumber?
  split
  case _ negative unsigned heq =>
    split at heq
    case h_1 hcons =>
      cases hcons
      cases heq
      rw [hspan]
    case h_2 hother => exact absurd rfl (hother numeral)

theorem plainNumber?_eq_some_iff {text : List Char} {x : Number} : plainNumber? text = some x ↔
    ∃ negative d, SignedNumeral text negative d ∧ d.toNumber negative = x := by
  constructor
  · intro h
    unfold plainNumber? at h
    split at h
    case _ negative unsigned hsign =>
      split at h
      case h_2 => cases h
      case h_1 d hspan =>
        cases h
        obtain ⟨numeral, hnumeral, h⟩ := spanNumeral_sound hspan
        rw [List.append_nil] at hnumeral
        subst hnumeral
        split at hsign
        · cases hsign
          exact ⟨true, d, .minus h, rfl⟩
        · cases hsign
          exact ⟨false, d, .plus h, rfl⟩
  · rintro ⟨negative, d, h, rfl⟩
    cases h with
    | plus h => exact plainNumber?_numeral h
    | minus h => exact plainNumber?_minus h

theorem overflows_iff {text : List Char} :
    Overflows text ↔ ∃ negative, plainNumber? text = some (.infinite negative) := by
  constructor
  · rintro ⟨negative, d, h, hinfinite⟩
    exact ⟨negative, plainNumber?_eq_some_iff.mpr ⟨negative, d, h, hinfinite⟩⟩
  · rintro ⟨negative, h⟩
    obtain ⟨negative', d, hnumeral, hinfinite⟩ := plainNumber?_eq_some_iff.mp h
    rcases d.toNumber_cases negative' with ⟨x, hx⟩ | hx
    · rw [hx] at hinfinite
      cases hinfinite
    · exact ⟨negative', d, hnumeral, hx⟩

theorem scalar_of_quoted {text inner : List Char} (h : Quoted text inner) :
    scalar text = .string (String.ofList inner) := by
  simp only [scalar, unquoted?_eq_some_iff.mpr h]

theorem scalar_of_plainNumber? {text : List Char} {x : Number} (hquote : unquoted? text = none)
    (hnumber : plainNumber? text = some x) : scalar text = .number x := by
  rw [scalar, hquote]
  dsimp only
  rw [hnumber]

theorem scalar_of_shown {text : List Char} {v : Value} (h : Value.Shown text v) :
    scalar text = v := by
  cases h with
  | quoted s =>
    rw [scalar, unquoted?_quoted]
    dsimp only
    rw [String.ofList_toList]
  | plus h hSign hValue =>
    have hnumber := plainNumber?_numeral h
    obtain ⟨c, rest, rfl, hc⟩ := h.exists_head
    rw [scalar_of_plainNumber? (unquoted?_eq_none (not_quote_of_isDigit hc).1) hnumber, hValue]
  | minus h hSign hValue =>
    have hquote : '-' ≠ '"' ∧ '-' ≠ '\'' := by decide
    rw [scalar_of_plainNumber? (unquoted?_eq_none hquote) (plainNumber?_minus h), hValue]
  | yes => rfl
  | no => rfl

theorem isLineSafe_iff {text : List Char} :
    isLineSafe text = true ↔ text ≠ [] ∧ ∀ c ∈ text, isLineBreak c = false := by
  simp [isLineSafe]

theorem isSpace_of_isLineBreak {c : Char} (h : isLineBreak c = true) : isSpace c = true := by
  simp only [isLineBreak, Bool.or_eq_true, decide_eq_true_eq] at h
  rcases h with ((rfl | rfl) | rfl) | rfl <;> rfl

/-- A truth value, a finite number, or a string on one line. -/
structure IsScalar (v : Value) : Prop where
  plain : v.IsPlain
  line : ∀ s, v = .string s → ∀ c ∈ s.toList, isLineBreak c = false

variable {v : Value}

theorem IsScalar.shown (h : IsScalar v) : Value.Shown v.toText.toList v :=
  Value.shown_toText h.plain

theorem IsScalar.isLineBreak_of_mem (h : IsScalar v) :
    ∀ c ∈ v.toText.toList, isLineBreak c = false := by
  intro c hc
  rcases h.shown.bare_or_quoted with hbare | ⟨s, hv, htext⟩
  · cases hbreak : isLineBreak c with
    | false => rfl
    | true =>
      have hspace := isSpace_of_isLineBreak hbreak
      rw [hbare.space c hc] at hspace
      cases hspace
  · simp only [htext, List.mem_cons, List.mem_append, List.not_mem_nil, or_false] at hc
    rcases hc with rfl | hc | rfl
    · rfl
    · exact h.line s hv c hc
    · rfl

theorem IsScalar.scalar_trim (h : IsScalar v) : scalar (trim v.toText.toList) = v := by
  rw [h.shown.trim_eq, scalar_of_shown h.shown]

end DecisionTables.Cell
