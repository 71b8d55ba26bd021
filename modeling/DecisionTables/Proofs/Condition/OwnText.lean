import DecisionTables.Proofs.Condition.Laws
import Mathlib

/-!
# Cells that match their own text

A cell that fits no pattern asks for equality with the scalar that its text writes. The scalar
reader knows fewer numerals than the comparison of strings with numbers, and reads those it knows as
the same numbers. Main statement: a cell in quotes matches exactly the string between them, and
every other such cell matches the string of its own text, unless this is a numeral too large for a
finite number, and the number or the truth value that it is read as.
-/
namespace DecisionTables.Cell
open Text

variable {text : List Char}

/-- A number that a text is read as is the numeric reading of its string, unless it is infinite. -/
theorem numberOf?_of_plainNumber? {x : Number} (h : plainNumber? text = some x)
    (htrim : trim text = text) :
    Value.numberOf? (String.ofList text) = x.finite?.map .finite := by
  obtain ⟨negative, d, hnumeral, rfl⟩ := plainNumber?_eq_some_iff.mp h
  rw [Value.numberOf?, number?, String.toList_ofList, htrim, hnumeral.numeric?_eq, Option.bind_some]

/-- What a text without quotes is read as compares as equal with its string, unless it is infinite,
and with itself. -/
theorem looseEqual_scalar (hquote : unquoted? text = none) (htrim : trim text = text) :
    ((Value.string (String.ofList text)).looseEqual (scalar text) = true ↔ ¬ Overflows text) ∧
      (scalar text).looseEqual (scalar text) = true := by
  rw [overflows_iff]
  cases hnumber : plainNumber? text with
  | some x =>
    have hreading := numberOf?_of_plainNumber? hnumber htrim
    rw [scalar_of_plainNumber? hquote hnumber]
    obtain ⟨negative, d, -, rfl⟩ := plainNumber?_eq_some_iff.mp hnumber
    rcases d.toNumber_cases negative with ⟨x, hx⟩ | hx
    · rw [hx] at hreading ⊢
      have hequal : (Number.finite x).order? (.finite x) = some .eq := by
        simp [Number.order?, FiniteNumber.order]
      simp [Value.looseEqual, Value.order?, hreading, Number.finite?, hequal]
    · rw [hx] at hreading ⊢
      have hequal : (Number.infinite negative).order? (.infinite negative) = some .eq := by
        cases negative <;> rfl
      simp [Value.looseEqual, Value.order?, hreading, Number.finite?, hequal]
  | none =>
    cases hbool : Value.boolOf? (String.ofList text) with
    | some b =>
      have hscalar : scalar text = .bool b := by simp only [scalar, hquote, hnumber, hbool]
      simp [hscalar, Value.looseEqual, Value.order?, hbool]
    | none =>
      have hscalar : scalar text = .string (String.ofList text) := by
        simp only [scalar, hquote, hnumber, hbool]
      simp [hscalar, Value.looseEqual, Value.order?]

theorem looseEqual_string_iff {s t : String} :
    (Value.string s).looseEqual (.string t) = true ↔ s = t := by
  simp [Value.looseEqual, Value.order?]

/-- Where a cell fits no pattern, it holds of a value that equals the scalar of its text. -/
theorem accepts_of_no_pattern {column text : String} {v : Value}
    (h : ∀ pattern ∈ patterns, ∀ cell, ¬ Fits pattern (trim text.toList) cell) :
    accepts column text v = v.looseEqual (scalar (trim text.toList)) :=
  accepts_of_read (read_of_asks (.scalar h))

/-- Without a pattern, a cell in quotes holds of the string between them and of no other. Any other
cell holds of the string of its own text, unless that is a numeral too large for a number, and of
what the text is read as. -/
theorem accepts_own_text (column : String) {text : String}
    (h : ∀ pattern ∈ patterns, ∀ cell, ¬ Fits pattern (trim text.toList) cell) :
    (∀ inner, Quoted (trim text.toList) inner → ∀ s : String,
      accepts column text (.string s) = true ↔ s.toList = inner) ∧
    ((¬ ∃ inner, Quoted (trim text.toList) inner) →
      (accepts column text (.string (String.ofList (trim text.toList))) = true ↔
        ¬ Overflows (trim text.toList)) ∧
      accepts column text (scalar (trim text.toList)) = true) := by
  simp only [accepts_of_no_pattern h]
  refine ⟨fun inner hquoted s => ?_, fun hplain => ?_⟩
  · rw [scalar_of_quoted hquoted, looseEqual_string_iff, ← String.toList_inj, String.toList_ofList]
  · exact looseEqual_scalar (unquoted?_eq_none_iff.mpr hplain) (trim_trim _)

theorem forall_not_fits {text : String} (h : pattern? (trim text.toList) = none) :
    ∀ pattern ∈ patterns, ∀ cell, ¬ Fits pattern (trim text.toList) cell := by
  rw [pattern?_eq_findSome?, List.findSome?_eq_none_iff] at h
  intro pattern hpattern
  exact (pattern.read?_eq_none_iff (endsOutsideSpace_trim _)).mp (h pattern hpattern)

/-- A numeral in quotes and the same one without them, both between spaces. -/
theorem accepts_own_text_numeral :
    (∀ text ∈ [" '-007.50' ", " -007.50 "], ∀ pattern ∈ patterns, ∀ cell,
      ¬ Fits pattern (trim text.toList) cell) ∧
    accepts "code" " '-007.50' " (.string "-007.50") = true ∧
    accepts "code" " -007.50 " (.string "-007.50") = true ∧
    accepts "code" " -007.50 " (scalar "-007.50".toList) = true := by
  have h : ∀ text ∈ [" '-007.50' ", " -007.50 "], ∀ pattern ∈ patterns, ∀ cell,
      ¬ Fits pattern (trim text.toList) cell := by
    have hnone : ∀ text ∈ [" '-007.50' ", " -007.50 "], pattern? (trim text.toList) = none := by
      decide +kernel
    exact fun text htext => forall_not_fits (hnone text htext)
  have hquoted : trim " '-007.50' ".toList = '\'' :: ("-007.50".toList ++ ['\'']) := by decide
  have hplain : trim " -007.50 ".toList = "-007.50".toList := by decide
  obtain ⟨hinner, -⟩ := accepts_own_text "code" (h " '-007.50' " (by simp))
  obtain ⟨-, hown⟩ := accepts_own_text "code" (h " -007.50 " (by simp))
  rw [hquoted] at hinner
  rw [hplain, ← unquoted?_eq_none_iff, overflows_iff, String.ofList_toList] at hown
  obtain ⟨hstring, hvalue⟩ := hown (by decide)
  refine ⟨h, (hinner _ (.enclosed (by simp)) _).mpr rfl, hstring.mpr ?_, hvalue⟩
  rintro ⟨negative, hinfinite⟩
  cases negative <;> exact absurd hinfinite (by decide +kernel)

end DecisionTables.Cell
