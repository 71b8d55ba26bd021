import DecisionTables.Number.Layout
import DecisionTables.Number.Numeral
import DecisionTables.Proofs.Number.Decimal
import DecisionTables.Proofs.Text.Runs
import Mathlib

/-!
# Plain numerals

Digits with an optional point and more digits, and the decimal that they write. Main statements:
the scan takes a plain numeral from the start of a text exactly where one stands, and the display
text of a finite number is, but for its minus, a plain numeral that reads back to the number.
-/
namespace DecisionTables

namespace Text

def IsDigits (digits : List Char) : Prop := digits ≠ [] ∧ ∀ c ∈ digits, c.isDigit = true

/-- The texts of plain numerals, with the decimals that they write. -/
inductive Numeral : List Char → Decimal → Prop
  | whole {whole : List Char} (hWhole : IsDigits whole) : Numeral whole (decimalOf whole [])
  | point {whole fraction : List Char} (hWhole : IsDigits whole) (hFraction : IsDigits fraction) :
      Numeral (whole ++ '.' :: fraction) (decimalOf whole fraction)

def isNumeralPart (c : Char) : Bool := c.isDigit || c = '.'

theorem spanDigits_eq (text : List Char) :
    spanDigits text = (text.takeWhile Char.isDigit, text.dropWhile Char.isDigit) :=
  List.span_eq_takeWhile_dropWhile _ text

theorem spanDigits_run {digits rest : List Char} (hd : IsDigits digits)
    (hr : StartsOutside Char.isDigit rest) : spanDigits (digits ++ rest) = (digits, rest) := by
  rw [spanDigits_eq, takeWhile_run hd.2 hr, dropWhile_run hd.2 hr]

theorem spanDigits_sound {text digits rest : List Char} (h : spanDigits text = (digits, rest))
    (hne : digits ≠ []) : text = digits ++ rest ∧ IsDigits digits := by
  rw [spanDigits_eq, Prod.mk.injEq] at h
  obtain ⟨rfl, rfl⟩ := h
  exact ⟨List.takeWhile_append_dropWhile.symm, hne, fun c hc => List.mem_takeWhile_imp hc⟩

theorem spanNumeral_sound {text rest : List Char} {d : Decimal}
    (h : spanNumeral text = some (d, rest)) :
    ∃ numeral, text = numeral ++ rest ∧ Numeral numeral d := by
  unfold spanNumeral at h
  split at h
  case h_1 => cases h
  case h_2 whole after hne hspan =>
    obtain ⟨rfl, hWhole⟩ := spanDigits_sound hspan (by simpa using hne)
    split at h
    case h_1 =>
      cases h
      exact ⟨whole, rfl, .whole hWhole⟩
    case h_2 fraction rest' hne' hspan' =>
      cases h
      obtain ⟨rfl, hFraction⟩ := spanDigits_sound hspan' (by simpa using hne')
      exact ⟨whole ++ '.' :: fraction, by simp, .point hWhole hFraction⟩
  case h_3 whole after hne _ hspan =>
    cases h
    obtain ⟨rfl, hWhole⟩ := spanDigits_sound hspan (by simpa using hne)
    exact ⟨whole, rfl, .whole hWhole⟩

theorem Numeral.exists_head {numeral : List Char} {d : Decimal} (h : Numeral numeral d) :
    ∃ c rest, numeral = c :: rest ∧ c.isDigit = true := by
  cases h with
  | whole hWhole =>
    obtain ⟨c, cs, rfl⟩ := List.exists_cons_of_ne_nil hWhole.1
    exact ⟨c, cs, rfl, hWhole.2 c (by simp)⟩
  | point hWhole hFraction =>
    obtain ⟨c, cs, rfl⟩ := List.exists_cons_of_ne_nil hWhole.1
    exact ⟨c, _, rfl, hWhole.2 c (by simp)⟩

theorem Numeral.isNumeralPart_of_mem {numeral : List Char} {d : Decimal} (h : Numeral numeral d) :
    ∀ c ∈ numeral, isNumeralPart c = true := by
  intro c hc
  cases h with
  | whole hWhole => simp [isNumeralPart, hWhole.2 c hc]
  | point hWhole hFraction =>
    rcases List.mem_append.mp hc with hc | hc
    · simp [isNumeralPart, hWhole.2 c hc]
    · rcases List.mem_cons.mp hc with rfl | hc
      · rfl
      · simp [isNumeralPart, hFraction.2 c hc]

theorem IsDigits.count_dot {digits : List Char} (h : IsDigits digits) : digits.count '.' = 0 := by
  refine List.count_eq_zero.mpr fun hdot => ?_
  have hdigit := h.2 '.' hdot
  cases hdigit

theorem Numeral.count_dot_le {numeral : List Char} {d : Decimal} (h : Numeral numeral d) :
    numeral.count '.' ≤ 1 := by
  cases h with
  | whole hWhole => simp [hWhole.count_dot]
  | point hWhole hFraction => simp [hWhole.count_dot, hFraction.count_dot]

theorem spanNumeral_eq_none {text : List Char} (h : StartsOutside Char.isDigit text) :
    spanNumeral text = none := by
  simp only [spanNumeral, spanDigits_eq, takeWhile_eq_nil h]

/-- Digits that no point follows are a numeral of their own. -/
theorem spanNumeral_of_whole {text whole rest : List Char} (hspan : spanDigits text = (whole, rest))
    (hne : whole ≠ []) (hrest : ∀ after, rest ≠ '.' :: after) :
    spanNumeral text = some (decimalOf whole [], rest) := by
  obtain ⟨c, cs, rfl⟩ := List.exists_cons_of_ne_nil hne
  unfold spanNumeral
  rw [hspan]
  split
  case h_1 heq => simp at heq
  case h_2 heq =>
    simp only [Prod.mk.injEq] at heq
    exact absurd heq.2 (hrest _)
  case h_3 heq =>
    cases heq
    rfl

theorem spanNumeral_of_point {text whole after fraction rest : List Char}
    (hspan : spanDigits text = (whole, '.' :: after)) (hne : whole ≠ [])
    (hspan' : spanDigits after = (fraction, rest)) (hne' : fraction ≠ []) :
    spanNumeral text = some (decimalOf whole fraction, rest) := by
  obtain ⟨c, cs, rfl⟩ := List.exists_cons_of_ne_nil hne
  obtain ⟨e, es, rfl⟩ := List.exists_cons_of_ne_nil hne'
  simp only [spanNumeral, hspan, hspan']

/-- A plain numeral is taken as a whole where nothing goes on with it. -/
theorem spanNumeral_append {numeral rest : List Char} {d : Decimal} (h : Numeral numeral d)
    (hr : StartsOutside isNumeralPart rest) : spanNumeral (numeral ++ rest) = some (d, rest) := by
  have hdigit : StartsOutside Char.isDigit rest := fun c hc => by
    have := hr c hc
    simp_all [isNumeralPart]
  have hdot : ∀ after, rest ≠ '.' :: after := by
    rintro after rfl
    simpa [isNumeralPart] using hr '.' rfl
  cases h with
  | whole hWhole => exact spanNumeral_of_whole (spanDigits_run hWhole hdigit) hWhole.1 hdot
  | @point whole fraction hWhole hFraction =>
    have hpoint : StartsOutside Char.isDigit ('.' :: (fraction ++ rest)) := by simp [StartsOutside]
    rw [List.append_assoc, List.cons_append]
    exact spanNumeral_of_point (spanDigits_run hWhole hpoint) hWhole.1
      (spanDigits_run hFraction hdigit) hFraction.1

inductive SignedNumeral : List Char → Bool → Decimal → Prop
  | plus {numeral : List Char} {d : Decimal} (h : Numeral numeral d) : SignedNumeral numeral false d
  | minus {numeral : List Char} {d : Decimal} (h : Numeral numeral d) :
      SignedNumeral ('-' :: numeral) true d

def Overflows (text : List Char) : Prop :=
  ∃ negative d, SignedNumeral text negative d ∧ d.toNumber negative = .infinite negative

theorem splitSign_numeral {numeral : List Char} {d : Decimal} (h : Numeral numeral d) :
    splitSign numeral = (false, numeral) := by
  obtain ⟨c, rest, rfl, hc⟩ := h.exists_head
  unfold splitSign
  split
  case h_1 heq =>
    cases heq
    cases hc
  case h_2 heq =>
    cases heq
    cases hc
  case h_3 => rfl

/-- The numeric reading of the digits of a plain numeral, whatever the sign before them was. -/
theorem numeric?_of_splitSign {text numeral : List Char} {negative : Bool} {d : Decimal}
    (hsign : splitSign text = (negative, numeral)) (h : Numeral numeral d) :
    numeric? text = some (d.toNumber negative) := by
  cases h with
  | whole hWhole =>
    have hspan := spanDigits_run hWhole startsOutside_nil
    rw [List.append_nil] at hspan
    simp [numeric?, hsign, hspan, spanFraction, exponent?, decimalOf, hWhole.1]
  | @point whole fraction hWhole hFraction =>
    have hpoint : StartsOutside Char.isDigit ('.' :: fraction) := startsOutside_cons rfl
    have hspan := spanDigits_run hFraction startsOutside_nil
    rw [List.append_nil] at hspan
    simp [numeric?, hsign, spanDigits_run hWhole hpoint, hspan, spanFraction, exponent?, decimalOf,
      hWhole.1]

theorem SignedNumeral.numeric?_eq {text : List Char} {negative : Bool} {d : Decimal}
    (h : SignedNumeral text negative d) : numeric? text = some (d.toNumber negative) := by
  cases h with
  | plus h => exact numeric?_of_splitSign (splitSign_numeral h) h
  | minus h => exact numeric?_of_splitSign rfl h

theorem isDigits_take {digits : List Char} {n : ℕ} (h : IsDigits digits) (hn : 0 < n) :
    IsDigits (digits.take n) := by
  refine ⟨?_, fun c hc => h.2 c (List.mem_of_mem_take hc)⟩
  rw [ne_eq, List.take_eq_nil_iff, not_or]
  exact ⟨hn.ne', h.1⟩

theorem isDigits_drop {digits : List Char} {n : ℕ} (h : IsDigits digits) (hn : n < digits.length) :
    IsDigits (digits.drop n) := by
  refine ⟨?_, fun c hc => h.2 c (List.mem_of_mem_drop hc)⟩
  rw [ne_eq, List.drop_eq_nil_iff]
  omega

theorem isDigit_of_mem_zeros {n : ℕ} {c : Char} (h : c ∈ List.replicate n '0') :
    c.isDigit = true := by
  rw [List.eq_of_mem_replicate h]
  rfl

theorem isDigits_append_zeros {digits : List Char} (h : IsDigits digits) (n : ℕ) :
    IsDigits (digits ++ List.replicate n '0') := by
  refine ⟨by simp [h.1], fun c hc => ?_⟩
  exact (List.mem_append.mp hc).elim (h.2 c) isDigit_of_mem_zeros

theorem isDigits_zeros_append {digits : List Char} (n : ℕ) (h : IsDigits digits) :
    IsDigits (List.replicate n '0' ++ digits) := by
  refine ⟨by simp [h.1], fun c hc => ?_⟩
  exact (List.mem_append.mp hc).elim isDigit_of_mem_zeros (h.2 c)

end Text

namespace Decimal
open Text

theorem isDigits_digitChars (d : Decimal) : IsDigits d.digitChars :=
  ⟨Nat.toDigits_ne_nil, fun _ hc => Nat.isDigit_of_mem_toDigits (by decide) (by decide) hc⟩

theorem digitsValue_digitChars (d : Decimal) : digitsValue d.digitChars = d.digits :=
  Nat.ofDigitChars_ten_toDigits

theorem digitsValue_append_zeros (d : Decimal) (n : ℕ) :
    digitsValue (d.digitChars ++ List.replicate n '0') = d.digits * tenTo n := by
  rw [digitsValue, Nat.ofDigitChars_append, Nat.ofDigitChars_replicate_zero, Nat.mul_comm]
  exact congrArg (· * _) (digitsValue_digitChars d)

theorem digitsValue_zeros_append (d : Decimal) (n : ℕ) :
    digitsValue (List.replicate n '0' ++ d.digitChars) = d.digits := by
  rw [digitsValue, Nat.ofDigitChars_append, Nat.ofDigitChars_replicate_zero, Nat.mul_zero]
  exact digitsValue_digitChars d

/-- A whole decimal is its digits followed by zeros. -/
theorem numeral_of_whole (d : Decimal) {n : ℕ} (hn : d.exponent = n) :
    ∃ d', Numeral (d.digitChars ++ List.replicate n '0') d' ∧
      ∀ negative, d'.toNumber negative = d.toNumber negative := by
  refine ⟨_, .whole (isDigits_append_zeros (isDigits_digitChars d) n), fun negative => ?_⟩
  have hexp : -(([] : List Char).length : ℤ) + n = d.exponent := by
    rw [hn]
    exact Int.zero_add _
  simp only [decimalOf, List.append_nil, digitsValue_append_zeros, toNumber_mul_tenTo, hexp]

/-- With fewer places than digits, the point stands among the digits. -/
theorem numeral_of_inner_point (d : Decimal) {places : ℕ} (hexp : d.exponent = -places)
    (hpos : 0 < places) (hlt : places < d.digitChars.length) :
    Numeral (d.digitChars.take (d.digitChars.length - places) ++
      '.' :: d.digitChars.drop (d.digitChars.length - places)) d := by
  have hdigits := isDigits_digitChars d
  have hwhole := isDigits_take hdigits (show 0 < d.digitChars.length - places by omega)
  have hfraction := isDigits_drop hdigits (show d.digitChars.length - places < _ by omega)
  have hlength : (d.digitChars.drop (d.digitChars.length - places)).length = places := by
    rw [List.length_drop]
    omega
  have hdecimal := Numeral.point hwhole hfraction
  rwa [decimalOf, List.take_append_drop, digitsValue_digitChars, hlength, ← hexp] at hdecimal

/-- With no fewer places than digits, zeros stand before the digits. -/
theorem numeral_of_leading_point (d : Decimal) {zeros : ℕ}
    (hexp : d.exponent = -(zeros + d.digitChars.length : ℕ)) :
    Numeral ('0' :: '.' :: (List.replicate zeros '0' ++ d.digitChars)) d := by
  have hwhole : IsDigits ['0'] := by simp [IsDigits]
  have hfraction := isDigits_zeros_append zeros (isDigits_digitChars d)
  have hvalue : digitsValue (['0'] ++ (List.replicate zeros '0' ++ d.digitChars)) = d.digits := by
    have hzeros : ['0'] ++ (List.replicate zeros '0' ++ d.digitChars) =
        List.replicate (zeros + 1) '0' ++ d.digitChars := rfl
    rw [hzeros, digitsValue_zeros_append]
  have hdecimal := Numeral.point hwhole hfraction
  rwa [decimalOf, hvalue, List.length_append, List.length_replicate, ← hexp] at hdecimal

/-- Written without an exponent, a decimal is a plain numeral of the same value. -/
theorem exists_numeral_positional (d : Decimal) :
    ∃ d', Numeral (d.positional []) d' ∧
      ∀ negative, d'.toNumber negative = d.toNumber negative := by
  unfold positional
  dsimp only
  split
  case isTrue hexp =>
    rw [List.append_nil]
    exact numeral_of_whole d (by omega)
  case isFalse hexp =>
    split
    case isTrue hplaces =>
      exact ⟨d, numeral_of_inner_point d (by omega) (by omega) hplaces, fun _ => rfl⟩
    case isFalse hplaces =>
      exact ⟨d, numeral_of_leading_point d (by omega), fun _ => rfl⟩

end Decimal

namespace FiniteNumber

/-- The display text is a plain numeral, after a minus if there is one, and reads back. -/
theorem exists_numeral_display (x : FiniteNumber) :
    ∃ numeral d, Text.Numeral numeral d ∧ d.toNumber x.negative = .finite x ∧
      x.toChars .display = if x.negative then '-' :: numeral else numeral := by
  obtain ⟨d, hnumeral, hvalue⟩ := (x.shortest .up).exists_numeral_positional
  refine ⟨_, d, hnumeral, (hvalue _).trans (x.toNumber_shortest .up), ?_⟩
  simp only [toChars, Decimal.layout, NumberForm.display, if_true]

end FiniteNumber
end DecisionTables
