import DecisionTables.Calendar.Text
import DecisionTables.Proofs.Number.Numeral
import Mathlib

/-!
# Numbers of bounded length

A number with zeros in front is read back wherever it stands, and what is read as a number of a
given length is read as the same number where shorter ones are allowed.
-/
namespace DecisionTables.Calendar
open Text

theorem expect_eq_some_iff {c : Char} {text rest : List Char} :
    expect c text = some rest ↔ text = c :: rest := by
  cases text with
  | nil => simp [expect]
  | cons d text =>
    by_cases h : d = c
    · simp [expect, h]
    · simp [expect, h]

variable {least most : ℕ} {text run rest : List Char} {result : ℕ × List Char}

theorem digits_run (hrun : IsDigits run) (hleast : least ≤ run.length) (hmost : run.length ≤ most)
    (hstop : run.length = most ∨ StartsOutside Char.isDigit rest) :
    digits least most (run ++ rest) = some (digitsValue run, rest) := by
  have hrest : StartsOutside Char.isDigit (rest.take (most - run.length)) := by
    rcases hstop with heq | hrest
    · simp [heq, startsOutside_nil]
    · intro c hc
      rw [List.head?_take, Option.mem_def, Option.ite_none_left_eq_some] at hc
      exact hrest c hc.2
  have htake : ((run ++ rest).take most).takeWhile Char.isDigit = run := by
    rw [List.take_append, List.take_of_length_le hmost, takeWhile_run hrun.2 hrest]
  have hne : ¬ (run.length < least ∨ run.isEmpty = true) := by
    rw [List.isEmpty_iff]
    exact not_or.mpr ⟨hleast.not_gt, hrun.1⟩
  simp only [digits, htake, if_neg hne, List.drop_left, digitsValue]

theorem exists_run_of_digits (h : digits least most text = some result) :
    ∃ run, text = run ++ result.2 ∧ IsDigits run := by
  unfold digits at h
  extract_lets run at h
  split at h
  case isTrue => cases h
  case isFalse hne =>
    cases h
    have hprefix : run <+: text := (List.takeWhile_prefix _).trans (List.take_prefix most text)
    refine ⟨run, (List.prefix_iff_eq_append.mp hprefix).symm, ?_, fun c hc => ?_⟩
    · simpa using (not_or.mp hne).2
    · exact List.mem_takeWhile_imp hc

theorem exists_head_of_digits (h : digits least most text = some result) :
    ∃ c rest, text = c :: rest ∧ c.isDigit = true := by
  obtain ⟨run, htext, hrun⟩ := exists_run_of_digits h
  obtain ⟨c, cs, rfl⟩ := List.exists_cons_of_ne_nil hrun.1
  exact ⟨c, _, htext, hrun.2 c List.mem_cons_self⟩

theorem isSpace_eq_false_of_isDigit {c : Char} (h : c.isDigit = true) : isSpace c = false := by
  by_contra hspace
  have hdigit : c.isDigit = false := eq_false_of_isSpace (by decide) (by simpa using hspace)
  rw [hdigit] at h
  cases h

theorem trimLeft_of_digits (h : digits least most text = some result) : trimLeft text = text := by
  obtain ⟨c, rest, rfl, hc⟩ := exists_head_of_digits h
  exact dropWhile_eq_self (startsOutside_cons (isSpace_eq_false_of_isDigit hc))

theorem digits_of_least_le {least' : ℕ} (hle : least' ≤ least)
    (h : digits least most text = some result) : digits least' most text = some result := by
  simp only [digits] at h ⊢
  split at h
  case isTrue => cases h
  case isFalse hne =>
    rw [not_or] at hne
    rwa [if_neg (not_or.mpr ⟨fun hlt => hne.1 (hlt.trans_le hle), hne.2⟩)]

variable {width n : ℕ}

theorem isDigits_padded (width n : ℕ) : IsDigits (padded width n) :=
  isDigits_zeros_append _ (Decimal.isDigits_digitChars ⟨n, 0⟩)

theorem digitsValue_padded (width n : ℕ) : digitsValue (padded width n) = n :=
  Decimal.digitsValue_zeros_append ⟨n, 0⟩ _

theorem length_padded (hwidth : 0 < width) (hn : n < 10 ^ width) :
    (padded width n).length = width := by
  have hle := Nat.toDigits_length 10 n width hwidth hn
  simp [padded, hle]

theorem digits_padded (hwidth : 0 < width) (hn : n < 10 ^ width) (rest : List Char) :
    digits width width (padded width n ++ rest) = some (n, rest) := by
  have hlength := length_padded hwidth hn
  rw [digits_run (isDigits_padded width n) hlength.ge hlength.le (.inl hlength),
    digitsValue_padded]

end DecisionTables.Calendar
