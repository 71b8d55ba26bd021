import DecisionTables.Json.Printer
import DecisionTables.Json.Token
import Mathlib

/-!
# Strings in JSON

Every character has an escape that reads back to it, or none and stands for itself. Main statement:
a written string reads back to the string, whatever follows its closing quote.
-/
namespace DecisionTables.Json

theorem hexValue?_hexDigit : ∀ n < 16, hexValue? (hexDigit n) = some n := by decide

theorem unitEscape_control {c : Char} (h : c.toNat < 0x20) (rest : List Char) :
    unitEscape ('0' :: '0' :: hexDigit (c.toNat / 16) :: hexDigit c.toNat :: rest) =
      .ok (c, rest) := by
  have hhigh : hexValue? (hexDigit (c.toNat / 16)) = some (c.toNat / 16) :=
    hexValue?_hexDigit _ (by omega)
  have hlow : hexValue? (hexDigit c.toNat) = some (c.toNat % 16) := by
    rw [← hexValue?_hexDigit _ (Nat.mod_lt _ (by decide)), hexDigit, hexDigit, Nat.mod_mod]
  have hzero : hexValue? '0' = some 0 := by decide
  have hunit : fourHex ('0' :: '0' :: hexDigit (c.toNat / 16) :: hexDigit c.toNat :: rest) =
      .ok (c.toNat, rest) := by
    simp only [fourHex, hhigh, hlow, hzero]
    rw [show ((0 * 16 + 0) * 16 + c.toNat / 16) * 16 + c.toNat % 16 = c.toNat by omega]
  have htrailing : isTrailing c.toNat = false := by
    simp only [isTrailing, Bool.and_eq_false_imp, decide_eq_true_eq, decide_eq_false_iff_not]
    omega
  have hleading : isLeading c.toNat = false := by
    simp only [isLeading, Bool.and_eq_false_imp, decide_eq_true_eq, decide_eq_false_iff_not]
    omega
  simp [unitEscape, hunit, htrailing, hleading, bind, Except.bind]

/-- A character stands for itself, or is written as an escape that reads back to it. -/
theorem escape_cases (c : Char) :
    (escape c = [c] ∧ c ≠ '"' ∧ c ≠ '\\' ∧ ¬ c.toNat < 0x20) ∨
      ∃ body, escape c = '\\' :: body ∧
        ∀ rest, escaped unitEscape (body ++ rest) = .ok (c, rest) := by
  unfold escape
  split_ifs with hquote hback hb hf hn hr ht hcontrol
  case neg => exact .inl ⟨rfl, hquote, hback, hcontrol⟩
  any_goals
    subst c
    exact .inr ⟨_, rfl, fun _ => rfl⟩
  exact .inr ⟨_, rfl, unitEscape_control hcontrol⟩

theorem stringBody_escape (c : Char) {fuel : ℕ} {text body rest : List Char}
    (h : stringBody unitEscape fuel text = .ok (body, rest)) :
    stringBody unitEscape (fuel + 1) (escape c ++ text) = .ok (c :: body, rest) := by
  rcases escape_cases c with ⟨hself, hquote, hback, hcontrol⟩ | ⟨escaped', hescape, hread⟩
  · rw [hself]
    simp [stringBody, hquote, hback, hcontrol, h, bind, Except.bind]
  · rw [hescape]
    simp [stringBody, hread, h, bind, Except.bind]

theorem one_le_length_escape (c : Char) : 1 ≤ (escape c).length := by
  rcases escape_cases c with ⟨hself, -⟩ | ⟨body, hescape, -⟩
  · simp [hself]
  · simp [hescape]

theorem stringBody_flatMap_escape (text rest : List Char) {fuel : ℕ} (hfuel : text.length < fuel) :
    stringBody unitEscape fuel (text.flatMap escape ++ '"' :: rest) = .ok (text, rest) := by
  induction text generalizing fuel with
  | nil =>
    obtain ⟨fuel, rfl⟩ := Nat.exists_eq_succ_of_ne_zero hfuel.ne'
    rfl
  | cons c text ih =>
    obtain ⟨fuel, rfl⟩ := Nat.exists_eq_succ_of_ne_zero (Nat.ne_zero_of_lt hfuel)
    rw [List.flatMap_cons, List.append_assoc]
    exact stringBody_escape c (ih (by simpa using hfuel))

theorem length_le_length_flatMap_escape (text : List Char) :
    text.length ≤ (text.flatMap escape).length := by
  induction text with
  | nil => simp
  | cons c text ih =>
    have hc := one_le_length_escape c
    rw [List.flatMap_cons, List.length_append, List.length_cons]
    omega

theorem quotedText_quoted (text : String) (rest : List Char) :
    quotedText (text.toList.flatMap escape ++ '"' :: rest) = .ok (text, rest) := by
  have hlength := length_le_length_flatMap_escape text.toList
  have hfuel : text.toList.length < (text.toList.flatMap escape ++ '"' :: rest).length := by
    rw [List.length_append, List.length_cons]
    omega
  have hbody := stringBody_flatMap_escape text.toList rest hfuel
  simp only [quotedText, hbody, bind, Except.bind, String.ofList_toList]

theorem quoted_append (text : String) (rest : List Char) :
    quoted text ++ rest = '"' :: (text.toList.flatMap escape ++ '"' :: rest) := by
  simp [quoted]

end DecisionTables.Json
