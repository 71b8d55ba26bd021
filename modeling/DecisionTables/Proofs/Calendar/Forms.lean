import DecisionTables.Proofs.Calendar.Digits
import Mathlib

/-!
# The forms of dates

What the strict form takes for a date or for a time of day the local forms take for the same one,
but in the strict form something follows it. A text has at most one of the three forms, therefore,
and a text that has one begins with a run of digits before a hyphen.
-/
namespace DecisionTables.Calendar
open Text

variable {text rest : List Char} {read read' : List Char → Option (ℕ × List Char)}

theorem clock_mono (hread : ∀ text result, read text = some result → read' text = some result)
    {result : (ℕ × ℕ × ℕ) × List Char} (h : clock read text = some result) :
    clock read' text = some result := by
  simp only [clock, Option.bind_eq_bind, Option.bind_eq_some_iff] at h ⊢
  obtain ⟨hour, hhour, after, hafter, minute, hminute, after', hafter', second, hsecond, h⟩ := h
  exact ⟨hour, hread _ _ hhour, after, hafter, minute, hread _ _ hminute, after', hafter',
    second, hread _ _ hsecond, h⟩

theorem monthAndDay_mono
    (hread : ∀ text result, read text = some result → read' text = some result)
    {result : (ℕ × ℕ) × List Char} (h : monthAndDay read text = some result) :
    monthAndDay read' text = some result := by
  simp only [monthAndDay, Option.bind_eq_bind, Option.bind_eq_some_iff] at h ⊢
  obtain ⟨after, hafter, month, hmonth, after', hafter', day, hday, h⟩ := h
  exact ⟨after, hafter, month, hread _ _ hmonth, after', hafter', day, hread _ _ hday, h⟩

namespace Instant

variable {a b : Instant}

theorem shortNumber_of_digits {result : ℕ × List Char} (h : digits 2 2 text = some result) :
    shortNumber text = some result := by
  rw [shortNumber, trimLeft_of_digits h]
  exact digits_of_least_le (by decide) h

theorem localYear_of_digits {year : ℕ} (h : digits 4 4 text = some (year, rest)) :
    localYear text = some ((year : ℤ), rest) := by
  obtain ⟨c, cs, rfl, hc⟩ := exists_head_of_digits h
  have hread : digits 1 4 (c :: cs) = some (year, rest) := digits_of_least_le (by decide) h
  rw [localYear, trimLeft_of_digits h]
  split
  case h_1 heq => cases heq; cases hc
  case h_2 heq => cases heq; cases hc
  case h_3 => rw [hread]; rfl

/-- A strict text begins with a local date and a local time of day, and goes on after both. -/
theorem exists_local_of_ofRfc3339? (h : ofRfc3339? text = some a) :
    ∃ date separator after time rest, localDate text = some (date, separator :: after) ∧
      clock shortNumber after = some (time, rest) ∧ rest ≠ [] := by
  simp only [ofRfc3339?, Option.bind_eq_bind, Option.bind_eq_some_iff] at h
  obtain ⟨⟨year, text'⟩, hyear, ⟨⟨month, day⟩, text''⟩, hmonth, after, hseparator,
    ⟨time, rest⟩, hclock, ⟨nanos, rest'⟩, hfraction, offset, hoffset, -⟩ := h
  have hdate : localDate text = some (⟨year, month, day⟩, text'') := by
    simp only [localDate, localYear_of_digits hyear, Option.bind_eq_bind, Option.bind_some,
      monthAndDay_mono (fun _ _ => shortNumber_of_digits) hmonth]
  obtain ⟨separator, rfl⟩ : ∃ separator, text'' = separator :: after := by
    simp only [Option.or_eq_some_iff, expect_eq_some_iff] at hseparator
    rcases hseparator with h | ⟨-, h | ⟨-, h⟩⟩ <;> exact ⟨_, h⟩
  refine ⟨_, separator, after, time, rest, hdate,
    clock_mono (fun _ _ => shortNumber_of_digits) hclock, ?_⟩
  -- After nothing there is no fraction, and then no offset either.
  rintro rfl
  cases hfraction
  cases hoffset

theorem exists_localDate_of_ofLocalDateTime? (h : ofLocalDateTime? text = some a) :
    ∃ date after time, localDate text = some (date, 'T' :: after) ∧
      clock shortNumber after = some (time, []) := by
  simp only [ofLocalDateTime?, Option.bind_eq_bind, Option.bind_eq_some_iff] at h
  obtain ⟨⟨date, text'⟩, hdate, after, hafter, ⟨time, rest⟩, hclock, h⟩ := h
  rw [expect_eq_some_iff] at hafter
  subst hafter
  split at h
  case isTrue hrest =>
    rw [List.isEmpty_iff] at hrest
    subst hrest
    exact ⟨date, after, time, hdate, hclock⟩
  case isFalse => cases h

theorem exists_localDate_of_ofLocalDate? (h : ofLocalDate? text = some a) :
    ∃ date, localDate text = some (date, []) := by
  simp only [ofLocalDate?, Option.bind_eq_bind, Option.bind_eq_some_iff] at h
  obtain ⟨⟨date, rest⟩, hdate, h⟩ := h
  split at h
  case isTrue hrest =>
    rw [List.isEmpty_iff] at hrest
    subst hrest
    exact ⟨date, hdate⟩
  case isFalse => cases h

theorem ofLocalDateTime?_of_ofRfc3339? (h : ofRfc3339? text = some a) :
    ofLocalDateTime? text = none := by
  obtain ⟨date, separator, after, time, rest, hdate, hclock, hne⟩ := exists_local_of_ofRfc3339? h
  refine Option.eq_none_iff_forall_ne_some.mpr fun b hb => hne ?_
  obtain ⟨date', after', time', hdate', hclock'⟩ := exists_localDate_of_ofLocalDateTime? hb
  rw [hdate] at hdate'
  cases hdate'
  rw [hclock] at hclock'
  cases hclock'
  rfl

theorem ofLocalDate?_of_ofRfc3339? (h : ofRfc3339? text = some a) : ofLocalDate? text = none := by
  obtain ⟨date, separator, after, time, rest, hdate, -, -⟩ := exists_local_of_ofRfc3339? h
  refine Option.eq_none_iff_forall_ne_some.mpr fun b hb => ?_
  obtain ⟨date', hdate'⟩ := exists_localDate_of_ofLocalDate? hb
  rw [hdate] at hdate'
  cases hdate'

theorem ofLocalDate?_of_ofLocalDateTime? (h : ofLocalDateTime? text = some a) :
    ofLocalDate? text = none := by
  obtain ⟨date, after, time, hdate, -⟩ := exists_localDate_of_ofLocalDateTime? h
  refine Option.eq_none_iff_forall_ne_some.mpr fun b hb => ?_
  obtain ⟨date', hdate'⟩ := exists_localDate_of_ofLocalDate? hb
  rw [hdate] at hdate'
  cases hdate'

def forms : List (List Char → Option Instant) := [ofRfc3339?, ofLocalDateTime?, ofLocalDate?]

theorem forms_pairwise (text : List Char) :
    forms.Pairwise fun read read' => read text = none ∨ read' text = none := by
  have hone : ∀ {read read' : List Char → Option Instant},
      (∀ a, read text = some a → read' text = none) → read text = none ∨ read' text = none := by
    intro read read' h
    cases hread : read text with
    | none => exact .inl rfl
    | some a => exact .inr (h a hread)
  simp only [forms, List.pairwise_cons, List.mem_cons, List.not_mem_nil, or_false,
    forall_eq_or_imp, forall_eq, List.Pairwise.nil, false_implies, implies_true, and_true]
  exact ⟨⟨hone fun _ => ofLocalDateTime?_of_ofRfc3339?, hone fun _ => ofLocalDate?_of_ofRfc3339?⟩,
    hone fun _ => ofLocalDate?_of_ofLocalDateTime?⟩

/-- Where at most one function answers, the order in which they are asked does not matter. -/
theorem findSome?_perm {α β : Type} {f : α → Option β} {l l' : List α} (hperm : l.Perm l')
    (h : l.Pairwise fun x y => f x = none ∨ f y = none) : l.findSome? f = l'.findSome? f := by
  induction hperm with
  | nil => rfl
  | cons x _ ih => rw [List.findSome?_cons, List.findSome?_cons, ih (List.pairwise_cons.mp h).2]
  | swap x y l =>
    have hone := (List.pairwise_cons.mp h).1 x List.mem_cons_self
    simp only [List.findSome?_cons]
    rcases hone with hnone | hnone <;> rw [hnone]
  | trans hperm _ ih ih' =>
    have hsymm : ∀ {x y : α}, (f x = none ∨ f y = none) → f y = none ∨ f x = none := Or.symm
    rw [ih h, ih' ((hperm.pairwise_iff hsymm).mp h)]

theorem findSome?_eq_ofText? {readers : List (List Char → Option Instant)}
    (h : readers.Perm forms) (text : List Char) :
    readers.findSome? (fun read => read (trim text)) = ofText? text := by
  rw [← findSome?_perm h.symm (forms_pairwise (trim text))]
  simp only [forms, List.findSome?_cons, List.findSome?_nil, ofText?]
  cases ofRfc3339? (trim text) <;> cases ofLocalDateTime? (trim text) <;>
    cases ofLocalDate? (trim text) <;> rfl

theorem exists_run_of_localYear {year : ℤ} (hstart : StartsOutside isSpace text)
    (h : localYear text = some (year, rest)) :
    ∃ run, (splitSign text).2 = run ++ rest ∧ IsDigits run := by
  have hrun : ∀ {most : ℕ} {unsigned : List Char} {f : ℕ × List Char → ℤ × List Char},
      (∀ result, (f result).2 = result.2) → (digits 1 most unsigned).map f = some (year, rest) →
      ∃ run, unsigned = run ++ rest ∧ IsDigits run := by
    intro most unsigned f hf h
    obtain ⟨result, hresult, heq⟩ := Option.map_eq_some_iff.mp h
    have hrest : rest = result.2 := by rw [← hf, heq]
    rw [hrest]
    exact exists_run_of_digits hresult
  rw [localYear, trimLeft, dropWhile_eq_self hstart] at h
  -- The sign is split off the same way.
  split at h
  case h_1 unsigned => exact @hrun _ unsigned _ (fun _ => rfl) h
  case h_2 unsigned => exact @hrun _ unsigned _ (fun _ => rfl) h
  case h_3 hminus hplus =>
    unfold splitSign
    split
    case h_1 => exact absurd rfl (hminus _)
    case h_2 => exact absurd rfl (hplus _)
    case h_3 => exact hrun (fun _ => rfl) h

/-- After its sign, if there is one, a date has digits and a hyphen. -/
theorem exists_run_of_localDate {result : Date × List Char} (hstart : StartsOutside isSpace text)
    (h : localDate text = some result) :
    ∃ run rest, (splitSign text).2 = run ++ '-' :: rest ∧ IsDigits run := by
  simp only [localDate, monthAndDay, Option.bind_eq_bind, Option.bind_eq_some_iff] at h
  obtain ⟨⟨year, text'⟩, hyear, _, ⟨rest, hrest, -⟩, -⟩ := h
  obtain ⟨run, htext, hrun⟩ := exists_run_of_localYear hstart hyear
  obtain rfl : text' = '-' :: rest := expect_eq_some_iff.mp hrest
  exact ⟨run, rest, htext, hrun⟩

theorem exists_run_of_ofText? (h : ofText? text = some a) :
    ∃ run rest, (splitSign (trim text)).2 = run ++ '-' :: rest ∧ IsDigits run := by
  have hdate : ∃ result, localDate (trim text) = some result := by
    simp only [ofText?, Option.or_eq_some_iff] at h
    rcases h with h | ⟨-, h | ⟨-, h⟩⟩
    · obtain ⟨_, _, _, _, _, hdate, -⟩ := exists_local_of_ofRfc3339? h
      exact ⟨_, hdate⟩
    · obtain ⟨_, _, _, hdate, -⟩ := exists_localDate_of_ofLocalDateTime? h
      exact ⟨_, hdate⟩
    · obtain ⟨_, hdate⟩ := exists_localDate_of_ofLocalDate? h
      exact ⟨_, hdate⟩
  obtain ⟨result, hresult⟩ := hdate
  exact exists_run_of_localDate (startsOutside_trim text) hresult

end Instant
end DecisionTables.Calendar
