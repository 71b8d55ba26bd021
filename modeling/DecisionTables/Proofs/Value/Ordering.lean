import DecisionTables.Proofs.Calendar.Milliseconds
import DecisionTables.Proofs.Number.Integers
import DecisionTables.Proofs.Value.Comparison
import DecisionTables.Proofs.Value.Readings
import Mathlib

/-!
# Ordering through a third value

A value between two numbers, two truth values or two dates stands for a value of their kind, unless
it is a number between dates. Main statement: what is less through a third value is less, but for a
date in the second after a leap second, whose count of milliseconds the leap second may have passed;
for numbers and truth values the same holds of the weak order, so that no value is in a range whose
bounds are the wrong way round.
-/
namespace DecisionTables.Value
open Calendar

variable {a b c : Value}

/-- The three values compare as three members of a linear order. -/
def InLine (a b c : Value) : Prop :=
  ∃ (α : Type) (_ : LinearOrder α) (p q r : α), a.order? b = some (compare p q) ∧
    b.order? c = some (compare q r) ∧ a.order? c = some (compare p r)

section Compare

variable {α : Type} [LinearOrder α] {p q : α}

theorem less_iff_lt (h : a.order? b = some (compare p q)) : a.less b = true ↔ p < q := by
  simp [less, h, compare_lt_iff_lt]

theorem atMost_iff_le (h : a.order? b = some (compare p q)) : a.atMost b = true ↔ p ≤ q := by
  rw [atMost, Bool.or_eq_true, less_iff_lt h, le_iff_lt_or_eq]
  simp [looseEqual, h]

end Compare

theorem InLine.less_trans (h : InLine a b c) (hab : a.less b = true) (hbc : b.less c = true) :
    a.less c = true := by
  obtain ⟨α, _, p, q, r, hpq, hqr, hpr⟩ := h
  rw [less_iff_lt hpq] at hab
  rw [less_iff_lt hqr] at hbc
  exact (less_iff_lt hpr).mpr (hab.trans hbc)

theorem InLine.atMost_trans (h : InLine a b c) (hab : a.atMost b = true)
    (hbc : b.atMost c = true) : a.atMost c = true := by
  obtain ⟨α, _, p, q, r, hpq, hqr, hpr⟩ := h
  rw [atMost_iff_le hpq] at hab
  rw [atMost_iff_le hqr] at hbc
  exact (atMost_iff_le hpr).mpr (hab.trans hbc)

theorem order?_ne_none_of_atMost (h : a.atMost b = true) : a.order? b ≠ none := by
  intro hnone
  simp [atMost, less, looseEqual, hnone] at h

theorem atMost_of_less (h : a.less b = true) : a.atMost b = true := by
  rw [atMost, h, Bool.true_or]

/-- A value that is comparable with values of a kind compares with all of them as one of them does,
unless it is a number and they are dates. -/
theorem exists_standIn (h : a.order? b ≠ none) (hstring : a.kind ≠ .string)
    (hcount : ¬ (a.kind = .date ∧ b.kind = .number)) :
    ∃ v : Value, v.kind = a.kind ∧ ∀ d : Value, d.kind = a.kind → d.order? b = d.order? v := by
  by_cases hsame : b.kind = a.kind
  · exact ⟨b, hsame, fun _ _ => rfl⟩
  cases b with
  | string text =>
    obtain ⟨v, hv⟩ := Option.ne_none_iff_exists'.mp
      ((exists_order?_ne_none_iff hstring).mp ⟨a, rfl, h⟩)
    refine ⟨v, kind_of_readAs? hv, fun d hd => order?_string_of_readAs? ?_⟩
    rw [hd, hv]
  | date s =>
    cases a with
    | number x =>
      refine ⟨number (millisNumber s), Eq.refl Kind.number, fun d hd => ?_⟩
      cases d <;> cases hd
      rw [order?, order?]
    | string text => exact absurd rfl hstring
    | date t => exact absurd rfl hsame
    | _ => exact absurd rfl h
  | number y =>
    cases a with
    | number x => exact absurd rfl hsame
    | string text => exact absurd rfl hstring
    | date t => exact absurd ⟨rfl, rfl⟩ hcount
    | _ => exact absurd rfl h
  | null =>
    cases a with
    | null => exact absurd rfl hsame
    | string text => exact absurd rfl hstring
    | _ => exact absurd rfl h
  | bool q =>
    cases a with
    | bool p => exact absurd rfl hsame
    | string text => exact absurd rfl hstring
    | _ => exact absurd rfl h

/-- Comparable values of one kind are members of a linear order. -/
theorem inLine_of_kind (hb : b.kind = a.kind) (hc : c.kind = a.kind) (hab : a.order? b ≠ none)
    (hbc : b.order? c ≠ none) : InLine a b c := by
  cases a <;> cases b <;> cases c <;> cases hb <;> cases hc
  case null.null.null => exact ⟨Unit, inferInstance, (), (), (), rfl, rfl, rfl⟩
  case bool.bool.bool p q r => exact ⟨Bool, inferInstance, p, q, r, rfl, rfl, rfl⟩
  case number.number.number x y z =>
    obtain ⟨hx, hy⟩ := Number.isNaN_of_order? hab
    obtain ⟨-, hz⟩ := Number.isNaN_of_order? hbc
    exact ⟨_, inferInstance, x.place, y.place, z.place, Number.order?_eq_compare hx hy,
      Number.order?_eq_compare hy hz, Number.order?_eq_compare hx hz⟩
  case string.string.string s t u => exact ⟨String, inferInstance, s, t, u, rfl, rfl, rfl⟩
  case date.date.date s t u =>
    exact ⟨ℤ ×ₗ ℕ, inferInstance, s.place, t.place, u.place, rfl, rfl, rfl⟩

theorem inLine_of_order? (hkind : a.kind = c.kind) (hstring : a.kind ≠ .string)
    (hcount : ¬ (a.kind = .date ∧ b.kind = .number)) (hab : a.order? b ≠ none)
    (hbc : b.order? c ≠ none) : InLine a b c := by
  obtain ⟨v, hv, horder⟩ := exists_standIn hab hstring hcount
  have hleft : a.order? b = a.order? v := horder a rfl
  have hright : b.order? c = v.order? c := by
    rw [order?_swap, horder c hkind.symm, ← order?_swap]
  rw [hleft] at hab
  rw [hright] at hbc
  obtain ⟨α, _, p, q, r, hpq, hqr, hpr⟩ := inLine_of_kind hv hkind.symm hab hbc
  exact ⟨α, _, p, q, r, hleft.trans hpq, hright.trans hqr, hpr⟩

/-- The dates of a number between them stand the other way: the second one is in a leap second, and
the first one in the second after it. -/
def Overruns (a b c : Value) : Prop :=
  ∃ (s t : Instant) (y : Number), a = date s ∧ b = number y ∧ c = date t ∧ s.FollowsLeap t

theorem less_date_number (s : Instant) (y : Number) :
    (date s).less (number y) = (millisNumber s).less y := by
  rw [less, order?, Number.less]

theorem less_number_date (y : Number) (t : Instant) :
    (number y).less (date t) = y.less (millisNumber t) := by
  rw [less, order?, Number.less]

theorem less_date_through_number {s t : Instant} {y : Number}
    (hab : (date s).less (number y) = true) (hbc : (number y).less (date t) = true) :
    (date s).less (date t) = true ∨ s.FollowsLeap t := by
  rw [less_date_number] at hab
  rw [less_number_date] at hbc
  obtain ⟨-, -, hsy⟩ := Number.less_iff.mp hab
  obtain ⟨-, -, hyt⟩ := Number.less_iff.mp hbc
  have hmillis : s.millis < t.millis :=
    (Number.place_ofInt_lt_iff s.natAbs_millis_le t.natAbs_millis_le).mp (hsy.trans hyt)
  refine (Instant.order_of_millis_lt hmillis).imp_left fun horder => ?_
  simp [less, order?, horder]

theorem less_trans_of_kind (hkind : a.kind = c.kind) (hstring : a.kind ≠ .string)
    (hab : a.less b = true) (hbc : b.less c = true) : a.less c = true ∨ Overruns a b c := by
  have hab' := order?_ne_none_of_atMost (atMost_of_less hab)
  have hbc' := order?_ne_none_of_atMost (atMost_of_less hbc)
  by_cases hcount : a.kind = .date ∧ b.kind = .number
  · cases a with
    | date s =>
      cases b with
      | number y =>
        cases c with
        | date t =>
          refine (less_date_through_number hab hbc).imp_right fun hfollows => ?_
          exact ⟨s, t, y, rfl, rfl, rfl, hfollows⟩
        | _ => cases hkind
      | _ => cases hcount.2
    | _ => cases hcount.1
  · exact .inl ((inLine_of_order? hkind hstring hcount hab' hbc').less_trans hab hbc)

theorem atMost_trans_of_kind (hkind : a.kind = c.kind)
    (hplain : a.kind = .number ∨ a.kind = .boolean) (hab : a.atMost b = true)
    (hbc : b.atMost c = true) : a.atMost c = true := by
  have hstring : a.kind ≠ .string := by rcases hplain with h | h <;> rw [h] <;> decide
  have hdate : a.kind ≠ .date := by rcases hplain with h | h <;> rw [h] <;> decide
  have hline := inLine_of_order? hkind hstring (fun hcount => hdate hcount.1)
    (order?_ne_none_of_atMost hab) (order?_ne_none_of_atMost hbc)
  exact hline.atMost_trans hab hbc

theorem atLeast_eq (v w : Value) : v.atLeast w = w.atMost v := by
  rw [atLeast, atMost, greater, looseEqual, less, looseEqual, order?_beq_swap v w,
    order?_beq_swap v w]
  rfl

theorem not_greater_of_atMost (h : a.atMost c = true) : a.greater c = false := by
  unfold atMost less looseEqual at h
  unfold greater
  cases horder : a.order? c with
  | none => rfl
  | some o => cases o <;> simp_all

/-- How the order of two values of one kind follows from their orders with a third value. -/
structure OrderedThrough (a c : Value) : Prop where
  less : ∀ b, a.less b = true → b.less c = true → a.less c = true ∨ Overruns a b c
  atMost : a.kind = .number ∨ a.kind = .boolean →
    ∀ b, a.atMost b = true → b.atMost c = true → a.atMost c = true
  between : a.kind = .number ∨ a.kind = .boolean → a.greater c = true →
    ∀ column v, (Condition.mk column .between (.range a c)).accepts v = false

theorem orderedThrough (hkind : a.kind = c.kind) (hstring : a.kind ≠ .string) :
    OrderedThrough a c where
  less _ := less_trans_of_kind hkind hstring
  atMost hplain _ := atMost_trans_of_kind hkind hplain
  between hplain hgreater column v := by
    rw [Condition.accepts, Operator.accepts, Bool.eq_false_iff]
    intro haccepts
    rw [Bool.and_eq_true, atLeast_eq] at haccepts
    have hatMost := atMost_trans_of_kind hkind hplain haccepts.1 haccepts.2
    rw [not_greater_of_atMost hatMost] at hgreater
    cases hgreater

theorem orderedThrough_five_one :
    (number (.ofInt 5)).kind = (number (.ofInt 1)).kind ∧ (number (.ofInt 5)).kind ≠ .string ∧
    (number (.ofInt 5)).greater (number (.ofInt 1)) = true ∧
    OrderedThrough (number (.ofInt 5)) (number (.ofInt 1)) ∧
    ∀ v, (Condition.mk "age" .between (.range (number (.ofInt 5)) (number (.ofInt 1)))).accepts v =
      false := by
  have hkind : ∀ x : Number, (number x).kind = .number := fun _ => rfl
  have hsame : (number (.ofInt 5)).kind = (number (.ofInt 1)).kind := by rw [hkind, hkind]
  have hstring : (number (.ofInt 5)).kind ≠ .string := by
    rw [hkind]
    decide
  have hgreater : (number (.ofInt 5)).greater (number (.ofInt 1)) = true := by decide +kernel
  have h : OrderedThrough (number (.ofInt 5)) (number (.ofInt 1)) := orderedThrough hsame hstring
  exact ⟨hsame, hstring, hgreater, h, h.between (.inl (hkind _)) hgreater "age"⟩

/-- Half a second into a leap second at the end of 1969. -/
def insideLeap : Instant where
  seconds := -1
  nanos := 1500000000
  first_le := by decide
  le_last := by decide
  nanos_lt := by decide

/-- A fifth of a second into 1970. -/
def afterLeap : Instant where
  seconds := 0
  nanos := 200000000
  first_le := by decide
  le_last := by decide
  nanos_lt := by decide

/-- The count of 300 milliseconds is past the date that comes later and before the one that comes
earlier. -/
theorem not_less_trans_afterLeap : ¬ ∀ a b c : Value, a.kind = c.kind → a.kind ≠ .string →
    a.less b = true → b.less c = true → a.less c = true := by
  intro h
  have hless := h (date afterLeap) (number (.ofInt 300)) (date insideLeap) rfl Kind.noConfusion
    (by decide +kernel) (by decide +kernel)
  cases hless

end DecisionTables.Value
