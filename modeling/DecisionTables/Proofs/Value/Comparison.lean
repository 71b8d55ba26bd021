import DecisionTables.Condition.Basic
import DecisionTables.Proofs.Number.Order
import Mathlib

/-!
# Comparing in both directions

Values of different kinds are compared by reading the string among them, or the date as a number,
whichever side it stands on. Main statement: for all values the order of the second and the first is
that of the first and the second turned around, so that a condition on one value is the mirrored
condition on the other; and of less, equal and greater one holds for comparable values, none for
others.
-/
namespace DecisionTables

theorem Calendar.Instant.order_swap (a b : Calendar.Instant) : a.order b = (b.order a).swap := by
  rw [order, order, Ordering.swap_then, ← Std.OrientedCmp.eq_swap, ← Std.OrientedCmp.eq_swap]

namespace Value

section Readings

variable {α : Type} (reading : Option α)

theorem bind_swap {f g : α → Option Ordering} (h : ∀ a, f a = (g a).map Ordering.swap) :
    reading.bind f = (reading.bind g).map Ordering.swap := by
  cases reading with
  | none => rfl
  | some a => exact h a

theorem map_swap {f g : α → Ordering} (h : ∀ a, f a = (g a).swap) :
    reading.map f = (reading.map g).map Ordering.swap := by
  cases reading with
  | none => rfl
  | some a => exact congrArg some (h a)

end Readings

theorem order?_swap (v w : Value) : v.order? w = (w.order? v).map Ordering.swap := by
  cases v <;> cases w <;> simp only [order?]
  case bool.bool => exact congrArg some Std.OrientedCmp.eq_swap
  case number.number x y => exact x.order?_swap y
  case string.string => exact congrArg some Std.OrientedCmp.eq_swap
  case date.date a b => exact congrArg some (a.order_swap b)
  case number.date x b => exact x.order?_swap (millisNumber b)
  case date.number a y => exact (millisNumber a).order?_swap y
  -- A string that has no reading is incomparable in both directions.
  case number.string x t => exact bind_swap (numberOf? t) x.order?_swap
  case string.number s y => exact bind_swap (numberOf? s) fun x => x.order?_swap y
  case bool.string a t => exact map_swap (boolOf? t) fun _ => Std.OrientedCmp.eq_swap
  case string.bool s b => exact map_swap (boolOf? s) fun _ => Std.OrientedCmp.eq_swap
  case date.string a t => exact map_swap (dateOf? t) a.order_swap
  case string.date s b => exact map_swap (dateOf? s) fun a => a.order_swap b
  all_goals rfl

theorem order?_eq_none_comm (v w : Value) : v.order? w = none ↔ w.order? v = none := by
  rw [order?_swap, Option.map_eq_none_iff]

theorem order?_beq_swap (v w : Value) (o : Ordering) :
    (v.order? w == some o) = (w.order? v == some o.swap) := by
  rw [order?_swap]
  cases w.order? v with
  | none => rfl
  | some p => cases p <;> cases o <;> rfl

/-- Of less, equal and greater one holds, or none if the values are incomparable. -/
theorem count_comparisons (v w : Value) :
    [v.less w, v.looseEqual w, v.greater w].count true = if v.order? w = none then 0 else 1 := by
  rw [less, looseEqual, greater]
  cases v.order? w with
  | none => rfl
  | some o => cases o <;> rfl

/-- What the comparisons of a value with another one have to do with those of the other one with
it. -/
structure Mirrored (v w : Value) : Prop where
  order : v.order? w = (w.order? v).map Ordering.swap
  incomparable : v.order? w = none ↔ w.order? v = none
  equal : v.looseEqual w = w.looseEqual v
  lt : ∀ column column', (Condition.mk column .lt (.scalar w)).accepts v =
    (Condition.mk column' .gt (.scalar v)).accepts w
  eq : ∀ column column', (Condition.mk column .eq (.scalar w)).accepts v =
    (Condition.mk column' .eq (.scalar v)).accepts w
  gt : ∀ column column', (Condition.mk column .gt (.scalar w)).accepts v =
    (Condition.mk column' .lt (.scalar v)).accepts w
  count : ∀ column, ([Operator.lt, .eq, .gt].map fun operator =>
    (Condition.mk column operator (.scalar w)).accepts v).count true =
      if v.order? w = none then 0 else 1

/-- Comparing two values in one direction answers what comparing them in the other one does. -/
theorem mirrored (v w : Value) : Mirrored v w where
  order := v.order?_swap w
  incomparable := v.order?_eq_none_comm w
  equal := v.order?_beq_swap w .eq
  lt _ _ := v.order?_beq_swap w .lt
  eq _ _ := v.order?_beq_swap w .eq
  gt _ _ := v.order?_beq_swap w .gt
  count _ := v.count_comparisons w

end Value
end DecisionTables
