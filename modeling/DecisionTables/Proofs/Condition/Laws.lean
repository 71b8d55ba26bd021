import DecisionTables.Proofs.Condition.Operands
import DecisionTables.Proofs.Value.Comparison
import Mathlib

/-!
# Laws of the condition operators

How the cells of different operators on the same operands answer, for every value and for operands
that may hold quotes, brackets and the symbols of operators. Main statement: negated operators
give the opposite answers, the weak comparisons are the strict ones or equality, a range is a lower
and an upper bound, and a list is the equality with one of its entries.
-/
namespace DecisionTables.Cell
open Text

def accepts (column text : String) (v : Value) : Bool := (Condition.ofText column text).accepts v

section Texts

variable {column : String} {v : Value} {operator : Operator} {operand : Operand}
  {symbol text low high : String} {items : List Value}

theorem accepts_of_read (h : read text.toList = (operator, operand)) :
    accepts column text v = operator.accepts operand v := by
  rw [accepts, Condition.ofText, h]
  rfl

theorem accepts_comparison (hSymbol : symbol.toList = operator.symbol.toList ++ [' '])
    (hOperator : operator ∈ [Operator.eq, .ne, .lt, .le, .gt, .ge]) (h : IsOperand text.toList) :
    accepts column (symbol ++ text) v =
      operator.accepts (.scalar (scalar (trim text.toList))) v := by
  apply accepts_of_read
  rw [String.toList_append, hSymbol, List.append_assoc]
  exact read_comparison hOperator h

theorem accepts_listed (hSymbol : symbol.toList = operator.symbol.toList ++ [' ', '('])
    (hOperator : operator = .isIn ∨ operator = .notIn)
    (h : Listed ('(' :: (text.toList ++ [')'])) items) :
    accepts column (symbol ++ text ++ ")") v = operator.accepts (.list items) v := by
  apply accepts_of_read
  have htext : (symbol ++ text ++ ")").toList =
      operator.symbol.toList ++ ([' '] ++ '(' :: (text.toList ++ [')'])) := by
    simp [hSymbol]
  rw [htext]
  exact read_listed hOperator h

theorem accepts_range (hLow : IsOperand low.toList) (hHigh : IsOperand high.toList)
    (hHead : high.toList.head? ≠ some '.') (hDots : ¬ ['.', '.'] <:+: high.toList) :
    accepts column ("[" ++ low ++ ".." ++ high ++ "]") v =
      (v.atLeast (scalar (trim low.toList)) && v.atMost (scalar (trim high.toList))) := by
  have htext : ("[" ++ low ++ ".." ++ high ++ "]").toList =
      '[' :: (low.toList ++ '.' :: '.' :: high.toList ++ [']']) := by
    simp
  have hread := read_range hLow hHigh hHead hDots
  rw [← htext] at hread
  exact accepts_of_read hread

/-- The six comparisons of a value with the scalar that the operand writes. -/
structure Compares (column text : String) (v w : Value) : Prop where
  eq : accepts column ("= " ++ text) v = v.looseEqual w
  ne : accepts column ("!= " ++ text) v = !v.looseEqual w
  lt : accepts column ("< " ++ text) v = v.less w
  le : accepts column ("<= " ++ text) v = v.atMost w
  gt : accepts column ("> " ++ text) v = v.greater w
  ge : accepts column (">= " ++ text) v = v.atLeast w

theorem compares (column : String) (v : Value) (h : IsOperand text.toList) :
    Compares column text v (scalar (trim text.toList)) where
  eq := @accepts_comparison column v .eq "= " text rfl (by simp) h
  ne := @accepts_comparison column v .ne "!= " text rfl (by simp) h
  lt := @accepts_comparison column v .lt "< " text rfl (by simp) h
  le := @accepts_comparison column v .le "<= " text rfl (by simp) h
  gt := @accepts_comparison column v .gt "> " text rfl (by simp) h
  ge := @accepts_comparison column v .ge ">= " text rfl (by simp) h

end Texts

section Laws

variable (column : String) (v : Value) {a b t : String} {ts : List String}

theorem accepts_not_in (h : IsOperand b.toList) :
    accepts column ("not in (" ++ b ++ ")") v = !accepts column ("in (" ++ b ++ ")") v := by
  obtain ⟨items, hlisted⟩ := exists_listed h
  rw [@accepts_listed column v .isIn "in (" b items rfl (.inl rfl) hlisted,
    @accepts_listed column v .notIn "not in (" b items rfl (.inr rfl) hlisted]
  rfl

/-- A value is less than a scalar, equal to it or greater, if it is comparable with it at all. -/
theorem count_accepts_le_one (h : IsOperand t.toList) :
    [accepts column ("< " ++ t) v, accepts column ("= " ++ t) v,
      accepts column ("> " ++ t) v].count true ≤ 1 := by
  have hcompares := compares column v h
  rw [hcompares.lt, hcompares.eq, hcompares.gt, Value.count_comparisons]
  split_ifs <;> decide

theorem accepts_in_iff (hne : ts ≠ []) (h : ∀ t ∈ ts, IsOperand t.toList)
    (hComma : ∀ t ∈ ts, ',' ∉ t.toList) :
    accepts column ("in (" ++ String.intercalate ", " ts ++ ")") v ↔
      ∃ t ∈ ts, accepts column ("= " ++ t) v := by
  have hlisted := @listed_texts (ts.map String.toList) (by simpa using hne) (by simpa using h)
    (by simpa using hComma)
  have htext : [',', ' '].intercalate (ts.map String.toList) =
      (String.intercalate ", " ts).toList := by
    rw [String.toList_intercalate]
    rfl
  rw [htext] at hlisted
  rw [@accepts_listed column v .isIn "in (" _ _ rfl (.inl rfl) hlisted]
  simp only [Operator.accepts, List.any_map, List.any_eq_true]
  refine exists_congr fun t => and_congr_right fun ht => ?_
  rw [(compares column v (h t ht)).eq]
  rfl

/-- The laws of the operators, on operands that are neither blank nor on several lines. Where the
upper bound of a range holds two dots or starts with a dot, the range has other bounds, and where an
entry of a list holds a comma, the list has more entries. -/
theorem accepts_coherent (hA : IsOperand a.toList) (hB : IsOperand b.toList)
    (hT : IsOperand t.toList) (hne : ts ≠ []) (hTs : ∀ t ∈ ts, IsOperand t.toList) :
    (accepts column ("not in (" ++ b ++ ")") v = !accepts column ("in (" ++ b ++ ")") v ∧
      accepts column ("!= " ++ t) v = !accepts column ("= " ++ t) v) ∧
    [accepts column ("< " ++ t) v, accepts column ("= " ++ t) v,
      accepts column ("> " ++ t) v].count true ≤ 1 ∧
    (accepts column ("<= " ++ t) v ↔
      accepts column ("< " ++ t) v ∨ accepts column ("= " ++ t) v) ∧
    (accepts column (">= " ++ t) v ↔
      accepts column ("> " ++ t) v ∨ accepts column ("= " ++ t) v) ∧
    (¬ ['.', '.'] <:+: b.toList → b.toList.head? ≠ some '.' →
      (accepts column ("[" ++ a ++ ".." ++ b ++ "]") v ↔
        accepts column (">= " ++ a) v ∧ accepts column ("<= " ++ b) v)) ∧
    ((∀ t ∈ ts, ',' ∉ t.toList) →
      (accepts column ("in (" ++ String.intercalate ", " ts ++ ")") v ↔
        ∃ t ∈ ts, accepts column ("= " ++ t) v)) := by
  have hcompares := compares column v hT
  refine ⟨⟨accepts_not_in column v hB, ?_⟩, count_accepts_le_one column v hT, ?_, ?_, ?_,
    accepts_in_iff column v hne hTs⟩
  · rw [hcompares.ne, hcompares.eq]
  · rw [hcompares.le, hcompares.lt, hcompares.eq, Value.atMost, Bool.or_eq_true]
  · rw [hcompares.ge, hcompares.gt, hcompares.eq, Value.atLeast, Bool.or_eq_true]
  · intro hDots hHead
    rw [accepts_range hA hB hHead hDots, (compares column v hA).ge, (compares column v hB).le,
      Bool.and_eq_true]

/-- Bounds with a dot and brackets at the cut, and entries that look like other cells. -/
theorem accepts_coherent_brackets :
    (∀ text ∈ ["1.", "(9]", "= 0", "not in (x)", " \"- "], IsOperand text.toList) ∧
    (accepts "code" ("[" ++ "1." ++ ".." ++ "(9]" ++ "]") (.number .nan) ↔
      accepts "code" (">= " ++ "1.") (.number .nan) ∧
        accepts "code" ("<= " ++ "(9]") (.number .nan)) ∧
    (accepts "code" ("in (" ++ String.intercalate ", " ["not in (x)", " \"- "] ++ ")")
        (.number .nan) ↔
      ∃ t ∈ ["not in (x)", " \"- "], accepts "code" ("= " ++ t) (.number .nan)) := by
  have h : ∀ text ∈ ["1.", "(9]", "= 0", "not in (x)", " \"- "], IsOperand text.toList := by
    decide +kernel
  have hTs : ∀ t ∈ ["not in (x)", " \"- "], IsOperand t.toList := fun t ht =>
    h t (List.mem_append_right ["1.", "(9]", "= 0"] ht)
  obtain ⟨_, _, _, _, hRange, hList⟩ := accepts_coherent "code" (.number .nan) (h "1." (by simp))
    (h "(9]" (by simp)) (h "= 0" (by simp)) (by simp) hTs
  exact ⟨h, hRange (by decide) (by decide), hList (by decide)⟩

end Laws
end DecisionTables.Cell
