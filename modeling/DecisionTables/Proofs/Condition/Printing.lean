import DecisionTables.Proofs.Condition.Operands
import Mathlib

/-!
# Reading displayed conditions

Strings stand in a displayed condition without escapes, so that what a cell gives a meaning to may
stand in them. Main statement: the cell of a displayed condition is read as the condition, provided
that no string of a list holds a comma and no upper bound of a range holds two dots.
-/
namespace DecisionTables.Cell
open Text

/-- The operators and operands whose text is read back. -/
inductive Printable : Operator → Operand → Prop
  | scalar {operator : Operator} {v : Value}
      (hOperator : operator ∈ [.eq, .ne, .lt, .le, .gt, .ge]) (h : IsScalar v) :
      Printable operator (.scalar v)
  | range {low high : Value} (hLow : IsScalar low) (hHigh : IsScalar high)
      (hDots : ∀ s, high = .string s → ¬ ['.', '.'] <:+: s.toList) :
      Printable .between (.range low high)
  | list {operator : Operator} {items : List Value}
      (hOperator : operator = .isIn ∨ operator = .notIn) (hne : items ≠ [])
      (h : ∀ v ∈ items, IsScalar v) (hComma : ∀ s, .string s ∈ items → ',' ∉ s.toList) :
      Printable operator (.list items)
  | any : Printable .any .none

theorem IsScalar.isOperand {v : Value} (h : IsScalar v) : IsOperand v.toText.toList where
  visible := by simpa using h.shown.endsOutsideSpace.not_isBlank h.shown.ne_nil
  line := h.isLineBreak_of_mem

theorem toList_cellText {operator : Operator} (operand : Operand) (hany : operator ≠ .any)
    (hbetween : operator ≠ .between) :
    (Condition.cellText operator operand).toList =
      operator.symbol.toList ++ ([' '] ++ operand.toText.toList) := by
  have hcell : Condition.cellText operator operand = operator.symbol ++ " " ++ operand.toText := by
    cases operator <;> first | rfl | contradiction
  rw [hcell, String.toList_append, String.toList_append, List.append_assoc]
  rfl

theorem read_cellText_scalar {operator : Operator} {v : Value}
    (hOperator : operator ∈ [Operator.eq, .ne, .lt, .le, .gt, .ge]) (h : IsScalar v) :
    read (Condition.cellText operator (.scalar v)).toList = (operator, .scalar v) := by
  rw [toList_cellText _ (by rintro rfl; simp at hOperator) (by rintro rfl; simp at hOperator)]
  change read (operator.symbol.toList ++ ([' '] ++ v.toText.toList)) = _
  rw [read_comparison hOperator h.isOperand, h.scalar_trim]

theorem toList_range (low high : Value) :
    (Operand.range low high).toText.toList =
      '[' :: (low.toText.toList ++ '.' :: '.' :: high.toText.toList ++ [']']) := by
  simp only [Operand.toText, String.toList_append, List.append_assoc]
  rfl

theorem read_cellText_range {low high : Value} (hLow : IsScalar low) (hHigh : IsScalar high)
    (hDots : ∀ s, high = .string s → ¬ ['.', '.'] <:+: s.toList) :
    read (Condition.cellText .between (.range low high)).toList = (.between, .range low high) := by
  change read (Operand.range low high).toText.toList = _
  rw [toList_range, read_range hLow.isOperand hHigh.isOperand hHigh.shown.head?_ne_dot
    (hHigh.shown.dots_not_infix hDots), hLow.scalar_trim, hHigh.scalar_trim]

theorem toList_list (items : List Value) :
    (Operand.list items).toText.toList =
      '(' :: ([',', ' '].intercalate (items.map fun v => v.toText.toList) ++ [')']) := by
  simp only [Operand.toText, String.toList_append, String.toList_intercalate, List.map_map]
  rfl

variable {items : List Value}

/-- The text of a list is one of entries that are read as its items. -/
theorem listed_toText (hne : items ≠ []) (h : ∀ v ∈ items, IsScalar v)
    (hComma : ∀ s, .string s ∈ items → ',' ∉ s.toList) :
    Listed (Operand.list items).toText.toList items := by
  have hOperands : ∀ text ∈ items.map fun v => v.toText.toList, IsOperand text := by
    intro text htext
    obtain ⟨v, hv, rfl⟩ := List.mem_map.mp htext
    exact (h v hv).isOperand
  have hCommas : ∀ text ∈ items.map fun v => v.toText.toList, ',' ∉ text := by
    intro text htext
    obtain ⟨v, hv, rfl⟩ := List.mem_map.mp htext
    refine (h v hv).shown.comma_not_mem fun s hs => hComma s ?_
    rwa [← hs]
  have hItems : items.map ((fun text => scalar (trim text)) ∘ fun v => v.toText.toList) = items := by
    conv_rhs => rw [← List.map_id items]
    exact List.map_congr_left fun v hv => (h v hv).scalar_trim
  have hlisted := listed_texts (by simpa using hne) hOperands hCommas
  rwa [List.map_map, hItems, ← toList_list] at hlisted

theorem read_cellText_list {operator : Operator}
    (hOperator : operator = .isIn ∨ operator = .notIn) (hne : items ≠ [])
    (h : ∀ v ∈ items, IsScalar v) (hComma : ∀ s, .string s ∈ items → ',' ∉ s.toList) :
    read (Condition.cellText operator (.list items)).toList = (operator, .list items) := by
  rw [toList_cellText _ (by rintro rfl; simp at hOperator) (by rintro rfl; simp at hOperator)]
  exact read_listed hOperator (listed_toText hne h hComma)

theorem read_cellText_any : read (Condition.cellText .any .none).toList = (.any, .none) := by
  change read ['-'] = _
  refine read_of_fits 9 rfl ?_ (startsOutside_cons rfl) ?_ .any
  · simp [patterns, Pattern.lead]
  · intro c hc
    cases hc
    rfl

end DecisionTables.Cell

namespace DecisionTables

/-- A condition is displayed as its column, a space and a cell that is read as the condition. -/
theorem Condition.exists_cell_read_eq (c : Condition) (h : Cell.Printable c.operator c.operand) :
    ∃ cell : String, c.toText = c.column ++ " " ++ cell ∧
      Cell.read cell.toList = (c.operator, c.operand) := by
  refine ⟨cellText c.operator c.operand, rfl, ?_⟩
  obtain ⟨column, operator, operand⟩ := c
  cases h with
  | scalar hOperator h => exact Cell.read_cellText_scalar hOperator h
  | range hLow hHigh hDots => exact Cell.read_cellText_range hLow hHigh hDots
  | list hOperator hne h hComma => exact Cell.read_cellText_list hOperator hne h hComma
  | any => exact Cell.read_cellText_any

/-- A list with entries that hold brackets, quotes and white space, and with minus zero. -/
theorem Condition.exists_cell_read_eq_list :
    ∃ cell : String,
      Condition.toText ⟨"code", .notIn, .list [.string " (\"x\")] ", .number (.finite (.zero true)),
        .bool false]⟩ = "code" ++ " " ++ cell ∧
      Cell.read cell.toList = (.notIn, .list [.string " (\"x\")] ",
        .number (.finite (.zero true)), .bool false]) := by
  refine Condition.exists_cell_read_eq ⟨"code", .notIn, _⟩ (.list (.inr rfl) (by simp) ?_ ?_)
  · intro v hv
    simp only [List.mem_cons, List.not_mem_nil, or_false] at hv
    rcases hv with rfl | rfl | rfl
    · refine ⟨trivial, fun s hs => ?_⟩
      cases hs
      simp [Cell.isLineBreak]
    · exact ⟨trivial, fun s hs => by cases hs⟩
    · exact ⟨trivial, fun s hs => by cases hs⟩
  · intro s hs
    simp only [List.mem_cons, List.not_mem_nil, or_false, Value.string.injEq, reduceCtorEq] at hs
    rw [hs]
    decide

end DecisionTables
