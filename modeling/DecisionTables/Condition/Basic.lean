import DecisionTables.Value.Basic

/-!
# Conditions

What a rule asks of one column: an operator and its operand. A value that is incomparable with the
operand satisfies none of the ordered operators; "not equal" and "not in" are the negations of
"equal" and "in". An operator with an operand of the wrong shape is satisfied by nothing, except
that "any" is satisfied by everything.
-/
namespace DecisionTables

inductive Operator where
  | eq
  | ne
  | lt
  | le
  | gt
  | ge
  | between
  | isIn
  | notIn
  | any
  deriving DecidableEq

def Operator.symbol : Operator → String
  | eq => "="
  | ne => "!="
  | lt => "<"
  | le => "<="
  | gt => ">"
  | ge => ">="
  | between => "between"
  | isIn => "in"
  | notIn => "not in"
  | any => "-"

inductive Operand where
  | none
  | scalar (value : Value)
  | range (low high : Value)
  | list (items : List Value)
  deriving DecidableEq

structure Condition where
  column : String
  operator : Operator
  operand : Operand
  deriving DecidableEq

def Operator.accepts : Operator → Operand → Value → Bool
  | any, _, _ => true
  | eq, .scalar w, v => v.looseEqual w
  | ne, .scalar w, v => !v.looseEqual w
  | lt, .scalar w, v => v.less w
  | le, .scalar w, v => v.atMost w
  | gt, .scalar w, v => v.greater w
  | ge, .scalar w, v => v.atLeast w
  | between, .range low high, v => v.atLeast low && v.atMost high
  | isIn, .list items, v => items.any v.looseEqual
  | notIn, .list items, v => !items.any v.looseEqual
  | _, _, _ => false

namespace Condition

def exact (column : String) (value : Value) : Condition := ⟨column, .eq, .scalar value⟩

def accepts (c : Condition) (v : Value) : Bool := c.operator.accepts c.operand v

end Condition

def Operand.toText : Operand → String
  | none => ""
  | scalar v => v.toText
  | range low high => "[" ++ low.toText ++ ".." ++ high.toText ++ "]"
  | list items => "(" ++ String.intercalate ", " (items.map Value.toText) ++ ")"

namespace Condition

/-- The operator and the operand, as they stand in a cell. A range needs no operator. -/
def cellText (operator : Operator) (operand : Operand) : String :=
  match operator with
  | .any => "-"
  | .between => operand.toText
  | op => op.symbol ++ " " ++ operand.toText

def toText (c : Condition) : String := c.column ++ " " ++ cellText c.operator c.operand

end Condition
end DecisionTables
