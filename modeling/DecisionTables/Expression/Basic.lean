import DecisionTables.Value.Basic

/-!
# Expressions

The expressions of derived columns: literals, names of facts, and operators. A displayed expression
has parentheses around every operator.
-/
namespace DecisionTables

inductive UnaryOp where
  | not
  | negate
  deriving DecidableEq

inductive BinaryOp where
  | add
  | subtract
  | multiply
  | divide
  | remainder
  | lt
  | le
  | gt
  | ge
  | eq
  | ne
  | and
  | or
  deriving DecidableEq

inductive Expression where
  | literal (value : Value)
  | fact (path : String)
  | unary (op : UnaryOp) (inner : Expression)
  | binary (op : BinaryOp) (left right : Expression)
  deriving DecidableEq

def UnaryOp.symbol : UnaryOp → String
  | not => "!"
  | negate => "-"

def BinaryOp.symbol : BinaryOp → String
  | add => "+"
  | subtract => "-"
  | multiply => "*"
  | divide => "/"
  | remainder => "%"
  | lt => "<"
  | le => "<="
  | gt => ">"
  | ge => ">="
  | eq => "=="
  | ne => "!="
  | and => "&&"
  | or => "||"

def Expression.toText : Expression → String
  | literal v => v.toText
  | fact path => path
  | unary op inner => "(" ++ op.symbol ++ inner.toText ++ ")"
  | binary op left right => "(" ++ left.toText ++ " " ++ op.symbol ++ " " ++ right.toText ++ ")"

end DecisionTables
