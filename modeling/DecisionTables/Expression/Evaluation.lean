import DecisionTables.Number.Arithmetic
import DecisionTables.Expression.Basic

/-!
# Evaluating expressions

An expression is evaluated against the facts that its names stand for. Operands are evaluated from
left to right, the right one of `&&` and `||` only where the left one does not decide; arithmetic
asks for the numeric view of both operands, except that `+` joins text if either is a string.
-/
namespace DecisionTables.Expression

inductive Failure where
  | unknownFact (path : String)
  | divisionByZero
  | typeMismatch (op : BinaryOp) (left right : Value.Kind)
  | invalidNegation (operand : Value.Kind)
  deriving DecidableEq

def Failure.message : Failure → String
  | unknownFact path => "unknown identifier '" ++ path ++ "'"
  | divisionByZero => "division by zero"
  | typeMismatch op left right =>
    "operator '" ++ op.symbol ++ "' cannot be applied to " ++ left.name ++ " and " ++ right.name
  | invalidNegation operand => "cannot negate " ++ operand.name

def arithmetic (op : BinaryOp) (f : Number → Number → Except Failure Number) (a b : Value) :
    Except Failure Value :=
  match a.number?, b.number? with
  | some x, some y => (f x y).map .number
  | _, _ => .error (.typeMismatch op a.kind b.kind)

/-- Division and what is left of it, refused for a divisor of zero. -/
def unlessZero (f : Number → Number → Number) (x y : Number) : Except Failure Number :=
  if y.isZero then .error .divisionByZero else .ok (f x y)

def apply (op : BinaryOp) (a b : Value) : Except Failure Value :=
  match op with
  | .add =>
    if a.isString || b.isString then .ok (.string (a.plainText ++ b.plainText))
    else arithmetic .add (fun x y => .ok (x.add y)) a b
  | .subtract => arithmetic .subtract (fun x y => .ok (x.subtract y)) a b
  | .multiply => arithmetic .multiply (fun x y => .ok (x.multiply y)) a b
  | .divide => arithmetic .divide (unlessZero Number.divide) a b
  | .remainder => arithmetic .remainder (unlessZero Number.remainder) a b
  | .lt => .ok (.bool (a.less b))
  | .le => .ok (.bool (a.atMost b))
  | .gt => .ok (.bool (a.greater b))
  | .ge => .ok (.bool (a.atLeast b))
  | .eq => .ok (.bool (a.looseEqual b))
  | .ne => .ok (.bool (!a.looseEqual b))
  | .and => .ok (.bool (a.isTrue && b.isTrue))
  | .or => .ok (.bool (a.isTrue || b.isTrue))

def applyUnary (op : UnaryOp) (v : Value) : Except Failure Value :=
  match op with
  | .not => .ok (.bool (!v.isTrue))
  | .negate =>
    match v.number? with
    | some x => .ok (.number x.negate)
    | none => .error (.invalidNegation v.kind)

/-- The left operand alone decides the value of `&&` or `||`. -/
def decides (op : BinaryOp) (left : Value) : Bool :=
  match op with
  | .and => !left.isTrue
  | .or => left.isTrue
  | _ => false

/-- The value of an expression, `fact?` giving the facts. -/
def evaluate (fact? : String → Option Value) : Expression → Except Failure Value
  | literal v => .ok v
  | fact path =>
    match fact? path with
    | some v => .ok v
    | none => .error (.unknownFact path)
  | unary op inner => do applyUnary op (← inner.evaluate fact?)
  | binary op left right => do
    let a ← left.evaluate fact?
    if decides op a then .ok (.bool a.isTrue)
    else apply op a (← right.evaluate fact?)

end DecisionTables.Expression
