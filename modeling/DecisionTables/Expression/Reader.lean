import DecisionTables.Text.Align
import DecisionTables.Text.Space
import DecisionTables.Expression.Basic

/-!
# Reading expressions

Binary operators bind in six levels and to the left; `!` and `-` bind tighter than all of them.
White space may stand before every token. Of two operators of one level the longer is tried first,
and what is read is never given back: once an operator or an opening parenthesis is read, its
operand must follow.
-/
namespace DecisionTables

namespace Expression

inductive Reason where
  /-- An operand or a closing parenthesis is missing; there is one mention of an operand for each
  open parenthesis, and one for the operand itself if that is missing. -/
  | operandExpected (mentions : Nat)
  /-- A complete expression is followed by a character that does not belong to it. -/
  | unexpected (c : Char)
  deriving DecidableEq

def Reason.message : Reason → String
  | operandExpected mentions =>
    "expected " ++ String.intercalate ", " (List.replicate mentions "operand")
  | unexpected c => "unexpected character '" ++ String.singleton c ++ "'"

/-- A text that is no expression, and the place in it, counted in bytes, at which that shows. -/
structure ParseError where
  source : String
  offset : Nat
  reason : Reason
  deriving DecidableEq

def ParseError.message (e : ParseError) : String :=
  "invalid expression \u0060" ++ e.source ++ "\u0060 at offset " ++ toString e.offset ++ ": " ++
    e.reason.message

/-- Where reading stopped for want of an operand or a closing parenthesis: the rest of the text,
and how often the message mentions an operand. -/
structure Stop where
  rest : List Char
  mentions : Nat
  deriving DecidableEq

abbrev Reader := List Char → Except Stop (Expression × List Char)

def isNameStart (c : Char) : Bool := c.isAlpha || c = '_' || c = '$'

def isNamePart (c : Char) : Bool := c.isAlphanum || c = '_' || c = '$' || c = '.'

def ofName (name : List Char) : Expression :=
  let name := String.ofList name
  if name = "true" then .literal (.bool true)
  else if name = "false" then .literal (.bool false)
  else if name = "null" then .literal .null
  else .fact name

def untilQuote? (quote : Char) (text : List Char) : Option (List Char × List Char) :=
  match text.dropWhile (· ≠ quote) with
  | [] => none
  | _ :: rest => some (text.takeWhile (· ≠ quote), rest)

/-- A number, a string or a name, after white space. -/
def atom? (text : List Char) : Option (Expression × List Char) :=
  match Text.spanNumeral text with
  | some (d, rest) => some (.literal (.number (d.toNumber false)), rest)
  | none =>
    match text with
    | [] => none
    | c :: rest =>
      if c = '"' ∨ c = '\'' then
        (untilQuote? c rest).map fun (body, rest) => (.literal (.string (String.ofList body)), rest)
      else if isNameStart c then
        some (ofName (text.takeWhile isNamePart), text.dropWhile isNamePart)
      else none

/-- The symbols of operators that bind alike, each before those that it starts with. -/
abbrev Level := List (List Char × BinaryOp)

/-- The levels, from the one that binds least. -/
def levels : List Level :=
  [[(['|', '|'], .or)],
    [(['&', '&'], .and)],
    [(['=', '=', '='], .eq), (['=', '='], .eq), (['!', '=', '='], .ne), (['!', '='], .ne)],
    [(['<', '='], .le), (['>', '='], .ge), (['<'], .lt), (['>'], .gt)],
    [(['+'], .add), (['-'], .subtract)],
    [(['*'], .multiply), (['/'], .divide), (['%'], .remainder)]]

/-- The operator of a level that comes next, and what follows it. -/
def operator? (level : Level) (text : List Char) : Option (BinaryOp × List Char) :=
  level.findSome? fun (symbol, op) => (Text.after? symbol (Text.trimLeft text)).map (op, ·)

/-- The operators of a level and their right operands, as long as there are any, put to the right
of an expression. The fuel is the length of the text. -/
def chainFrom (level : Level) (operand : Reader) : Nat → Expression → Reader
  | 0, left, text => .ok (left, text)
  | fuel + 1, left, text =>
    match operator? level text with
    | none => .ok (left, text)
    | some (op, text) => do
      let (right, text) ← operand text
      chainFrom level operand fuel (.binary op left right) text

def chain (level : Level) (operand : Reader) : Reader := fun text => do
  let (left, text) ← operand text
  chainFrom level operand text.length left text

/-- Operands that the operators of several levels join, the first level binding least. -/
def joined (operand : Reader) : List Level → Reader
  | [] => operand
  | level :: levels => chain level (joined operand levels)

/-- What stands between parentheses, after the opening one; `inner` reads the expression. -/
def parenthesized (inner : Reader) : Reader := fun text =>
  match inner text with
  | .error stop => .error { stop with mentions := stop.mentions + 1 }
  | .ok (e, rest) =>
    match Text.trimLeft rest with
    | ')' :: rest => .ok (e, rest)
    | rest => .error ⟨rest, 1⟩

/-- An operand: a sign or a negation and its operand, an expression between parentheses, or an
atom. The fuel is more than the length of the text. -/
def operand : Nat → Reader
  | 0, text => .error ⟨text, 1⟩
  | fuel + 1, text =>
    match Text.trimLeft text with
    | '!' :: rest => (operand fuel rest).map fun (e, rest) => (.unary .not e, rest)
    | '-' :: rest => (operand fuel rest).map fun (e, rest) => (.unary .negate e, rest)
    | '(' :: rest => parenthesized (joined (operand fuel) levels) rest
    | text =>
      match atom? text with
      | some result => .ok result
      | none => .error ⟨text, 1⟩

def readPart : Reader := fun text => joined (operand (text.length + 1)) levels text

def ofText (source : String) : Except ParseError Expression :=
  let text := source.toList
  let offset (rest : List Char) := Text.byteLength text - Text.byteLength rest
  match readPart text with
  | .error stop => .error ⟨source, offset stop.rest, .operandExpected stop.mentions⟩
  | .ok (e, rest) =>
    match Text.trimLeft rest with
    | [] => .ok e
    | c :: rest => .error ⟨source, offset (c :: rest), .unexpected c⟩

end Expression
end DecisionTables
