import DecisionTables.Text.Space
import DecisionTables.Condition.Basic

/-!
# Condition cells

The text of a condition, as it is written into a cell of a table:

    not in (a, b)    in (a, b)    [low..high]    <= a    >= a    != a    < a    > a    = a    -

Patterns are tried in this order. A text that fits none of them asks for equality with the scalar
that the whole text writes, so that every text is a cell. Operands extend to the last bracket, to
the rightmost two dots, and over quotes: quotes matter only to the scalars.
-/
namespace DecisionTables.Cell

/-- The text between two equal quotes; a single quote character encloses the empty text. -/
def unquoted? (text : List Char) : Option (List Char) :=
  ['"', '\''].findSome? fun quote =>
    if text.head? = some quote ∧ text.getLast? = some quote then some text.tail.dropLast else none

def plainNumber? (text : List Char) : Option Number :=
  let (negative, unsigned) := match text with
    | '-' :: rest => (true, rest)
    | _ => (false, text)
  match Text.spanNumeral unsigned with
  | some (d, []) => some (d.toNumber negative)
  | _ => none

/-- A scalar: quoted text, a plain number, `true` or `false`, or else the text itself. -/
def scalar (text : List Char) : Value :=
  match unquoted? text with
  | some inner => .string (String.ofList inner)
  | none =>
    match plainNumber? text with
    | some x => .number x
    | none =>
      match Value.boolOf? (String.ofList text) with
      | some b => .bool b
      | none => .string (String.ofList text)

def isLineBreak (c : Char) : Bool := c = '\n' || c = '\r' || c = '\u2028' || c = '\u2029'

def isLineSafe (text : List Char) : Bool := !text.isEmpty && !text.any isLineBreak

/-- What a text holds before a character that ends it. -/
def beforeLast? (c : Char) (text : List Char) : Option (List Char) :=
  if text.getLast? = some c then some text.dropLast else none

def entries? : List Char → Option (List Value)
  | '(' :: rest => do
    let body ← beforeLast? ')' rest
    if isLineSafe body then some ((body.splitOn ',').map fun entry => scalar (Text.trim entry))
    else none
  | _ => none

/-- What stands before and after the rightmost two dots that something follows. -/
def splitAtDots? : List Char → Option (List Char × List Char)
  | [] => none
  | c :: rest =>
    match splitAtDots? rest with
    | some (low, high) => some (c :: low, high)
    | none =>
      match c, rest with
      | '.', '.' :: d :: high => some ([], d :: high)
      | _, _ => none

def splitBounds? : List Char → Option (List Char × List Char)
  | [] => none
  | c :: rest => (splitAtDots? rest).map fun (low, high) => (c :: low, high)

def notInList? (text : List Char) : Option (Operator × Operand) := do
  let rest ← Text.after? ['n', 'o', 't'] text
  let rest ← Text.after? ['i', 'n'] (Text.trimLeft rest)
  let items ← entries? (Text.trimLeft rest)
  some (.notIn, .list items)

def inList? (text : List Char) : Option (Operator × Operand) := do
  let rest ← Text.after? ['i', 'n'] text
  let items ← entries? (Text.trimLeft rest)
  some (.isIn, .list items)

def range? : List Char → Option (Operator × Operand)
  | '[' :: rest => do
    let body ← beforeLast? ']' rest
    let (low, high) ← splitBounds? body
    if isLineSafe low && isLineSafe high then
      some (.between, .range (scalar (Text.trim low)) (scalar (Text.trim high)))
    else none
  | _ => none

/-- The comparison operators, each before those that it starts with. -/
def comparisons : List (List Char × Operator) :=
  [(['<', '='], .le), (['>', '='], .ge), (['!', '='], .ne), (['<'], .lt), (['>'], .gt),
    (['='], .eq)]

def comparison? (text : List Char) : Option (Operator × Operand) :=
  comparisons.findSome? fun (symbol, operator) => do
    let operand := Text.trimLeft (← Text.after? symbol text)
    if isLineSafe operand then some (operator, .scalar (scalar (Text.trim operand))) else none

def any? (text : List Char) : Option (Operator × Operand) :=
  if text = ['-'] then some (.any, .none) else none

/-- The first pattern that a trimmed text fits. -/
def pattern? (text : List Char) : Option (Operator × Operand) :=
  (notInList? text).or ((inList? text).or ((range? text).or ((comparison? text).or (any? text))))

/-- The operator and the operand of a cell. White space around its text is ignored. -/
def read (text : List Char) : Operator × Operand :=
  let text := Text.trim text
  (pattern? text).getD (.eq, .scalar (scalar text))

end DecisionTables.Cell

namespace DecisionTables

def Condition.ofText (column text : String) : Condition :=
  let (operator, operand) := Cell.read text.toList
  ⟨column, operator, operand⟩

/-- What is entered for a column: the text of a cell, or a value to be met exactly. -/
inductive CellEntry where
  | text (text : String)
  | exact (value : Value)
  deriving DecidableEq

def CellEntry.condition (column : String) : CellEntry → Condition
  | text t => .ofText column t
  | exact v => .exact column v

end DecisionTables
