import DecisionTables.Expression.Reader
import DecisionTables.Proofs.Number.Numeral
import Mathlib

/-!
# The grammar of expressions

Six ranks of binary operators, each joining phrases of the next rank to the left; below them the
unary operators, and below these parentheses, numbers, strings and names. White space may stand
before every token and at the end of the text.

    disjunction = conjunction (`||` conjunction)*
    conjunction = equality (`&&` equality)*
    equality    = comparison ((`===` | `==` | `!==` | `!=`) comparison)*
    comparison  = sum ((`<=` | `>=` | `<` | `>`) sum)*
    sum         = product ((`+` | `-`) product)*
    product     = unary ((`*` | `/` | `%`) unary)*
    unary       = (`!` | `-`) unary | primary
    primary     = `(` disjunction `)` | number | string | name
-/
namespace DecisionTables.Expression
open Text

/-- The ranks of binary operators, from the one that binds least. -/
inductive Rank where
  | disjunction
  | conjunction
  | equality
  | comparison
  | sum
  | product

inductive Phrase where
  | joined (rank : Rank)
  | unary
  | primary

def Rank.operand : Rank → Phrase
  | disjunction => .joined .conjunction
  | conjunction => .joined .equality
  | equality => .joined .comparison
  | comparison => .joined .sum
  | sum => .joined .product
  | product => .unary

/-- The symbols that join the operands of a rank, with the operators that they write. -/
inductive Joins : Rank → List Char → BinaryOp → Prop
  | or : Joins .disjunction ['|', '|'] .or
  | and : Joins .conjunction ['&', '&'] .and
  | strictlyEqual : Joins .equality ['=', '=', '='] .eq
  | equal : Joins .equality ['=', '='] .eq
  | strictlyUnequal : Joins .equality ['!', '=', '='] .ne
  | unequal : Joins .equality ['!', '='] .ne
  | atMost : Joins .comparison ['<', '='] .le
  | atLeast : Joins .comparison ['>', '='] .ge
  | less : Joins .comparison ['<'] .lt
  | greater : Joins .comparison ['>'] .gt
  | plus : Joins .sum ['+'] .add
  | minus : Joins .sum ['-'] .subtract
  | times : Joins .product ['*'] .multiply
  | over : Joins .product ['/'] .divide
  | modulo : Joins .product ['%'] .remainder

/-- A letter, `_` or `$`, and any number of letters, digits, `_`, `$` and dots. -/
def IsName (text : List Char) : Prop :=
  ∃ c rest, text = c :: rest ∧ isNameStart c = true ∧ ∀ d ∈ rest, isNamePart d = true

def constants : List (List Char) :=
  [['t', 'r', 'u', 'e'], ['f', 'a', 'l', 's', 'e'], ['n', 'u', 'l', 'l']]

/-- The texts of numbers, strings and names, with the expressions that they write. -/
inductive Atom : List Char → Expression → Prop
  | number {text : List Char} {d : Decimal} (h : Numeral text d) :
      Atom text (.literal (.number (d.toNumber false)))
  | string {quote : Char} {body : List Char} (hQuote : quote = '"' ∨ quote = '\'')
      (hBody : quote ∉ body) :
      Atom (quote :: (body ++ [quote])) (.literal (.string (String.ofList body)))
  | yes : Atom ['t', 'r', 'u', 'e'] (.literal (.bool true))
  | no : Atom ['f', 'a', 'l', 's', 'e'] (.literal (.bool false))
  | null : Atom ['n', 'u', 'l', 'l'] (.literal .null)
  | fact {text : List Char} (hName : IsName text) (hOther : text ∉ constants) :
      Atom text (.fact (String.ofList text))

/-- The texts of phrases, with the expressions that they write. Operators of one rank bind to the
left. -/
inductive Derives : Phrase → List Char → Expression → Prop
  | operand {rank : Rank} {text : List Char} {e : Expression} (h : Derives rank.operand text e) :
      Derives (.joined rank) text e
  | join {rank : Rank} {left space symbol right : List Char} {op : BinaryOp} {l r : Expression}
      (hLeft : Derives (.joined rank) left l) (hSpace : isBlank space = true)
      (hSymbol : Joins rank symbol op) (hRight : Derives rank.operand right r) :
      Derives (.joined rank) (left ++ (space ++ (symbol ++ right))) (.binary op l r)
  | not {space inner : List Char} {e : Expression} (hSpace : isBlank space = true)
      (h : Derives .unary inner e) : Derives .unary (space ++ '!' :: inner) (.unary .not e)
  | negate {space inner : List Char} {e : Expression} (hSpace : isBlank space = true)
      (h : Derives .unary inner e) : Derives .unary (space ++ '-' :: inner) (.unary .negate e)
  | primary {text : List Char} {e : Expression} (h : Derives .primary text e) :
      Derives .unary text e
  | parentheses {space inner space' : List Char} {e : Expression} (hSpace : isBlank space = true)
      (h : Derives (.joined .disjunction) inner e) (hSpace' : isBlank space' = true) :
      Derives .primary (space ++ '(' :: (inner ++ (space' ++ [')']))) e
  | atom {space text : List Char} {e : Expression} (hSpace : isBlank space = true)
      (h : Atom text e) : Derives .primary (space ++ text) e

def Writes (text : List Char) (e : Expression) : Prop :=
  ∃ body space, text = body ++ space ∧ Derives (.joined .disjunction) body e ∧ isBlank space = true

/-- White space may stand before a phrase, since it may stand before its first token. -/
theorem Derives.space_append {phrase : Phrase} {text space : List Char} {e : Expression}
    (h : Derives phrase text e) (hspace : isBlank space = true) :
    Derives phrase (space ++ text) e := by
  have hboth : ∀ {space' : List Char}, isBlank space' = true →
      isBlank (space ++ space') = true := by
    intro space' hspace'
    simp_all [isBlank]
  induction h with
  | operand _ ih => exact .operand ih
  | join _ hSpace hSymbol hRight ih =>
    rw [← List.append_assoc]
    exact .join ih hSpace hSymbol hRight
  | not hSpace h =>
    rw [← List.append_assoc]
    exact .not (hboth hSpace) h
  | negate hSpace h =>
    rw [← List.append_assoc]
    exact .negate (hboth hSpace) h
  | primary _ ih => exact .primary ih
  | parentheses hSpace h hSpace' =>
    rw [← List.append_assoc]
    exact .parentheses (hboth hSpace) h hSpace'
  | atom hSpace h =>
    rw [← List.append_assoc]
    exact .atom (hboth hSpace) h

def Rank.index : Rank → ℕ
  | disjunction => 0
  | conjunction => 1
  | equality => 2
  | comparison => 3
  | sum => 4
  | product => 5

def Rank.level (rank : Rank) : Level := levels.getD rank.index []

/-- The levels at and below a phrase. -/
def Phrase.levels : Phrase → List Level
  | joined rank => Expression.levels.drop rank.index
  | unary => []
  | primary => []

theorem levels_joined (rank : Rank) :
    (Phrase.joined rank).levels = rank.level :: rank.operand.levels := by
  cases rank <;> rfl

theorem Phrase.levels_subset (phrase : Phrase) : phrase.levels ⊆ Expression.levels := by
  cases phrase with
  | joined rank => exact List.drop_subset _ _
  | unary => exact List.nil_subset _
  | primary => exact List.nil_subset _

theorem mem_level_iff {rank : Rank} {symbol : List Char} {op : BinaryOp} :
    (symbol, op) ∈ rank.level ↔ Joins rank symbol op := by
  constructor
  · intro h
    cases rank <;> simp [Rank.level, Rank.index, levels] at h <;> grind [Joins]
  · intro h
    cases h <;> simp [Rank.level, Rank.index, levels]

end DecisionTables.Expression
