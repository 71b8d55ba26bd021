import DecisionTables.Record
import DecisionTables.Expression.Evaluation
import DecisionTables.Proofs.Expression.Completeness
import DecisionTables.Proofs.Value.Text

/-!
# Reading what is printed

A printed expression has parentheses around every operator, so that each part of it is a primary
phrase of its own. Main statement: an expression whose names and literals can be written is read
back from its text, and so has the same value on every record.
-/
namespace DecisionTables.Expression
open Text

/-- A literal that its display text writes: not a date, and no number that is not finite or has a
minus, and no string with a double quote in it. -/
def IsLiteral : Value → Prop
  | .null => True
  | .bool _ => True
  | .number (.finite x) => x.negative = false
  | .number _ => False
  | .string text => '"' ∉ text.toList
  | .date _ => False

def Printable : Expression → Prop
  | literal v => IsLiteral v
  | fact path => IsName path.toList ∧ path.toList ∉ constants
  | unary _ inner => inner.Printable
  | binary _ left right => left.Printable ∧ right.Printable

/-- A unary phrase can stand wherever operators join phrases. -/
theorem Derives.of_unary {text : List Char} {e : Expression} (h : Derives .unary text e)
    (rank : Rank) : Derives rank.operand text e := by
  have hproduct : Derives (.joined .product) text e := .operand h
  have hsum : Derives (.joined .sum) text e := .operand hproduct
  have hcomparison : Derives (.joined .comparison) text e := .operand hsum
  have hequality : Derives (.joined .equality) text e := .operand hcomparison
  cases rank with
  | disjunction => exact .operand hequality
  | conjunction => exact hequality
  | equality => exact hcomparison
  | comparison => exact hsum
  | sum => exact hproduct
  | product => exact h

/-- A primary phrase can stand wherever any phrase can. -/
theorem Derives.of_primary {text : List Char} {e : Expression} (h : Derives .primary text e)
    (phrase : Phrase) : Derives phrase text e := by
  have hunary : Derives .unary text e := .primary h
  cases phrase with
  | joined rank => exact .operand (hunary.of_unary rank)
  | unary => exact hunary
  | primary => exact h

/-- What operators of any rank join can stand between parentheses. -/
theorem Derives.of_joined {rank : Rank} {text : List Char} {e : Expression}
    (h : Derives (.joined rank) text e) : Derives (.joined .disjunction) text e := by
  cases rank with
  | disjunction => exact h
  | conjunction => exact .operand h
  | equality => exact .operand (.operand h)
  | comparison => exact .operand (.operand (.operand h))
  | sum => exact .operand (.operand (.operand (.operand h)))
  | product => exact .operand (.operand (.operand (.operand (.operand h))))

def rankOf : BinaryOp → Rank
  | .or => .disjunction
  | .and => .conjunction
  | .eq | .ne => .equality
  | .lt | .le | .gt | .ge => .comparison
  | .add | .subtract => .sum
  | .multiply | .divide | .remainder => .product

theorem joins_symbol (op : BinaryOp) : Joins (rankOf op) op.symbol.toList op := by
  cases op <;> constructor

theorem IsLiteral.isPlain {v : Value} (h : IsLiteral v) (hnull : v ≠ .null) : v.IsPlain := by
  rcases v with _ | _ | (_ | _ | x) | s | _
  · exact absurd rfl hnull
  · trivial
  · cases h
  · cases h
  · trivial
  · trivial
  · cases h

theorem atom_toText {v : Value} (h : IsLiteral v) : Atom v.toText.toList (.literal v) := by
  by_cases hnull : v = .null
  · subst hnull
    exact .null
  have hshown := Value.shown_toText (h.isPlain hnull)
  generalize v.toText.toList = text at hshown
  cases hshown with
  | quoted s =>
    have hatom := Atom.string (.inl rfl) (show '"' ∉ s.toList from h)
    rwa [String.ofList_toList] at hatom
  | plus hNumeral hSign hValue =>
    rw [← hValue]
    exact .number hNumeral
  | @minus numeral d x hNumeral hSign hValue =>
    have hplus : x.negative = false := h
    rw [hSign] at hplus
    cases hplus
  | yes => exact .yes
  | no => exact .no

theorem toList_unary (op : UnaryOp) (inner : Expression) :
    (unary op inner).toText.toList =
      '(' :: (op.symbol.toList ++ (inner.toText.toList ++ [')'])) := by
  simp only [toText, String.toList_append, List.append_assoc]
  rfl

theorem toList_binary (op : BinaryOp) (left right : Expression) :
    (binary op left right).toText.toList =
      '(' :: (left.toText.toList ++ ([' '] ++ (op.symbol.toList ++ ([' '] ++
        right.toText.toList))) ++ [')']) := by
  simp only [toText, String.toList_append, List.append_assoc]
  rfl

/-- Printed, every expression is a primary phrase. -/
theorem derives_toText {e : Expression} (h : e.Printable) :
    Derives .primary e.toText.toList e := by
  have hnone : isBlank [] = true := rfl
  have hspace : isBlank [' '] = true := rfl
  induction e with
  | literal v => exact .atom hnone (atom_toText h)
  | fact path =>
    have hatom := Atom.fact h.1 h.2
    rw [String.ofList_toList] at hatom
    exact .atom hnone hatom
  | unary op inner ih =>
    have hinner := (ih h).of_primary .unary
    have hunary : Derives .unary (op.symbol.toList ++ inner.toText.toList) (.unary op inner) := by
      cases op with
      | not => exact .not hnone hinner
      | negate => exact .negate hnone hinner
    have hproduct : Derives (.joined .product) _ _ := .operand hunary
    rw [toList_unary, ← List.append_assoc]
    exact .parentheses hnone hproduct.of_joined hnone
  | binary op left right ihl ihr =>
    have hleft := (ihl h.1).of_primary (.joined (rankOf op))
    have hright := ((ihr h.2).of_primary (rankOf op).operand).space_append hspace
    have hjoin := Derives.join hleft hspace (joins_symbol op) hright
    rw [toList_binary]
    exact .parentheses hnone hjoin.of_joined hnone

/-- A printed expression is read as itself, and so it evaluates to the same result on every
record. -/
theorem ofText_toText {e : Expression} (h : e.Printable) :
    ofText e.toText = .ok e ∧
      ∀ record : FactRecord,
        (ofText e.toText).map (·.evaluate record.lookup) = .ok (e.evaluate record.lookup) := by
  have hphrase := (derives_toText h).of_primary (.joined .disjunction)
  have hread : ofText e.toText = .ok e :=
    ofText_eq_ok_of_writes ⟨_, [], (List.append_nil _).symm, hphrase, rfl⟩
  refine ⟨hread, fun record => ?_⟩
  rw [hread]
  rfl

/-- `((-order.total) < 1.5) || (!(name == "no (1, 2]"))`, as it is printed and read. -/
def sample : Expression :=
  .binary .or
    (.binary .lt (.unary .negate (.fact "order.total"))
      (.literal (.number (.finite ⟨false, 3 * twoTo 1073, by decide +kernel⟩))))
    (.unary .not (.binary .eq (.fact "name") (.literal (.string "no (1, 2]"))))

theorem ofText_toText_sample :
    sample.Printable ∧ ofText sample.toText = .ok sample ∧
      ∀ record : FactRecord,
        (ofText sample.toText).map (·.evaluate record.lookup) =
          .ok (sample.evaluate record.lookup) := by
  have htotal : IsName "order.total".toList := isName_of_all rfl rfl
  have hname : IsName "name".toList := isName_of_all rfl rfl
  have hquote : '"' ∉ "no (1, 2]".toList := by simp
  have hprintable : sample.Printable :=
    ⟨⟨⟨htotal, by simp [constants]⟩, rfl⟩, ⟨hname, by simp [constants]⟩, hquote⟩
  exact ⟨hprintable, ofText_toText hprintable⟩

end DecisionTables.Expression
