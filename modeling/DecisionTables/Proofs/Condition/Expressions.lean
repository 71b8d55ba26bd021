import DecisionTables.Proofs.Expression.Printing
import DecisionTables.Proofs.Table.Derived
import Mathlib

/-!
# Conditions written as expressions

A comparison, a range or a list of values can be asked for in the language of expressions as well:
as a comparison, two of them joined by `&&`, or any number of them joined by `||`. Main statement:
a rule with such a condition on a fact matches a record exactly if a rule does that asks for `true`
in a column derived by the expression.
-/
namespace DecisionTables

/-- Null, a truth value, a finite number, or a string that can stand between double quotes. -/
def Value.IsWritten : Value → Prop
  | null => True
  | bool _ => True
  | number (.finite _) => True
  | number _ => False
  | string text => '"' ∉ text.toList
  | date _ => False

instance : DecidablePred Value.IsWritten
  | .null | .bool _ | .number (.finite _) => inferInstanceAs (Decidable True)
  | .number .nan | .number (.infinite _) | .date _ => inferInstanceAs (Decidable False)
  | .string text => inferInstanceAs (Decidable ('"' ∉ text.toList))

def Operand.values : Operand → List Value
  | none => []
  | scalar v => [v]
  | range low high => [low, high]
  | list items => items

/-- The comparison that an operator makes with a single value. -/
def Operator.comparison? : Operator → Option BinaryOp
  | eq => some .eq
  | ne => some .ne
  | lt => some .lt
  | le => some .le
  | gt => some .gt
  | ge => some .ge
  | _ => none

namespace Condition

def comparisonText (column : String) (op : BinaryOp) (v : Value) : String :=
  column ++ " " ++ op.symbol ++ " " ++ v.toText

def expressionText? (c : Condition) : Option String :=
  match c.operator, c.operand with
  | .between, .range low high =>
    some (comparisonText c.column .ge low ++ " && " ++ comparisonText c.column .le high)
  | .isIn, .list (first :: others) =>
    some (String.intercalate " || " ((first :: others).map (comparisonText c.column .eq)))
  | .notIn, .list (first :: others) =>
    some ("!(" ++ String.intercalate " || " ((first :: others).map (comparisonText c.column .eq)) ++
      ")")
  | operator, .scalar v => operator.comparison?.map fun op => comparisonText c.column op v
  | _, _ => none

end Condition

namespace Expression
open Text

/-- A phrase that can be read, and that evaluates to `p v` wherever the fact of the column is
`v`. -/
def Says (column : String) (phrase : Phrase) (text : List Char) (p : Value → Bool) : Prop :=
  ∃ e, Derives phrase text e ∧ ∀ (fact? : String → Option Value) (v : Value),
    fact? column = some v → e.evaluate fact? = .ok (.bool (p v))

theorem exists_derives_toText {v : Value} (h : v.IsWritten) :
    ∃ e, Derives .unary v.toText.toList e ∧ ∀ fact?, e.evaluate fact? = .ok v := by
  have hnone : isBlank [] = true := rfl
  -- All but numbers with a minus are literals; the minus is an operator in front of one.
  by_cases hliteral : IsLiteral v
  · exact ⟨.literal v, .primary (.atom hnone (atom_toText hliteral)), fun _ => rfl⟩
  obtain ⟨x, rfl, hnegative⟩ : ∃ x, v = .number (.finite x) ∧ x.negative = true := by
    rcases v with _ | _ | (_ | _ | x) | s | _
    · exact absurd trivial hliteral
    · exact absurd trivial hliteral
    · cases h
    · cases h
    · exact ⟨x, rfl, by simpa [IsLiteral] using hliteral⟩
    · exact absurd h hliteral
    · cases h
  have hshown : Value.Shown _ (.number (.finite x)) := Value.shown_toText trivial
  generalize (Value.number (.finite x)).toText.toList = text at hshown
  cases hshown with
  | plus hNumeral hSign hValue =>
    rw [hnegative] at hSign
    cases hSign
  | @minus numeral d _ hNumeral hSign hValue =>
    refine ⟨_, .negate hnone (.primary (.atom hnone (.number hNumeral))), fun fact? => ?_⟩
    have hnegate : (d.toNumber false).negate = .finite x := by
      rw [d.negate_toNumber, Bool.not_false, hValue]
    change Except.ok (Value.number (d.toNumber false).negate) = _
    rw [hnegate]

variable {column : String}

theorem Says.mono {phrase phrase' : Phrase} {text : List Char} {p : Value → Bool}
    (h : Says column phrase text p)
    (hphrase : ∀ {e}, Derives phrase text e → Derives phrase' text e) :
    Says column phrase' text p := by
  obtain ⟨e, hderives, hevaluate⟩ := h
  exact ⟨e, hphrase hderives, hevaluate⟩

/-- An operator between two phrases, with a space on either side. -/
theorem Derives.join_spaced {rank : Rank} {left symbol right : List Char} {op : BinaryOp}
    {l r : Expression} (hleft : Derives (.joined rank) left l) (hsymbol : Joins rank symbol op)
    (hright : Derives rank.operand right r) :
    Derives (.joined rank) (left ++ ([' '] ++ (symbol ++ ([' '] ++ right)))) (.binary op l r) := by
  have hspace : isBlank [' '] = true := rfl
  exact .join hleft hspace hsymbol (hright.space_append hspace)

theorem toList_comparisonText (op : BinaryOp) (v : Value) :
    (Condition.comparisonText column op v).toList =
      column.toList ++ ([' '] ++ (op.symbol.toList ++ ([' '] ++ v.toText.toList))) := by
  simp only [Condition.comparisonText, String.toList_append, List.append_assoc]
  rfl

theorem evaluate_and {fact? : String → Option Value} {l r : Expression} {a b : Bool}
    (hl : l.evaluate fact? = .ok (.bool a)) (hr : r.evaluate fact? = .ok (.bool b)) :
    (binary .and l r).evaluate fact? = .ok (.bool (a && b)) := by
  simp only [evaluate, hl, hr]
  cases a <;> cases b <;> rfl

theorem evaluate_or {fact? : String → Option Value} {l r : Expression} {a b : Bool}
    (hl : l.evaluate fact? = .ok (.bool a)) (hr : r.evaluate fact? = .ok (.bool b)) :
    (binary .or l r).evaluate fact? = .ok (.bool (a || b)) := by
  simp only [evaluate, hl, hr]
  cases a <;> cases b <;> rfl

theorem Says.and {left right : List Char} {p q : Value → Bool}
    (hleft : Says column (.joined .conjunction) left p)
    (hright : Says column (.joined .equality) right q) :
    Says column (.joined .conjunction) (left ++ ([' ', '&', '&', ' '] ++ right))
      (fun v => p v && q v) := by
  obtain ⟨l, hl, hp⟩ := hleft
  obtain ⟨r, hr, hq⟩ := hright
  exact ⟨.binary .and l r, hl.join_spaced .and hr,
    fun fact? v hv => evaluate_and (hp fact? v hv) (hq fact? v hv)⟩

theorem Says.or {left right : List Char} {p q : Value → Bool}
    (hleft : Says column (.joined .disjunction) left p)
    (hright : Says column (.joined .conjunction) right q) :
    Says column (.joined .disjunction) (left ++ ([' ', '|', '|', ' '] ++ right))
      (fun v => p v || q v) := by
  obtain ⟨l, hl, hp⟩ := hleft
  obtain ⟨r, hr, hq⟩ := hright
  exact ⟨.binary .or l r, hl.join_spaced .or hr,
    fun fact? v hv => evaluate_or (hp fact? v hv) (hq fact? v hv)⟩

theorem Says.not {text : List Char} {p : Value → Bool}
    (h : Says column (.joined .disjunction) text p) :
    Says column .unary ('!' :: '(' :: (text ++ [')'])) (fun v => !p v) := by
  obtain ⟨e, he, hp⟩ := h
  have hnone : isBlank [] = true := rfl
  refine ⟨.unary .not e, .not hnone (.primary (.parentheses hnone he hnone)), fun fact? v hv => ?_⟩
  simp only [evaluate, hp fact? v hv]
  rfl

theorem intercalate_join (separator first second : List Char) (others : List (List Char)) :
    separator.intercalate (first :: second :: others) =
      separator.intercalate ((first ++ (separator ++ second)) :: others) := by
  cases others <;> simp

section Comparisons

variable (hcolumn : IsName column.toList ∧ column.toList ∉ constants)
include hcolumn

theorem says_comparison {operator : Operator} {op : BinaryOp} {v : Value}
    (hop : operator.comparison? = some op) (hv : v.IsWritten) :
    Says column (.joined (rankOf op)) (Condition.comparisonText column op v).toList
      (operator.accepts (.scalar v)) := by
  obtain ⟨right, hright, hvalue⟩ := exists_derives_toText hv
  have hfact := Atom.fact hcolumn.1 hcolumn.2
  rw [String.ofList_toList] at hfact
  have hnone : isBlank [] = true := rfl
  have hleft : Derives .primary column.toList (.fact column) := .atom hnone hfact
  refine ⟨.binary op (.fact column) right, ?_, fun fact? w hw => ?_⟩
  · rw [toList_comparisonText]
    exact (hleft.of_primary _).join_spaced (joins_symbol op) (hright.of_unary _)
  · simp only [evaluate, hw, hvalue]
    cases operator <;> cases hop <;> rfl

theorem Says.or_equalities {text : List Char} {p : Value → Bool} (others : List Value)
    (hothers : ∀ w ∈ others, w.IsWritten) (h : Says column (.joined .disjunction) text p) :
    Says column (.joined .disjunction)
      ([' ', '|', '|', ' '].intercalate
        (text :: others.map fun w => (Condition.comparisonText column .eq w).toList))
      (fun v => p v || others.any v.looseEqual) := by
  -- What stands to the left grows with each value, and what it says with it.
  induction others generalizing text p with
  | nil => simpa using h
  | cons w others ih =>
    obtain ⟨hw, hothers⟩ := List.forall_mem_cons.mp hothers
    have heq : Operator.eq.comparison? = some .eq := rfl
    have hequality := (says_comparison hcolumn heq hw).mono (@Derives.operand .conjunction _)
    have hboth := h.or hequality
    rw [List.map_cons, intercalate_join]
    simpa [Bool.or_assoc, Operator.accepts] using ih hothers hboth

theorem says_equalities {first : Value} {others : List Value}
    (hvalues : ∀ w ∈ first :: others, w.IsWritten) :
    Says column (.joined .disjunction)
      (String.intercalate " || "
        ((first :: others).map (Condition.comparisonText column .eq))).toList
      (fun v => (first :: others).any v.looseEqual) := by
  obtain ⟨hfirst, hothers⟩ := List.forall_mem_cons.mp hvalues
  have heq : Operator.eq.comparison? = some .eq := rfl
  have hequality := (says_comparison hcolumn heq hfirst).mono Derives.of_joined
  have hall := hequality.or_equalities hcolumn others hothers
  rw [String.toList_intercalate, List.map_cons, List.map_cons, List.map_map]
  exact hall

end Comparisons

/-- The expression of a condition says what the condition accepts. -/
theorem says_expressionText? {c : Condition} {text : String}
    (hcolumn : IsName c.column.toList ∧ c.column.toList ∉ constants)
    (hvalues : ∀ w ∈ c.operand.values, w.IsWritten) (htext : c.expressionText? = some text) :
    Says c.column (.joined .disjunction) text.toList c.accepts := by
  obtain ⟨column, operator, operand⟩ := c
  unfold Condition.expressionText? at htext
  dsimp only at htext hcolumn hvalues
  split at htext
  · next low high =>
    cases htext
    obtain ⟨hlow, hhigh⟩ : low.IsWritten ∧ high.IsWritten := by
      simpa [Operand.values] using hvalues
    have hge : Operator.ge.comparison? = some .ge := rfl
    have hle : Operator.le.comparison? = some .le := rfl
    have hleft := (says_comparison hcolumn hge hlow).mono (@Derives.operand .equality _)
    have hright := (says_comparison hcolumn hle hhigh).mono (@Derives.operand .equality _)
    have hboth := (hleft.mono (@Derives.operand .conjunction _)).and hright
    rw [String.toList_append, String.toList_append, List.append_assoc]
    exact hboth.mono Derives.of_joined
  · next first others =>
    cases htext
    exact says_equalities hcolumn hvalues
  · next first others =>
    cases htext
    have hnot := (says_equalities hcolumn hvalues).not
    rw [String.toList_append, String.toList_append, List.append_assoc]
    exact hnot.mono fun h => .operand (h.of_unary .disjunction)
  · next v =>
    obtain ⟨op, hop, rfl⟩ := Option.map_eq_some_iff.mp htext
    have hv : v.IsWritten := hvalues v (by simp [Operand.values])
    exact (says_comparison hcolumn hop hv).mono Derives.of_joined
  · cases htext

end Expression

variable {c : Condition} {text : String} {record : FactRecord} {v : Value}

/-- Derived by the expression of a condition, a column holds whether the fact meets it. -/
theorem Column.derive_expressionText?
    (hcolumn : Expression.IsName c.column.toList ∧ c.column.toList ∉ Expression.constants)
    (hvalues : ∀ w ∈ c.operand.values, w.IsWritten) (htext : c.expressionText? = some text)
    (hfact : record.get? c.column = some v) : derive text record = .bool (c.accepts v) := by
  obtain ⟨e, hderives, hevaluate⟩ := Expression.says_expressionText? hcolumn hvalues htext
  have hread : Expression.ofText text = .ok e :=
    Expression.ofText_eq_ok_of_writes ⟨_, [], (List.append_nil _).symm, hderives, rfl⟩
  have hlookup : record.lookup c.column = some v := by
    rw [FactRecord.lookup, hfact]
  unfold derive
  rw [hread]
  dsimp only
  rw [hevaluate record.lookup v hlookup]

namespace Table

theorem inputValue_of_plain {table : Table} {name : String}
    (hplain : ∀ d ∈ table.inputs, d.name = name → d.expression = none)
    (hfact : record.get? name = some v) : table.inputValue record name = v := by
  have hnone : (columnNamed? table.inputs name).bind Column.expression = none := by
    refine Option.bind_eq_none_iff.mpr fun d hd => ?_
    obtain ⟨hmem, hname⟩ := (columnNamed?_eq_some_iff table.inputs_named).mp hd
    exact hplain d hmem hname
  rw [inputValue_eq, hnone, hfact]
  rfl

theorem inputValue_of_derived {table : Table} {column : Column}
    (hcolumn : column ∈ table.inputs) (hsource : column.expression = some text) :
    table.inputValue record column.name = Column.derive text record := by
  have hfound := (columnNamed?_eq_some_iff table.inputs_named).mpr ⟨hcolumn, rfl⟩
  rw [inputValue_eq, hfound, Option.bind_some, hsource]
  rfl

/-- A rule that asks one condition of a fact matches exactly where a rule does that asks for `true`
in a column derived by the expression of the condition. -/
theorem isMatched_iff_derived {plain derived : Table} {column : Column} {rule rule' : Rule}
    (hname : Expression.IsName c.column.toList ∧ c.column.toList ∉ Expression.constants)
    (hvalues : ∀ w ∈ c.operand.values, w.IsWritten) (htext : c.expressionText? = some text)
    (hplain : ∀ d ∈ plain.inputs, d.name = c.column → d.expression = none)
    (hcolumn : column ∈ derived.inputs) (hsource : column.expression = some text)
    (hrule : rule.conditions = [c])
    (hrule' : rule'.conditions = [.exact column.name (.bool true)])
    (hfact : (record.get? c.column).isSome = true) :
    plain.isMatched record rule = true ↔ derived.isMatched record rule' = true := by
  obtain ⟨v, hfact⟩ := Option.isSome_iff_exists.mp hfact
  have hvalue : plain.inputValue record c.column = v := inputValue_of_plain hplain hfact
  have hderived : derived.inputValue record column.name = .bool (c.accepts v) := by
    rw [inputValue_of_derived hcolumn hsource]
    exact Column.derive_expressionText? hname hvalues htext hfact
  simp only [isMatched, hrule, hrule', List.all_cons, List.all_nil, Bool.and_true, hvalue,
    Condition.exact, hderived]
  cases c.accepts v <;> simp [Condition.accepts, Operator.accepts, Value.looseEqual, Value.order?]

/-- `order.total` is none of a number below zero, a string with operators in it, and null. -/
def sampleCondition : Condition :=
  ⟨"order.total", .notIn, .list [.number (Number.ofNat 2).negate, .string "a && (b", .null]⟩

def sampleText : String :=
  "!(order.total == -2 || order.total == \"a && (b\" || order.total == null)"

def plainDraft : Draft where
  policy := .first
  aggregation := .none
  inputs := [⟨"order.total", .number, none, none⟩]
  outputs := []
  rules := [⟨some "r", [sampleCondition], [], none, none⟩]

def derivedDraft : Draft where
  policy := .first
  aggregation := .none
  inputs := [⟨"order.total", .number, none, none⟩, ⟨"other", .boolean, some sampleText, none⟩]
  outputs := []
  rules := [⟨some "r", [.exact "other" (.bool true)], [], none, none⟩]

def sampleRecord : FactRecord := .ofList [("order.total", .number (.ofNat 2))]

theorem isMatched_iff_derived_notIn :
    ∃ plain derived, plainDraft.build = .ok plain ∧ derivedDraft.build = .ok derived ∧
      ∀ rule ∈ plain.rules, ∀ rule' ∈ derived.rules,
        (plain.isMatched sampleRecord rule = true ↔
          derived.isMatched sampleRecord rule' = true) := by
  obtain ⟨plain, hplainBuild⟩ : ∃ plain, plainDraft.build = .ok plain := ⟨_, rfl⟩
  obtain ⟨derived, hderivedBuild⟩ : ∃ derived, derivedDraft.build = .ok derived := ⟨_, rfl⟩
  refine ⟨plain, derived, hplainBuild, hderivedBuild, fun rule hrule rule' hrule' => ?_⟩
  obtain ⟨_, _, rfl⟩ := Draft.exists_of_build_eq_ok hplainBuild
  obtain ⟨_, _, rfl⟩ := Draft.exists_of_build_eq_ok hderivedBuild
  have hname : Expression.IsName "order.total".toList := Expression.isName_of_all rfl rfl
  have hother : "order.total".toList ∉ Expression.constants := by simp [Expression.constants]
  have htext : sampleCondition.expressionText? = some sampleText := by decide +kernel
  have hvalues : ∀ w ∈ sampleCondition.operand.values, w.IsWritten := by decide +kernel
  have hplain : ∀ d ∈ plainDraft.inputs, d.name = "order.total" → d.expression = none := by
    simp [plainDraft]
  have hcolumn : (⟨"other", .boolean, some sampleText, none⟩ : Column) ∈ derivedDraft.inputs := by
    simp [derivedDraft]
  obtain rfl := List.mem_singleton.mp hrule
  obtain rfl := List.mem_singleton.mp hrule'
  exact isMatched_iff_derived ⟨hname, hother⟩ hvalues htext hplain hcolumn rfl rfl rfl rfl

end Table
end DecisionTables
