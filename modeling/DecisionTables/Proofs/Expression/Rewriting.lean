import DecisionTables.Expression.Evaluation
import DecisionTables.Record
import Mathlib

/-!
# Rewriting logical expressions

Negation, conjunction and disjunction ask for the truth of their operands alone, for that of the
right one only where the left one leaves the answer open, and pass on the first failure they meet.
Main statement: under De Morgan's laws, the associative and the distributive laws an expression
keeps its value or the way in which it fails, also where a part of a larger expression is rewritten,
and after any number of such steps.
-/
namespace DecisionTables.Expression

section Truths

/-- Both are true. The second one is asked for only after a true first one. -/
def both (p q : Except Failure Bool) : Except Failure Bool := do if ← p then q else .ok false

/-- One of them is true. The second one is asked for only after a false first one. -/
def either (p q : Except Failure Bool) : Except Failure Bool := do if ← p then .ok true else q

variable (p q r : Except Failure Bool)

theorem map_not_both : (both p q).map (!·) = either (p.map (!·)) (q.map (!·)) := by
  rcases p with _ | _ | _ <;> rfl

theorem map_not_either : (either p q).map (!·) = both (p.map (!·)) (q.map (!·)) := by
  rcases p with _ | _ | _ <;> rfl

theorem both_assoc : both (both p q) r = both p (both q r) := by
  rcases p with _ | _ | _ <;> rfl

theorem either_assoc : either (either p q) r = either p (either q r) := by
  rcases p with _ | _ | _ <;> rfl

/-- The first truth is asked for twice on the right. It fails the first time or not at all. -/
theorem both_either : both p (either q r) = either (both p q) (both p r) := by
  rcases p with _ | _ | _
  · rfl
  · rfl
  · rcases q with _ | _ | _ <;> rfl

theorem either_both : either p (both q r) = both (either p q) (either p r) := by
  rcases p with _ | _ | _
  · rfl
  · rcases q with _ | _ | _ <;> rfl
  · rfl

end Truths

section Truth

variable (fact? : String → Option Value) (a b : Expression)

def truth (e : Expression) : Except Failure Bool := (e.evaluate fact?).map Value.isTrue

theorem map_isTrue_map_bool (p : Except Failure Bool) :
    (p.map Value.bool).map Value.isTrue = p := by
  cases p <;> rfl

theorem evaluate_negation : (unary .not a).evaluate fact? =
    ((a.truth fact?).map (!·)).map .bool := by
  rw [truth, evaluate]
  cases a.evaluate fact? <;> rfl

theorem evaluate_conjunction : (binary .and a b).evaluate fact? =
    (both (a.truth fact?) (b.truth fact?)).map .bool := by
  rw [truth, truth, evaluate]
  cases a.evaluate fact? with
  | error failure => rfl
  | ok v =>
    cases hv : v.isTrue <;> cases b.evaluate fact? <;>
      simp [both, decides, apply, hv, bind, Except.bind, Except.map]

theorem evaluate_disjunction : (binary .or a b).evaluate fact? =
    (either (a.truth fact?) (b.truth fact?)).map .bool := by
  rw [truth, truth, evaluate]
  cases a.evaluate fact? with
  | error failure => rfl
  | ok v =>
    cases hv : v.isTrue <;> cases b.evaluate fact? <;>
      simp [either, decides, apply, hv, bind, Except.bind, Except.map]

theorem truth_negation : (unary .not a).truth fact? = (a.truth fact?).map (!·) := by
  rw [truth, evaluate_negation, map_isTrue_map_bool]

theorem truth_conjunction :
    (binary .and a b).truth fact? = both (a.truth fact?) (b.truth fact?) := by
  rw [truth, evaluate_conjunction, map_isTrue_map_bool]

theorem truth_disjunction :
    (binary .or a b).truth fact? = either (a.truth fact?) (b.truth fact?) := by
  rw [truth, evaluate_disjunction, map_isTrue_map_bool]

end Truth

inductive Law : Expression → Expression → Prop
  | not_and (a b : Expression) :
      Law (unary .not (binary .and a b)) (binary .or (unary .not a) (unary .not b))
  | not_or (a b : Expression) :
      Law (unary .not (binary .or a b)) (binary .and (unary .not a) (unary .not b))
  | and_assoc (a b c : Expression) :
      Law (binary .and (binary .and a b) c) (binary .and a (binary .and b c))
  | or_assoc (a b c : Expression) :
      Law (binary .or (binary .or a b) c) (binary .or a (binary .or b c))
  | and_or (a b c : Expression) :
      Law (binary .and a (binary .or b c)) (binary .or (binary .and a b) (binary .and a c))
  | or_and (a b c : Expression) :
      Law (binary .or a (binary .and b c)) (binary .and (binary .or a b) (binary .or a c))

/-- An expression with a gap in it. -/
inductive Context where
  | gap
  | unary (op : UnaryOp) (inner : Context)
  | left (op : BinaryOp) (inner : Context) (right : Expression)
  | right (op : BinaryOp) (left : Expression) (inner : Context)

def Context.fill (part : Expression) : Context → Expression
  | .gap => part
  | .unary op inner => .unary op (inner.fill part)
  | .left op inner operand => .binary op (inner.fill part) operand
  | .right op operand inner => .binary op operand (inner.fill part)

/-- One side of a law is replaced by the other in some place of an expression. -/
inductive Step : Expression → Expression → Prop
  | rewrite {l r : Expression} (context : Context) (h : Law l r) :
      Step (context.fill l) (context.fill r)

/-- Steps in either direction, any number of them, lead from one expression to the other. -/
abbrev Rewrites : Expression → Expression → Prop := Relation.EqvGen Step

variable {fact? : String → Option Value} {l r e e' : Expression}

theorem Law.evaluate_eq (h : Law l r) : l.evaluate fact? = r.evaluate fact? := by
  cases h with
  | not_and a b =>
    rw [evaluate_negation, evaluate_disjunction, truth_conjunction, truth_negation, truth_negation,
      map_not_both]
  | not_or a b =>
    rw [evaluate_negation, evaluate_conjunction, truth_disjunction, truth_negation, truth_negation,
      map_not_either]
  | and_assoc a b c =>
    rw [evaluate_conjunction, evaluate_conjunction, truth_conjunction, truth_conjunction,
      both_assoc]
  | or_assoc a b c =>
    rw [evaluate_disjunction, evaluate_disjunction, truth_disjunction, truth_disjunction,
      either_assoc]
  | and_or a b c =>
    rw [evaluate_conjunction, evaluate_disjunction, truth_disjunction, truth_conjunction,
      truth_conjunction, both_either]
  | or_and a b c =>
    rw [evaluate_disjunction, evaluate_conjunction, truth_conjunction, truth_disjunction,
      truth_disjunction, either_both]

/-- An expression asks for the values of its operands and for nothing else about them. -/
theorem Context.evaluate_fill (context : Context) (h : l.evaluate fact? = r.evaluate fact?) :
    (context.fill l).evaluate fact? = (context.fill r).evaluate fact? := by
  induction context with
  | gap => exact h
  | unary op inner ih => simp only [fill, evaluate, ih]
  | left op inner operand ih => simp only [fill, evaluate, ih]
  | right op operand inner ih => simp only [fill, evaluate, ih]

theorem Step.evaluate_eq (h : Step e e') : e.evaluate fact? = e'.evaluate fact? := by
  cases h with
  | rewrite context h => exact context.evaluate_fill h.evaluate_eq

theorem Rewrites.evaluate_eq (h : Rewrites e e') : e.evaluate fact? = e'.evaluate fact? := by
  induction h with
  | rel e e' h => exact h.evaluate_eq
  | refl e => rfl
  | symm e e' _ ih => exact ih.symm
  | trans e e' e'' _ _ ih ih' => exact ih.trans ih'

/-- The two sides of a law have the same value or fail in the same way, alone and as a part of any
expression, and so do any two expressions that the laws turn into each other. -/
theorem evaluate_eq_of_laws (record : FactRecord) :
    (∀ l r, Law l r → l.evaluate record.lookup = r.evaluate record.lookup) ∧
    (∀ l r, Law l r → ∀ context : Context,
      (context.fill l).evaluate record.lookup = (context.fill r).evaluate record.lookup) ∧
    ∀ e e', Rewrites e e' → e.evaluate record.lookup = e'.evaluate record.lookup :=
  ⟨fun _ _ h => h.evaluate_eq, fun _ _ h context => context.evaluate_fill h.evaluate_eq,
    fun _ _ h => h.evaluate_eq⟩

def memberRecord : FactRecord := .ofList [("name", .string ""), ("visits", .number .zero)]

def perVisit : Expression := binary .divide (literal (.number .zero)) (fact "visits")

/-- `name || listed && 0 / visits` -/
def entitled : Expression := binary .or (fact "name") (binary .and (fact "listed") perVisit)

/-- `(name || listed) && (name || 0 / visits)` -/
def entitledTwice : Expression :=
  binary .and (binary .or (fact "name") (fact "listed")) (binary .or (fact "name") perVisit)

def labelled : Context := .right .add (literal (.string "entitled: ")) .gap

/-- The missing name is met before the division by zero, on both sides. -/
theorem evaluate_eq_of_laws_member :
    Law entitled entitledTwice ∧
      (labelled.fill entitled).evaluate memberRecord.lookup = .error (.unknownFact "listed") ∧
      (labelled.fill entitledTwice).evaluate memberRecord.lookup =
        .error (.unknownFact "listed") := by
  have hlaw : Law entitled entitledTwice := .or_and _ _ _
  have hleft : (labelled.fill entitled).evaluate memberRecord.lookup =
      .error (.unknownFact "listed") := by
    decide +kernel
  have heq := (evaluate_eq_of_laws memberRecord).2.1 _ _ hlaw labelled
  exact ⟨hlaw, hleft, heq.symm.trans hleft⟩

end DecisionTables.Expression
