import DecisionTables.Expression.Evaluation
import DecisionTables.Expression.Reader
import DecisionTables.Record
import DecisionTables.Proofs.Text.Runs
import Mathlib

/-!
# Causes of failures

Only a name, an arithmetic operation and a negation can fail, and a failure is passed on unchanged.
Main statement: whenever an expression has no value, a part of it is the cause, and the failure says
what is wrong there; an expression whose names are all bound has a value if it neither calculates
nor negates.
-/
namespace DecisionTables

/-- The operators that ask for the numeric view of both operands. -/
def BinaryOp.IsArithmetic (op : BinaryOp) : Prop :=
  op ∈ [add, subtract, multiply, divide, remainder]

theorem Number.isZero_iff {x : Number} : x.isZero = true ↔ x = zero ∨ x = zero.negate := by
  constructor
  · intro h
    cases x with
    | finite x =>
      obtain ⟨negative, units, _⟩ := x
      obtain rfl : units = 0 := by simpa [isZero, FiniteNumber.isZero] using h
      cases negative
      · exact .inl rfl
      · exact .inr rfl
    | _ => cases h
  · rintro (rfl | rfl) <;> rfl

namespace Expression

inductive Part (s : Expression) : Expression → Prop
  | whole : Part s s
  | inner {op : UnaryOp} {inner : Expression} (h : Part s inner) : Part s (unary op inner)
  | left {op : BinaryOp} {left right : Expression} (h : Part s left) : Part s (binary op left right)
  | right {op : BinaryOp} {left right : Expression} (h : Part s right) :
      Part s (binary op left right)

/-- What is wrong with the operands of an operator: the divisor is zero, of either sign, or one of
them has no numeric view where numbers are asked for. -/
inductive Refuses (a b : Value) : BinaryOp → Failure → Prop
  | divisionByZero {op : BinaryOp} {x y : Number} (hOp : op = .divide ∨ op = .remainder)
      (hLeft : a.number? = some x) (hRight : b.number? = some y)
      (hZero : y = .zero ∨ y = Number.zero.negate) : Refuses a b op .divisionByZero
  | typeMismatch {op : BinaryOp} (hOp : op.IsArithmetic)
      (hNone : a.number? = none ∨ b.number? = none)
      (hText : op = .add → a.kind ≠ .string ∧ b.kind ≠ .string) :
      Refuses a b op (.typeMismatch op a.kind b.kind)

variable {a b : Value} {op : BinaryOp} {failure : Failure}

theorem isString_eq_false_iff {v : Value} : v.isString = false ↔ v.kind ≠ .string := by
  cases v <;> simp [Value.isString, Value.kind]

/-- The numeric views are asked for before the operation, so that a missing one counts first. -/
theorem arithmetic_eq_error_iff {f : Number → Number → Except Failure Number} :
    arithmetic op f a b = .error failure ↔
      (∃ x y, a.number? = some x ∧ b.number? = some y ∧ f x y = .error failure) ∨
        (a.number? = none ∨ b.number? = none) ∧ failure = .typeMismatch op a.kind b.kind := by
  unfold arithmetic
  cases ha : a.number? with
  | none => simp [eq_comm]
  | some x =>
    cases hb : b.number? with
    | none => simp [eq_comm]
    | some y => cases hf : f x y <;> simp [hf, Except.map]

theorem unlessZero_eq_error_iff {f : Number → Number → Number} {x y : Number} :
    unlessZero f x y = .error failure ↔ y.isZero = true ∧ failure = .divisionByZero := by
  unfold unlessZero
  split_ifs with hZero <;> simp [hZero, eq_comm]

theorem refuses_iff : Refuses a b op failure ↔
    (op = .divide ∨ op = .remainder) ∧ (∃ x y, a.number? = some x ∧ b.number? = some y ∧
      y.isZero = true ∧ failure = .divisionByZero) ∨
    op.IsArithmetic ∧ (op = .add → a.kind ≠ .string ∧ b.kind ≠ .string) ∧
      (a.number? = none ∨ b.number? = none) ∧ failure = .typeMismatch op a.kind b.kind := by
  simp only [Number.isZero_iff]
  constructor
  · intro h
    cases h with
    | divisionByZero hOp hLeft hRight hZero => exact .inl ⟨hOp, _, _, hLeft, hRight, hZero, rfl⟩
    | typeMismatch hOp hNone hText => exact .inr ⟨hOp, hText, hNone, rfl⟩
  · rintro (⟨hOp, x, y, hLeft, hRight, hZero, rfl⟩ | ⟨hOp, hText, hNone, rfl⟩)
    · exact .divisionByZero hOp hLeft hRight hZero
    · exact .typeMismatch hOp hNone hText

theorem apply_eq_error_iff : apply op a b = .error failure ↔ Refuses a b op failure := by
  rw [refuses_iff]
  cases op with
  | add =>
    simp only [apply, ← isString_eq_false_iff]
    split_ifs with hString
    · have hText : ¬ (a.isString = false ∧ b.isString = false) := by
        rintro ⟨hLeft, hRight⟩
        simp [hLeft, hRight] at hString
      simp [hText]
    · simp_all [arithmetic_eq_error_iff, BinaryOp.IsArithmetic]
  | subtract | multiply => simp [apply, arithmetic_eq_error_iff, BinaryOp.IsArithmetic]
  | divide | remainder =>
    simp [apply, arithmetic_eq_error_iff, unlessZero_eq_error_iff, BinaryOp.IsArithmetic]
  | _ => simp [apply, BinaryOp.IsArithmetic]

theorem applyUnary_eq_error_iff {op : UnaryOp} {v : Value} : applyUnary op v = .error failure ↔
    op = .negate ∧ v.number? = none ∧ failure = .invalidNegation v.kind := by
  cases op with
  | not => simp [applyUnary]
  | negate => cases hv : v.number? <;> simp [applyUnary, hv, eq_comm]

/-- An expression is itself the cause of a failure: a name that stands for no fact, or an operation
on values of its operands that it refuses. -/
inductive Causes (fact? : String → Option Value) : Expression → Failure → Prop
  | unknownFact {path : String} (h : fact? path = none) :
      Causes fact? (fact path) (.unknownFact path)
  | invalidNegation {inner : Expression} {v : Value} (hInner : inner.evaluate fact? = .ok v)
      (hNone : v.number? = none) : Causes fact? (unary .negate inner) (.invalidNegation v.kind)
  | refused {op : BinaryOp} {left right : Expression} {a b : Value} {failure : Failure}
      (hLeft : left.evaluate fact? = .ok a) (hRight : right.evaluate fact? = .ok b)
      (h : Refuses a b op failure) : Causes fact? (binary op left right) failure

variable {fact? : String → Option Value} {e s : Expression}

/-- Every failure has its cause in a part of the expression. -/
theorem exists_causes_of_evaluate_eq_error (h : e.evaluate fact? = .error failure) :
    ∃ s, Part s e ∧ Causes fact? s failure := by
  induction e with
  | literal v => cases h
  | fact path =>
    rw [evaluate] at h
    split at h
    case h_1 => cases h
    case h_2 hNone =>
      cases h
      exact ⟨_, .whole, .unknownFact hNone⟩
  | unary op inner ih =>
    rcases exists_of_bind_eq_error h with h | ⟨v, hInner, h⟩
    · obtain ⟨s, hPart, hCauses⟩ := ih h
      exact ⟨s, .inner hPart, hCauses⟩
    · obtain ⟨rfl, hNone, rfl⟩ := applyUnary_eq_error_iff.mp h
      exact ⟨_, .whole, .invalidNegation hInner hNone⟩
  | binary op left right ihLeft ihRight =>
    rcases exists_of_bind_eq_error h with h | ⟨a, hLeft, h⟩
    · obtain ⟨s, hPart, hCauses⟩ := ihLeft h
      exact ⟨s, .left hPart, hCauses⟩
    -- Where the left operand decides, nothing can fail any more.
    split_ifs at h
    rcases exists_of_bind_eq_error h with h | ⟨b, hRight, h⟩
    · obtain ⟨s, hPart, hCauses⟩ := ihRight h
      exact ⟨s, .right hPart, hCauses⟩
    · exact ⟨_, .whole, .refused hLeft hRight (apply_eq_error_iff.mp h)⟩

theorem Refuses.isArithmetic (h : Refuses a b op failure) : op.IsArithmetic := by
  cases h with
  | divisionByZero hOp => rcases hOp with rfl | rfl <;> simp [BinaryOp.IsArithmetic]
  | typeMismatch hOp => exact hOp

theorem decides_eq_false {op : BinaryOp} (h : op.IsArithmetic) (a : Value) :
    decides op a = false := by
  cases op <;> first | rfl | simp [BinaryOp.IsArithmetic] at h

/-- What is the cause of a failure fails in this way by itself. -/
theorem Causes.evaluate_eq (h : Causes fact? s failure) : s.evaluate fact? = .error failure := by
  cases h with
  | unknownFact h => simp only [evaluate, h]
  | invalidNegation hInner hNone =>
    rw [evaluate, hInner]
    exact applyUnary_eq_error_iff.mpr ⟨rfl, hNone, rfl⟩
  | refused hLeft hRight h =>
    simp only [evaluate, hLeft, hRight, decides_eq_false h.isArithmetic, bind, Except.bind]
    exact apply_eq_error_iff.mpr h

/-- The message of a failure is not that of a text which is no expression. -/
theorem message_ne_parseError (failure : Failure) (error : ParseError) :
    failure.message ≠ error.message := by
  intro h
  unfold ParseError.message at h
  cases failure <;>
  · unfold Failure.message at h
    simpa using congrArg String.toList h

structure IsLogical (e : Expression) : Prop where
  binary : ∀ op left right, Part (binary op left right) e → ¬ op.IsArithmetic
  unary : ∀ inner, ¬ Part (unary .negate inner) e

/-- A failure has its cause in a part of the expression, which fails in this way by itself, and is
no fault of its text. An expression that neither calculates nor negates has a value on every record
in which all its names are bound. -/
theorem failures_caused (e : Expression) (record : FactRecord) :
    (∀ failure, e.evaluate record.lookup = .error failure →
      (∃ s, Part s e ∧ Causes record.lookup s failure ∧
        s.evaluate record.lookup = .error failure) ∧
      ∀ error : ParseError, failure.message ≠ error.message) ∧
    ((∀ path, Part (fact path) e → ∃ v, record.lookup path = some v) → e.IsLogical →
      ∃ v, e.evaluate record.lookup = .ok v) := by
  constructor
  · intro failure h
    obtain ⟨s, hPart, hCauses⟩ := exists_causes_of_evaluate_eq_error h
    exact ⟨⟨s, hPart, hCauses, hCauses.evaluate_eq⟩, message_ne_parseError failure⟩
  · intro hBound hLogical
    cases h : e.evaluate record.lookup with
    | ok v => exact ⟨v, rfl⟩
    | error failure =>
      obtain ⟨s, hPart, hCauses⟩ := exists_causes_of_evaluate_eq_error h
      cases hCauses with
      | unknownFact hNone =>
        obtain ⟨v, hv⟩ := hBound _ hPart
        rw [hNone] at hv
        cases hv
      | invalidNegation => exact absurd hPart (hLogical.unary _)
      | refused _ _ hRefuses => exact absurd hRefuses.isArithmetic (hLogical.binary _ _ _ hPart)

end Expression
end DecisionTables
