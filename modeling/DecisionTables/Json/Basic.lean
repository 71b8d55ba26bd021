import DecisionTables.Number.Rounding
import DecisionTables.Fields

/-!
# JSON

JSON values. A number that was written without a point and an exponent, and that fits into 64 bits,
stays a whole number; every other one is a finite number. The members of an object are sorted by
name, each name once, when they come from a reader or from `Fields`. A place inside a value is given
by steps from the outside in: the name of a member, or the index of an item written without a sign
and without leading zeros.
-/
namespace DecisionTables

inductive Json where
  | null
  | bool (b : Bool)
  | int (i : Int)
  | real (x : FiniteNumber)
  | string (text : String)
  | array (items : List Json)
  | object (members : List (String × Json))

namespace Json

def kind : Json → String
  | null => "null"
  | bool _ => "boolean"
  | int _ => "number"
  | real _ => "number"
  | string _ => "string"
  | array _ => "array"
  | object _ => "object"

def isContainer : Json → Bool
  | array _ => true
  | object _ => true
  | _ => false

def ofFields (fields : Fields Json) : Json := object fields.entries

mutual

def same : Json → Json → Bool
  | null, null => true
  | bool a, bool b => a == b
  | int a, int b => a == b
  | real x, real y => x == y
  | string a, string b => a == b
  | array a, array b => sameItems a b
  | object a, object b => sameMembers a b
  | _, _ => false

def sameItems : List Json → List Json → Bool
  | [], [] => true
  | a :: as, b :: bs => same a b && sameItems as bs
  | _, _ => false

def sameMembers : List (String × Json) → List (String × Json) → Bool
  | [], [] => true
  | (k, a) :: as, (l, b) :: bs => k == l && same a b && sameMembers as bs
  | _, _ => false

end

mutual

theorem same_eq_true_iff : ∀ a b : Json, same a b = true ↔ a = b
  | null, b => by cases b <;> simp [same]
  | bool _, b => by cases b <;> simp [same]
  | int _, b => by cases b <;> simp [same]
  | real _, b => by cases b <;> simp [same]
  | string _, b => by cases b <;> simp [same]
  | array as, b => by cases b <;> simp [same, sameItems_eq_true_iff as]
  | object as, b => by cases b <;> simp [same, sameMembers_eq_true_iff as]

theorem sameItems_eq_true_iff : ∀ as bs : List Json, sameItems as bs = true ↔ as = bs
  | [], bs => by cases bs <;> simp [sameItems]
  | a :: as, bs => by
    cases bs <;> simp [sameItems, same_eq_true_iff a, sameItems_eq_true_iff as]

theorem sameMembers_eq_true_iff :
    ∀ as bs : List (String × Json), sameMembers as bs = true ↔ as = bs
  | [], bs => by cases bs <;> simp [sameMembers]
  | (k, a) :: as, bs => by
    cases bs with
    | nil => simp [sameMembers]
    | cons b bs =>
      obtain ⟨l, b⟩ := b
      simp [sameMembers, same_eq_true_iff a, sameMembers_eq_true_iff as]

end

instance : DecidableEq Json := fun a b => decidable_of_iff _ (same_eq_true_iff a b)

def unescapeStep : List Char → List Char
  | '~' :: '1' :: rest => '/' :: unescapeStep rest
  | '~' :: '0' :: rest => '~' :: unescapeStep rest
  | c :: rest => c :: unescapeStep rest
  | [] => []

/-- One more than the greatest index that can be written. -/
def indexLimit : Nat := 18446744073709551616

/-- The index that a step writes. -/
def index? (step : List Char) : Option Nat :=
  if step.isEmpty ∨ !step.all Char.isDigit ∨ (step.head? = some '0' ∧ step.length ≠ 1) then none
  else
    let i := Nat.ofDigitChars 10 step 0
    if i < indexLimit then some i else none

def child? (j : Json) (step : List Char) : Option Json :=
  match j with
  | object members => members.lookup (String.ofList step)
  | array items => (index? step).bind fun i => items[i]?
  | _ => none

def at? (j : Json) : List (List Char) → Option Json
  | [] => some j
  | step :: rest => (j.child? step).bind fun inner => inner.at? rest

end Json
end DecisionTables
