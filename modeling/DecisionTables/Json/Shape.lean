import DecisionTables.Json.Printer
import DecisionTables.Json.Reader

/-!
# JSON of a known shape

Readers for text whose shape is known beforehand: strings, flags, numbers, optional values, lists
and records. They meet the faults of a text in its order, so that a wrong shape is found where the
wrong value starts and hides what comes after it.

A record is written as an object or as an array of its fields in their order. In an object, unknown
members are skimmed, and a field given twice is a wrong shape. In an array, optional fields may be
missing at the end.
-/
namespace DecisionTables.Json

/-- A reader that knows how many containers may still be opened. -/
abbrev Shape (α : Type) := Nat → Reader α

/-- The fault of a value of another shape: its own fault if it is a faulty scalar. -/
def otherShape (text : List Char) : Fault :=
  match skipBlank text with
  | [] => .truncated
  | c :: rest =>
    let scalar :=
      if c = 'n' then keyword ['u', 'l', 'l'] rest
      else if c = 't' then keyword ['r', 'u', 'e'] rest
      else if c = 'f' then keyword ['a', 'l', 's', 'e'] rest
      else if c = '"' then (quotedText rest).map (·.2)
      else if c = '-' ∨ c.isDigit then (number (c :: rest)).map (·.2)
      else if c = '[' ∨ c = '{' then .ok rest
      else .error .malformed
    match scalar with
    | .ok _ => .mismatched
    | .error fault => fault

namespace Shape

def text : Shape String := fun _ text =>
  match skipBlank text with
  | '"' :: rest => quotedText rest
  | _ => .error (otherShape text)

def flag : Shape Bool := fun _ text =>
  match skipBlank text with
  | 't' :: rest => (keyword ['r', 'u', 'e'] rest).map (true, ·)
  | 'f' :: rest => (keyword ['a', 'l', 's', 'e'] rest).map (false, ·)
  | _ => .error (otherShape text)

/-- The number nearest to a JSON number; in a whole number, minus zero has kept its sign. -/
def toNumber : Json → Option Number
  | int i => some (.ofInt i)
  | real x => some (.finite x)
  | _ => none

def number : Shape Number := fun _ text =>
  match skipBlank text with
  | c :: rest =>
    if c = '-' ∨ c.isDigit then do
      let (value, rest) ← Json.number (c :: rest)
      match toNumber value with
      | some x => .ok (x, rest)
      | none => .error .mismatched
    else .error (otherShape text)
  | [] => .error .truncated

def optional {α : Type} (shape : Shape α) : Shape (Option α) := fun depth text =>
  match skipBlank text with
  | 'n' :: rest => (keyword ['u', 'l', 'l'] rest).map (none, ·)
  | _ => (shape depth text).map fun (value, rest) => (some value, rest)

def listItems {α : Type} (item : Reader α) : Nat → Bool → Reader (List α)
  | 0, _, _ => .error .truncated
  | fuel + 1, first, text => do
    match ← nextItem first text with
    | none => .ok ([], afterBracket text)
    | some text =>
      let (value, text) ← item text
      let (rest, text) ← listItems item fuel false text
      .ok (value :: rest, text)

def list {α : Type} (item : Shape α) : Shape (List α) := fun depth text =>
  match skipBlank text with
  | '[' :: rest =>
    match depth with
    | 0 => .error .malformed
    | depth + 1 => listItems (item depth) (rest.length + 1) true rest
  | _ => .error (otherShape text)

def any : Shape Json := readValue

end Shape

/-- A field of a record that is being read: its name, whether it may be missing, and a reader that
puts its value into the record. -/
structure Field (σ : Type) where
  name : String
  required : Bool
  read : σ → Shape σ

namespace Field

def reading {σ α : Type} (shape : Shape α) (set : σ → α → σ) (record : σ) : Shape σ :=
  fun depth text => (shape depth text).map fun (value, rest) => (set record value, rest)

def mandatory {σ α : Type} (name : String) (shape : Shape α) (set : σ → α → σ) : Field σ :=
  ⟨name, true, reading shape set⟩

/-- A field that keeps the value it has if it is missing. -/
def defaulted {σ α : Type} (name : String) (shape : Shape α) (set : σ → α → σ) : Field σ :=
  ⟨name, false, reading shape set⟩

end Field

/-- The members of an object as fields of a record. `seen` holds the names of the fields read. -/
def recordMembers {σ : Type} (fields : List (Field σ)) (depth : Nat) :
    Nat → Bool → List String → σ → Reader σ
  | 0, _, _, _, _ => .error .truncated
  | fuel + 1, first, seen, record, text => do
    match ← nextMember first text with
    | none =>
      if fields.all fun field => !field.required || seen.contains field.name then
        .ok (record, afterBracket text)
      else .error .mismatched
    | some text =>
      let (name, text) ← quotedText text
      match fields.find? fun field => field.name == name with
      | some field =>
        if seen.contains name then .error .mismatched
        else
          let text ← colon text
          let (record, text) ← field.read record depth text
          recordMembers fields depth fuel false (name :: seen) record text
      | none =>
        let text ← colon text
        let text ← skim text
        recordMembers fields depth fuel false seen record text

def recordItems {σ : Type} (depth : Nat) : List (Field σ) → Bool → σ → Reader σ
  | [], _, record, text => (closeArray text).map (record, ·)
  | field :: fields, first, record, text => do
    match ← nextItem first text with
    | none =>
      if field.required then .error .mismatched else recordItems depth fields first record text
    | some text =>
      let (record, text) ← field.read record depth text
      recordItems depth fields false record text

/-- A record, written as an object or as an array; `initial` holds the values of missing fields. -/
def Shape.record {σ : Type} (fields : List (Field σ)) (initial : σ) : Shape σ := fun depth text =>
  match skipBlank text with
  | '{' :: rest =>
    match depth with
    | 0 => .error .malformed
    | depth + 1 => recordMembers fields depth (rest.length + 1) true [] initial rest
  | '[' :: rest =>
    match depth with
    | 0 => .error .malformed
    | depth + 1 => recordItems depth fields true initial rest
  | _ => .error (otherShape text)

def ofTextAs {α : Type} (shape : Shape α) (text : String) : Except Fault α := do
  let (value, rest) ← shape depthLimit text.toList
  atEnd rest
  .ok value

/-- A value of a given shape, by its text. That text is well-formed, so that a fault can only be one
of shape; and it may be as deep as it is. -/
def as {α : Type} (shape : Shape α) (j : Json) : Except Fault α :=
  match shape j.toChars.length j.toChars with
  | .ok (value, _) => .ok value
  | .error _ => .error .mismatched

end DecisionTables.Json
