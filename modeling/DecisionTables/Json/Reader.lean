import DecisionTables.Json.Token

/-!
# Reading JSON

Any JSON value. Of two members with one name the later counts. Containers may be nested to a depth
of 127; the depth that is left is passed down, so that a value inside a larger text counts from
where it stands.

A value whose content does not matter is skimmed: only its grammar is checked, without a limit on
the depth, on the size of numbers or on surrogates.
-/
namespace DecisionTables.Json

/-- How many containers may be open at once. -/
def depthLimit : Nat := 127

mutual

/-- A value; `depth` containers may still be opened. The fuel is more than twice the length of the
text. -/
def value : Nat → Nat → Reader Json
  | 0, _, _ => .error .truncated
  | fuel + 1, depth, text =>
    match skipBlank text with
    | [] => .error .truncated
    | c :: rest =>
      if c = 'n' then (keyword ['u', 'l', 'l'] rest).map (.null, ·)
      else if c = 't' then (keyword ['r', 'u', 'e'] rest).map (.bool true, ·)
      else if c = 'f' then (keyword ['a', 'l', 's', 'e'] rest).map (.bool false, ·)
      else if c = '"' then (quotedText rest).map fun (text, rest) => (.string text, rest)
      else if c = '-' ∨ c.isDigit then number (c :: rest)
      else if c = '[' then
        match depth with
        | 0 => .error .malformed
        | depth + 1 => (items fuel depth true rest).map fun (items, rest) => (.array items, rest)
      else if c = '{' then
        match depth with
        | 0 => .error .malformed
        | depth + 1 =>
          (members fuel depth true .empty rest).map fun (members, rest) => (.ofFields members, rest)
      else .error .malformed

def items : Nat → Nat → Bool → Reader (List Json)
  | 0, _, _, _ => .error .truncated
  | fuel + 1, depth, first, text => do
    match ← nextItem first text with
    | none => .ok ([], afterBracket text)
    | some text =>
      let (item, text) ← value fuel depth text
      let (rest, text) ← items fuel depth false text
      .ok (item :: rest, text)

/-- The members of an object, put into those read before, and its closing brace. -/
def members : Nat → Nat → Bool → Fields Json → Reader (Fields Json)
  | 0, _, _, _, _ => .error .truncated
  | fuel + 1, depth, first, before, text => do
    match ← nextMember first text with
    | none => .ok (before, afterBracket text)
    | some text =>
      let (name, text) ← quotedText text
      let text ← colon text
      let (item, text) ← value fuel depth text
      members fuel depth false (before.insert name item) text

end

/-- Enough fuel for a text: a container and its first item take two steps for one character. -/
def fuelFor (text : List Char) : Nat := 2 * text.length + 2

def readValue (depth : Nat) : Reader Json := fun text => value (fuelFor text) depth text

def ofText (text : String) : Except Fault Json := do
  let (value, rest) ← readValue depthLimit text.toList
  atEnd rest
  .ok value

/-- Any four hexadecimal digits; which character they stand for does not matter. -/
def skimUnit : Reader Char := fun text => (fourHex text).map fun (_, rest) => (' ', rest)

/-- A string whose content does not matter, after its opening quote. -/
def skimString (text : List Char) : Except Fault (List Char) :=
  (stringBody skimUnit text.length text).map (·.2)

/-- A number whose value does not matter. One that is cut off breaks the grammar. -/
def skimNumber (text : List Char) : Except Fault (List Char) :=
  match numeral text with
  | .ok (_, rest) => .ok rest
  | .error _ => .error .malformed

mutual

def skimValue : Nat → List Char → Except Fault (List Char)
  | 0, _ => .error .truncated
  | fuel + 1, text =>
    match skipBlank text with
    | [] => .error .truncated
    | c :: rest =>
      if c = 'n' then keyword ['u', 'l', 'l'] rest
      else if c = 't' then keyword ['r', 'u', 'e'] rest
      else if c = 'f' then keyword ['a', 'l', 's', 'e'] rest
      else if c = '"' then skimString rest
      else if c = '-' ∨ c.isDigit then skimNumber (c :: rest)
      else if c = '[' then skimItems fuel true rest
      else if c = '{' then skimMembers fuel true rest
      else .error .malformed

def skimItems : Nat → Bool → List Char → Except Fault (List Char)
  | 0, _, _ => .error .truncated
  | fuel + 1, first, text => do
    match ← nextItem first text with
    | none => .ok (afterBracket text)
    | some text => skimItems fuel false (← skimValue fuel text)

def skimMembers : Nat → Bool → List Char → Except Fault (List Char)
  | 0, _, _ => .error .truncated
  | fuel + 1, first, text => do
    match ← nextMember first text with
    | none => .ok (afterBracket text)
    | some text => skimMembers fuel false (← skimValue fuel (← colon (← skimString text)))

end

/-- A value whose content does not matter, at the start of a text. -/
def skim (text : List Char) : Except Fault (List Char) := skimValue (fuelFor text) text

end DecisionTables.Json
