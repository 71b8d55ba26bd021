import DecisionTables.Number.Layout
import DecisionTables.Json.Basic

/-!
# Writing JSON

Compact text: no space, members in their order, characters beyond ASCII as they are. Escaped are
the quote, the backslash and the characters below U+0020, five of which have short forms.
-/
namespace DecisionTables.Json

def hexDigit (n : Nat) : Char := Nat.digitChar (n % 16)

def escape (c : Char) : List Char :=
  if c = '"' then ['\\', '"']
  else if c = '\\' then ['\\', '\\']
  else if c = '\u0008' then ['\\', 'b']
  else if c = '\u000c' then ['\\', 'f']
  else if c = '\n' then ['\\', 'n']
  else if c = '\r' then ['\\', 'r']
  else if c = '\t' then ['\\', 't']
  else if c.toNat < 0x20 then ['\\', 'u', '0', '0', hexDigit (c.toNat / 16), hexDigit c.toNat]
  else [c]

def quoted (text : String) : List Char := '"' :: text.toList.flatMap escape ++ ['"']

def intChars (i : Int) : List Char :=
  if i < 0 then '-' :: Nat.toDigits 10 i.natAbs else Nat.toDigits 10 i.toNat

mutual

def toChars : Json → List Char
  | null => ['n', 'u', 'l', 'l']
  | bool true => ['t', 'r', 'u', 'e']
  | bool false => ['f', 'a', 'l', 's', 'e']
  | int i => intChars i
  | real x => x.toChars .json
  | string text => quoted text
  | array items => '[' :: itemChars items
  | object members => '{' :: memberChars members

def itemChars : List Json → List Char
  | [] => [']']
  | [item] => toChars item ++ [']']
  | item :: rest => toChars item ++ ',' :: itemChars rest

def memberChars : List (String × Json) → List Char
  | [] => ['}']
  | [(name, value)] => quoted name ++ ':' :: toChars value ++ ['}']
  | (name, value) :: rest => quoted name ++ ':' :: toChars value ++ ',' :: memberChars rest

end

def toText (j : Json) : String := String.ofList j.toChars

end DecisionTables.Json
