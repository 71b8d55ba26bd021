import DecisionTables.Text.Space
import DecisionTables.Calendar.Instant

/-!
# Instants as text

Writing follows RFC 3339 with the fewest of 0, 3, 6 or 9 places for the part of a second. Reading
accepts three forms: RFC 3339, a local date and time that is taken as universal time, and a date
that stands for its midnight. The two local forms allow short numbers, signed years of any length
and white space in front of each number.
-/
namespace DecisionTables.Calendar

/-- How universal time is marked at the end of a written instant. -/
inductive Zone where
  | offset
  | letter
  deriving DecidableEq

def Zone.toChars : Zone → List Char
  | offset => ['+', '0', '0', ':', '0', '0']
  | letter => ['Z']

def padded (width n : Nat) : List Char :=
  let digits := Nat.toDigits 10 n
  List.replicate (width - digits.length) '0' ++ digits

/-- Years 0 to 9999 have four digits; others have a sign and at least four. -/
def yearChars (year : Int) : List Char :=
  if 0 ≤ year ∧ year ≤ 9999 then padded 4 year.toNat
  else (if year < 0 then '-' else '+') :: padded 4 year.natAbs

/-- The part of a second with the fewest of 0, 3, 6 or 9 places that give it exactly. -/
def fractionChars (nanos : Nat) : List Char :=
  if nanos = 0 then []
  else if nanos % 1000000 = 0 then '.' :: padded 3 (nanos / 1000000)
  else if nanos % 1000 = 0 then '.' :: padded 6 (nanos / 1000)
  else '.' :: padded 9 nanos

namespace Instant

def toChars (zone : Zone) (a : Instant) : List Char :=
  let d := a.date
  let s := a.secondOfDay
  let leap := a.nanos / nanosPerSecond
  yearChars d.year ++ '-' :: padded 2 d.month ++ '-' :: padded 2 d.day ++ 'T' ::
    padded 2 (s / 3600) ++ ':' :: padded 2 (s / 60 % 60) ++ ':' :: padded 2 (s % 60 + leap) ++
    fractionChars (a.nanos % nanosPerSecond) ++ zone.toChars

def toText (zone : Zone) (a : Instant) : String := String.ofList (a.toChars zone)

end Instant

def expect (c : Char) : List Char → Option (List Char)
  | [] => none
  | d :: rest => if d = c then some rest else none

def digits (least most : Nat) (text : List Char) : Option (Nat × List Char) :=
  let run := (text.take most).takeWhile Char.isDigit
  if run.length < least ∨ run.isEmpty then none
  else some (Nat.ofDigitChars 10 run 0, text.drop run.length)

def clock (number : List Char → Option (Nat × List Char)) (text : List Char) :
    Option ((Nat × Nat × Nat) × List Char) := do
  let (hour, text) ← number text
  let (minute, text) ← number (← expect ':' text)
  let (second, text) ← number (← expect ':' text)
  some ((hour, minute, second), text)

def monthAndDay (number : List Char → Option (Nat × List Char)) (text : List Char) :
    Option ((Nat × Nat) × List Char) := do
  let (month, text) ← number (← expect '-' text)
  let (day, text) ← number (← expect '-' text)
  some ((month, day), text)

namespace Instant

/-- A point and at least one digit, as nanoseconds: digits after the ninth are dropped. Without a
point the fraction is zero. -/
def fraction : List Char → Option (Nat × List Char)
  | '.' :: rest =>
    let run := rest.takeWhile Char.isDigit
    if run.isEmpty then none
    else
      let kept := run.take 9
      some (Nat.ofDigitChars 10 (kept ++ List.replicate (9 - kept.length) '0') 0,
        rest.drop run.length)
  | rest => some (0, rest)

/-- A whole offset from universal time, in seconds: `Z`, or a sign, hours and minutes. -/
def offset? : List Char → Option Int
  | ['Z'] => some 0
  | ['z'] => some 0
  | sign :: rest => do
    let direction : Int ← if sign = '+' then some 1
      else if sign = '-' ∨ sign = '\u2212' then some (-1) else none
    let (hours, rest) ← digits 2 2 rest
    let (minutes, rest) ← digits 2 2 (← expect ':' rest)
    if rest.isEmpty ∧ hours ≤ 23 ∧ minutes ≤ 59 then
      some (direction * (hours * 3600 + minutes * 60 : Nat))
    else none
  | [] => none

/-- RFC 3339, the whole text. -/
def ofRfc3339? (text : List Char) : Option Instant := do
  let (year, text) ← digits 4 4 text
  let ((month, day), text) ← monthAndDay (digits 2 2) text
  let text ← (expect 'T' text).or ((expect 't' text).or (expect ' ' text))
  let ((hour, minute, second), text) ← clock (digits 2 2) text
  let (nanos, text) ← fraction text
  let offset ← offset? text
  ofClock? ⟨year, month, day⟩ hour minute second nanos offset

def shortNumber (text : List Char) : Option (Nat × List Char) := digits 1 2 (Text.trimLeft text)

/-- White space and a year: up to four digits, or a sign and any number of digits. -/
def localYear (text : List Char) : Option (Int × List Char) :=
  match Text.trimLeft text with
  | '-' :: rest => (digits 1 rest.length rest).map fun (year, rest) => (-(year : Int), rest)
  | '+' :: rest => (digits 1 rest.length rest).map fun (year, rest) => ((year : Int), rest)
  | rest => (digits 1 4 rest).map fun (year, rest) => ((year : Int), rest)

def localDate (text : List Char) : Option (Date × List Char) := do
  let (year, text) ← localYear text
  let ((month, day), text) ← monthAndDay shortNumber text
  some (⟨year, month, day⟩, text)

/-- A local date and time, the whole text, taken as universal time. -/
def ofLocalDateTime? (text : List Char) : Option Instant := do
  let (date, text) ← localDate text
  let ((hour, minute, second), text) ← clock shortNumber (← expect 'T' text)
  if text.isEmpty then ofClock? date hour minute second 0 0 else none

/-- A date, the whole text, taken as its midnight in universal time. -/
def ofLocalDate? (text : List Char) : Option Instant := do
  let (date, text) ← localDate text
  if text.isEmpty then ofClock? date 0 0 0 0 0 else none

/-- The instant that a text writes in one of the three forms; white space around it is ignored. -/
def ofText? (text : List Char) : Option Instant :=
  let text := Text.trim text
  (ofRfc3339? text).or ((ofLocalDateTime? text).or (ofLocalDate? text))

end Instant
end DecisionTables.Calendar
