import DecisionTables.Calendar.Date

/-!
# Instants

A point of universal time, to the nanosecond: whole seconds from 1970-01-01 and a part of a second.
A part of a second or more stands for a leap second, which may follow any second; an instant that is
made from its parts has one only at the end of a minute. Instants are ordered by their seconds and
then by the part.
-/
namespace DecisionTables.Calendar

/-- 00:00:00 on 1 January of the year -262143, the first second of an instant. -/
def firstSecond : Int := -8334601228800

/-- 23:59:59 on 31 December of the year 262142, the last second of an instant. -/
def lastSecond : Int := 8210266876799

def nanosPerSecond : Nat := 1000000000

structure Instant where
  seconds : Int
  nanos : Nat
  first_le : firstSecond ≤ seconds
  le_last : seconds ≤ lastSecond
  nanos_lt : nanos < 2 * nanosPerSecond
  deriving DecidableEq

namespace Instant

/-- The instant with these parts, unless it is out of range or a leap second inside a minute. -/
def ofParts? (seconds : Int) (nanos : Nat) : Option Instant :=
  if h : firstSecond ≤ seconds ∧ seconds ≤ lastSecond ∧ nanos < 2 * nanosPerSecond ∧
      (nanosPerSecond ≤ nanos → seconds % 60 = 59) then
    some ⟨seconds, nanos, h.1, h.2.1, h.2.2.1⟩
  else none

def order (a b : Instant) : Ordering :=
  (compare a.seconds b.seconds).then (compare a.nanos b.nanos)

/-- Milliseconds from 1970-01-01, rounded down. -/
def millis (a : Instant) : Int := a.seconds * 1000 + (a.nanos / 1000000 : Nat)

def ofMillis? (millis : Int) : Option Instant :=
  ofParts? (millis / 1000) ((millis % 1000).toNat * 1000000)

/-- The instant at which clocks that are `offset` seconds ahead show a date and a time of day. The
second may be 60, which is the leap second after second 59. -/
def ofClock? (date : Date) (hour minute second nanos : Nat) (offset : Int) : Option Instant :=
  if date.IsValid ∧ hour ≤ 23 ∧ minute ≤ 59 ∧ second ≤ 60 then
    let leap := if second = 60 then 1 else 0
    ofParts? (date.toDays * 86400 + (hour * 3600 + minute * 60 + (second - leap) : Nat) - offset)
      (nanos + leap * nanosPerSecond)
  else none

def date (a : Instant) : Date := .ofDays (a.seconds / 86400)

def secondOfDay (a : Instant) : Nat := (a.seconds % 86400).toNat

end Instant
end DecisionTables.Calendar
