import Netscribe.Number.Decimal

/-!
# Timestamps

A scalar such as `2001-12-14t21:59:43.10-05:00` is a timestamp. Fields after the year have one or two
digits, the fraction of a second follows a point or a comma, and the day exists in its month.
-/

namespace Netscribe.Yaml

/-- A point in time. -/
structure Timestamp where
  year : Nat
  month : Nat
  day : Nat
  hour : Nat
  minute : Nat
  second : Nat
  fraction : List Char
  /-- The offset of the time zone in minutes. -/
  zone : Int
deriving DecidableEq, Inhabited, Repr

namespace Timestamp

/-- The time zone is less than a day away, so that the time has a standard notation. -/
def isStandard (t : Timestamp) : Bool := decide (t.zone.natAbs < 24 * 60)

/-- A number of one or two digits, the longer the better. -/
def field? : List Char → Option (Nat × List Char)
  | a :: b :: rest =>
    if a.isDigit then
      if b.isDigit then some (Decimal.natOfDigits [a, b], rest)
      else some (Decimal.natOfDigits [a], b :: rest)
    else none
  | [a] => if a.isDigit then some (Decimal.natOfDigits [a], []) else none
  | [] => none

def after? (x : Char) : List Char → Option (List Char)
  | y :: rest => if x = y then some rest else none
  | [] => none

def isLeap (year : Nat) : Bool := year % 4 == 0 && (year % 100 != 0 || year % 400 == 0)

def daysIn (year month : Nat) : Nat :=
  if month = 2 then if isLeap year then 29 else 28
  else if month = 4 ∨ month = 6 ∨ month = 9 ∨ month = 11 then 30
  else 31

def date? (cs : List Char) : Option (Timestamp × List Char) := do
  let digits := cs.takeWhile Char.isDigit
  if digits.length ≠ 4 then none
  let year := Decimal.natOfDigits digits
  let (month, cs) ← field? (← after? '-' (cs.drop 4))
  let (day, cs) ← field? (← after? '-' cs)
  if 1 ≤ month ∧ month ≤ 12 ∧ 1 ≤ day ∧ day ≤ daysIn year month then
    some (⟨year, month, day, 0, 0, 0, [], 0⟩, cs)
  else none

/-- The digits of a fraction after a point or a comma, none if no digit follows. -/
def readFraction (cs : List Char) : List Char × List Char :=
  match cs with
  | x :: rest =>
    let digits := rest.takeWhile Char.isDigit
    if (x == '.' || x == ',') && !digits.isEmpty then (digits, rest.drop digits.length) else ([], cs)
  | [] => ([], [])

def time? (t : Timestamp) (cs : List Char) : Option (Timestamp × List Char) := do
  let (hour, cs) ← field? cs
  let (minute, cs) ← field? (← after? ':' cs)
  let (second, cs) ← field? (← after? ':' cs)
  if hour < 24 ∧ minute < 60 ∧ second < 60 then
    let (digits, cs) := readFraction cs
    some ({ t with hour := hour, minute := minute, second := second, fraction := digits }, cs)
  else none

/-- The offset of a time zone in minutes: `Z`, or a sign, two digits, a colon and two digits. -/
def zone? : List Char → Option Int
  | ['Z'] => some 0
  | [sign, a, b, ':', c, d] =>
    let hours := Decimal.natOfDigits [a, b]
    let minutes := Decimal.natOfDigits [c, d]
    if [a, b, c, d].all Char.isDigit && decide (hours ≤ 24) && decide (minutes ≤ 60) then
      let offset : Int := hours * 60 + minutes
      if sign = '+' then some offset else if sign = '-' then some (-offset) else none
    else none
  | _ => none

/-- Reads a timestamp: a date alone, a date and a time with its zone after the letter `T`, or a date
and a time without a zone after blanks. -/
def read? (cs : List Char) : Option Timestamp := do
  let (t, rest) ← date? cs
  match rest with
  | [] => some t
  | x :: more =>
    if x = 'T' ∨ x = 't' then
      let (t, rest) ← time? t more
      return { t with zone := ← zone? rest }
    else if x = ' ' then
      let (t, rest) ← time? t (more.dropWhile (· == ' '))
      if rest.isEmpty then some t else none
    else none

end Timestamp

end Netscribe.Yaml
