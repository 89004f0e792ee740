import Netscribe.Number.Binary64

/-!
# Decimals

The decimal text of a double is made of the fewest digits that read back as the same bits; of two
such decimals of the same length the nearer is taken, and the even one on a tie. `shortest` looks for
them on the grids of one, two, … seventeen digits: the two neighbours of the value on a grid are
tried, because when a grid has a point between the midpoints to the next doubles, one of these two
lies there. A `Layout` then decides where the point and the exponent go. `Decimal.read?` and
`Decimal.toBinary64?` go the other way.
-/

namespace Netscribe

/-- The number `digits * 10 ^ exponent`. -/
structure Decimal where
  digits : Nat
  exponent : Int
deriving DecidableEq, Inhabited, Repr

def decimalDigits (n : Nat) : List Char := Nat.toDigits 10 n

def decimalText (i : Int) : String :=
  String.ofList (if i < 0 then '-' :: decimalDigits i.natAbs else decimalDigits i.natAbs)

namespace Decimal

/-! ### The fewest digits -/

/-- The decimals that read back as one double: those between two midpoints, all three given as
numerators over one denominator, with the midpoints when the significand is even. -/
structure Interval where
  low : Nat
  value : Nat
  high : Nat
  denominator : Nat
  closed : Bool

/-- The interval of a finite number that is not zero. The gap below a power of two is half as wide
as the gap above it. -/
def interval (x : Binary64) : Interval :=
  let m := x.significand
  let below := if x.fraction = 0 ∧ 1 < x.field then 1 else 2
  { low := (4 * m - below) * Nat.pow 2 x.scale
    value := 4 * m * Nat.pow 2 x.scale
    high := (4 * m + 2) * Nat.pow 2 x.scale
    denominator := 4 * Binary64.unit
    closed := decide (m % 2 = 0) }

def powerOfTen (k : Int) : Nat × Nat :=
  if 0 ≤ k then (Nat.pow 10 k.toNat, 1) else (1, Nat.pow 10 (-k).toNat)

def inside (i : Interval) (d : Decimal) : Bool :=
  let (p, q) := powerOfTen d.exponent
  let point := d.digits * p * i.denominator
  if i.closed then decide (i.low * q ≤ point) && decide (point ≤ i.high * q)
  else decide (i.low * q < point) && decide (point < i.high * q)

def leading (value denominator : Nat) : Int :=
  if denominator ≤ value then ((decimalDigits (value / denominator)).length : Int) - 1
  else
    let c := (decimalDigits (denominator / value)).length
    if denominator ≤ value * Nat.pow 10 (c - 1) then -((c : Int) - 1) else -(c : Int)

/-- The decimal with the last digit at `10 ^ k` that stands for the interval's value, if one of the
value's two neighbours there lies in the interval. -/
def onGrid? (i : Interval) (k : Int) : Option Decimal :=
  let (p, q) := powerOfTen k
  let num := i.value * q
  let den := i.denominator * p
  let down : Decimal := ⟨num / den, k⟩
  let up : Decimal := ⟨num / den + 1, k⟩
  match inside i down, inside i up with
  | true, true =>
    let r := num % den
    if 2 * r < den then some down
    else if den < 2 * r then some up
    else if down.digits % 2 = 0 then some down else some up
  | true, false => some down
  | false, true => some up
  | false, false => none

/-- The first hit on the grids of `n`, `n + 1`, … digits, `fuel` grids at most. -/
def firstHit (i : Interval) (top : Int) : Nat → Nat → Decimal
  | 0, n => ⟨i.value, top + 1 - n⟩
  | fuel + 1, n =>
    match onGrid? i (top + 1 - n) with
    | some d => d
    | none => firstHit i top fuel (n + 1)

/-- Moves zeros at the end of the digits into the exponent, `fuel` zeros at most. -/
def dropZeros : Nat → Decimal → Decimal
  | 0, d => d
  | fuel + 1, d =>
    if d.digits % 10 = 0 ∧ d.digits ≠ 0 then dropZeros fuel ⟨d.digits / 10, d.exponent + 1⟩ else d

/-- The shortest decimal that reads back as the magnitude of a finite number. -/
def shortest (x : Binary64) : Decimal :=
  if x.isZero then ⟨0, 0⟩
  else
    let i := interval x
    dropZeros 17 (firstHit i (leading i.value i.denominator) 17 1)

/-! ### Layout -/

/-- Where the point and the exponent of a written number go. -/
structure Layout where
  /-- The least exponent of the first digit that is written without an exponent. -/
  least : Int
  /-- The first exponent above the positional ones. -/
  limit : Int
  /-- A positional number without a point is followed by `.0`. -/
  pointed : Bool
  nan : String
  infinity : String
  negativeInfinity : String

def topExponent (d : Decimal) : Int := (decimalDigits d.digits).length + d.exponent - 1

/-- Digits, with a point where the units end. -/
def positional (d : Decimal) : List Char :=
  let ds := decimalDigits d.digits
  if 0 ≤ d.exponent then
    if d.digits = 0 then ds else ds ++ List.replicate d.exponent.toNat '0'
  else
    let places := (-d.exponent).toNat
    if ds.length ≤ places then
      '0' :: '.' :: (List.replicate (places - ds.length) '0' ++ ds)
    else ds.take (ds.length - places) ++ '.' :: ds.drop (ds.length - places)

/-- The exponent with its sign and at least two digits. -/
def exponentText (e : Int) : List Char :=
  let ds := decimalDigits e.natAbs
  (if e < 0 then '-' else '+') :: (if ds.length < 2 then '0' :: ds else ds)

def scientific (d : Decimal) : List Char :=
  match decimalDigits d.digits with
  | [] => []
  | [c] => c :: 'e' :: exponentText d.topExponent
  | c :: rest => c :: '.' :: (rest ++ 'e' :: exponentText d.topExponent)

end Decimal

def Binary64.render (l : Decimal.Layout) (x : Binary64) : String :=
  if x.isNaN then l.nan
  else if x.isInfinite then if x.negative then l.negativeInfinity else l.infinity
  else
    let d := Decimal.shortest x
    let e := d.topExponent
    let body :=
      if x.isZero ∨ (l.least ≤ e ∧ e < l.limit) then
        let ds := d.positional
        if l.pointed ∧ '.' ∉ ds then ds ++ ['.', '0'] else ds
      else d.scientific
    String.ofList (if x.negative then '-' :: body else body)

namespace Decimal

/-- A number shown among other fields: positional from `1e-04` up to six digits before the point. -/
def Layout.field : Layout :=
  { least := -4, limit := 6, pointed := false,
    nan := "NaN", infinity := "+Inf", negativeInfinity := "-Inf" }

/-! ### Reading -/

def natOfDigits (ds : List Char) : Nat := ds.foldl (fun n c => 10 * n + (c.toNat - 48)) 0

def signed (cs : List Char) : Bool × List Char :=
  match cs with
  | '-' :: rest => (true, rest)
  | '+' :: rest => (false, rest)
  | _ => (false, cs)

/-- The exponent part `e` or `E`, a sign and digits, which may be missing as a whole. -/
def readExponent? (cs : List Char) : Option Int :=
  match cs with
  | [] => some 0
  | c :: rest =>
    if c = 'e' ∨ c = 'E' then
      let (negative, ds) := signed rest
      if ds ≠ [] ∧ ds.all Char.isDigit then
        let n : Int := natOfDigits ds
        some (if negative then -n else n)
      else none
    else none

/-- Reads an optional sign, digits with an optional point, and an optional exponent. There is a digit
before or after the point. -/
def read? (cs : List Char) : Option (Bool × Decimal) :=
  let (negative, cs) := signed cs
  let whole := cs.takeWhile Char.isDigit
  let cs := cs.dropWhile Char.isDigit
  let (places, cs) :=
    match cs with
    | '.' :: rest => (rest.takeWhile Char.isDigit, rest.dropWhile Char.isDigit)
    | _ => ([], cs)
  if whole = [] ∧ places = [] then none
  else
    match readExponent? cs with
    | some e => some (negative, ⟨natOfDigits (whole ++ places), e - places.length⟩)
    | none => none

/-- The nearest double, `none` beyond the finite range. Decimals far outside the range are settled
by their first digit's exponent, so that no power of ten larger than the range is formed. -/
def toBinary64? (negative : Bool) (d : Decimal) : Option Binary64 :=
  if d.digits = 0 then some (Binary64.zero negative)
  else if 310 < d.topExponent then none
  else if d.topExponent < -330 then some (Binary64.zero negative)
  else
    let (p, q) := powerOfTen d.exponent
    Binary64.ofRatio? negative (d.digits * p) q

end Decimal

end Netscribe
