/-!
# Double precision numbers as words

A number is its 64 bits: the sign, eleven bits of biased exponent (the field) and 52 bits of
fraction. The magnitude of a finite number is `significand * 2 ^ exponent` with integers. `ofRatio?`
rounds a quotient of natural numbers to the nearest number, a tie to the even significand; all
other readings (of decimals, integers, sums) are exact quotients rounded once.
-/

namespace Netscribe

structure Binary64 where
  /-- The sign, the exponent field and the fraction, most significant first. -/
  bits : UInt64
deriving DecidableEq, Inhabited, Repr

namespace Binary64

def negative (x : Binary64) : Bool := decide (Nat.pow 2 63 ≤ x.bits.toNat)

def field (x : Binary64) : Nat := x.bits.toNat / Nat.pow 2 52 % Nat.pow 2 11

def fraction (x : Binary64) : Nat := x.bits.toNat % Nat.pow 2 52

def isFinite (x : Binary64) : Bool := decide (x.field ≠ 2047)

def isNaN (x : Binary64) : Bool := decide (x.field = 2047) && decide (x.fraction ≠ 0)

def isInfinite (x : Binary64) : Bool := decide (x.field = 2047) && decide (x.fraction = 0)

/-- The integral significand of a finite number, with the hidden bit of normal numbers. -/
def significand (x : Binary64) : Nat :=
  if x.field = 0 then x.fraction else Nat.pow 2 52 + x.fraction

/-- The exponent of the significand's last bit, shifted by 1074 to a natural number. -/
def scale (x : Binary64) : Nat := x.field - 1

def isZero (x : Binary64) : Bool := decide (x.field = 0) && decide (x.fraction = 0)

/-- The magnitude of a finite number as a quotient: numerator over `2 ^ 1074`. -/
def magnitude (x : Binary64) : Nat := x.significand * Nat.pow 2 x.scale

def unit : Nat := Nat.pow 2 1074

def ofParts (negative : Bool) (field fraction : Nat) : Binary64 :=
  ⟨UInt64.ofNat ((if negative then Nat.pow 2 63 else 0) + field * Nat.pow 2 52 + fraction)⟩

def zero (negative : Bool) : Binary64 := ofParts negative 0 0

def infinity (negative : Bool) : Binary64 := ofParts negative 2047 0

def nan : Binary64 := ⟨0x7FF8000000000001⟩

/-! ### Rounding -/

/-- `num / den` to the nearest integer, a tie to the even one. -/
def roundDiv (num den : Nat) : Nat :=
  let q := num / den
  let r := num % den
  if 2 * r < den then q
  else if den < 2 * r then q + 1
  else if q % 2 = 0 then q else q + 1

/-- The shift `s` for which `num / den / 2 ^ (s - 1074)` has at most 53 bits, and exactly 53 where
the quotient is normal: the scale of the nearest number before a carry. -/
def scaleOf (num den : Nat) : Nat :=
  let guess := num.log2 + 1074 - den.log2 - 52
  -- the difference of the logarithms is the logarithm of the quotient or one more
  if num * Nat.pow 2 1074 < den * Nat.pow 2 (guess + 52) then guess - 1 else guess

/-- The number of magnitude `m * 2 ^ s` over `unit`, with the sign given; `none` beyond the finite
range. -/
def pack? (negative : Bool) (m s : Nat) : Option Binary64 :=
  -- a carry out of the significand is the hidden bit of the next binade
  let (m, s) := if m = Nat.pow 2 53 then (Nat.pow 2 52, s + 1) else (m, s)
  let field := if m < Nat.pow 2 52 then 0 else s + 1
  let fraction := m % Nat.pow 2 52
  if field < 2047 then some (ofParts negative field fraction) else none

def ofRatio? (negative : Bool) (num den : Nat) : Option Binary64 :=
  if num = 0 then some (zero negative)
  else
    let s := scaleOf num den
    pack? negative (roundDiv (num * unit) (den * Nat.pow 2 s)) s

/-- The nearest number to an integer, infinite beyond the finite range. -/
def ofInt (i : Int) : Binary64 :=
  (ofRatio? (i < 0) i.natAbs 1).getD (infinity (i < 0))

def isInteger (x : Binary64) : Bool := x.isFinite && decide (x.magnitude % unit = 0)

def truncate (x : Binary64) : Int :=
  let n := x.magnitude / unit
  if x.negative then -(n : Int) else n

/-- The value of a finite number times `2 ^ 1074`. -/
def scaled (x : Binary64) : Int := if x.negative then -(x.magnitude : Int) else x.magnitude

/-- The sum of two finite numbers, rounded once; a sum that is zero is positive. -/
def add (x y : Binary64) : Binary64 :=
  let sum := x.scaled + y.scaled
  (ofRatio? (sum < 0) sum.natAbs unit).getD (infinity (sum < 0))

def ofQuotient (num : Int) (den : Nat) : Binary64 :=
  (ofRatio? (num < 0) num.natAbs den).getD (infinity (num < 0))

end Binary64

end Netscribe
