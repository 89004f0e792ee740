/-!
# Text from bytes

Byte strings come from files and may be anything. `pieces` cuts a byte string into characters, each
with the bytes it was read from; a byte that starts no well-formed UTF-8 sequence is a piece of its
own, read as U+FFFD. `decode` keeps the characters only, and `decode?` accepts well-formed byte
strings alone.
-/

namespace Netscribe.Utf8

/-- The character read from a byte that belongs to no well-formed sequence. -/
def replacement : Char := Char.ofNat 0xFFFD

def isTail (b : UInt8) : Bool := decide (0x80 ≤ b.toNat) && decide (b.toNat ≤ 0xBF)

def tailBits (b : UInt8) : Nat := b.toNat % 64

/-- The character of the sequence that starts with the byte `a` and goes on with the bytes of
`rest`, and the number of bytes it takes from `rest`. Longer forms than needed, surrogates and code
points beyond U+10FFFF are not well formed. -/
def sequence? (a : UInt8) (rest : List UInt8) : Option (Char × Nat) :=
  let lead := a.toNat
  if lead < 0x80 then some (Char.ofNat lead, 0)
  else match rest with
    | b :: c :: d :: _ =>
      if 0xF0 ≤ lead && lead ≤ 0xF4 && isTail b && isTail c && isTail d then
        let n := lead % 8 * 262144 + tailBits b * 4096 + tailBits c * 64 + tailBits d
        if 0x10000 ≤ n && n ≤ 0x10FFFF then some (Char.ofNat n, 3) else none
      else three? lead b c
    | [b, c] => three? lead b c
    | [b] => two? lead b
    | [] => none
where
  two? (lead : Nat) (b : UInt8) : Option (Char × Nat) :=
    if 0xC2 ≤ lead && lead ≤ 0xDF && isTail b then
      some (Char.ofNat (lead % 32 * 64 + tailBits b), 1)
    else none
  /-- A sequence of three bytes, or of two. -/
  three? (lead : Nat) (b c : UInt8) : Option (Char × Nat) :=
    if 0xE0 ≤ lead && lead ≤ 0xEF && isTail b && isTail c then
      let n := lead % 16 * 4096 + tailBits b * 64 + tailBits c
      if 0x800 ≤ n && !(0xD800 ≤ n && n ≤ 0xDFFF) then some (Char.ofNat n, 2) else none
    else two? lead b

/-- The characters of a byte string after its first `skip` bytes, each with the bytes it was read
from. -/
def piecesFrom : Nat → List UInt8 → List (Char × List UInt8)
  | _, [] => []
  | 0, a :: rest =>
    match sequence? a rest with
    | some (c, k) => (c, a :: rest.take k) :: piecesFrom k rest
    | none => (replacement, [a]) :: piecesFrom 0 rest
  | skip + 1, _ :: rest => piecesFrom skip rest

def pieces (bs : List UInt8) : List (Char × List UInt8) := piecesFrom 0 bs

/-- The characters of a byte string, with U+FFFD for each byte of no well-formed sequence. -/
def decode (bs : List UInt8) : List Char := (pieces bs).map (·.1)

def text (bs : List UInt8) : String := String.ofList (decode bs)

def decodeFrom? : Nat → List UInt8 → Option (List Char)
  | _, [] => some []
  | 0, a :: rest =>
    match sequence? a rest with
    | some (c, k) => (decodeFrom? k rest).map (c :: ·)
    | none => none
  | skip + 1, _ :: rest => decodeFrom? skip rest

def decode? (bs : List UInt8) : Option (List Char) := decodeFrom? 0 bs

def encode (s : String) : List UInt8 := s.toUTF8.toList

/-- The bytes of a text, cut after the first `n`, read as text again. -/
def take (n : Nat) (s : String) : String := text ((encode s).take n)

end Netscribe.Utf8
