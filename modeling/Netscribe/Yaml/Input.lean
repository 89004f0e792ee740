import Netscribe.Yaml.Error

/-!
# Characters from bytes

A document is read from bytes, in UTF-8 or, after a byte order mark, in UTF-16. The bytes come in
pieces of 512. A character that a piece cuts waits for the next piece. A piece with bytes that are no
character, or a character that no document may have, cannot be read, and nor can what follows it: that
is a failure only for a reader who gets there.
-/

namespace Netscribe.Yaml

/-- A character that a document may have: tabs, line ends, and what is neither a control character
nor a noncharacter. -/
def isAllowed (c : Char) : Bool :=
  let n := c.toNat
  n == 0x09 || n == 0x0A || n == 0x0D || (0x20 ≤ n && n ≤ 0x7E) || n == 0x85 ||
    (0xA0 ≤ n && n ≤ 0xD7FF) || (0xE000 ≤ n && n ≤ 0xFFFD) || 0x10000 ≤ n

def byteOrderMark : Char := Char.ofNat 0xFEFF

/-- The number of bytes of the character that starts with a byte, zero if none does. -/
def leadLength (b : Nat) : Nat :=
  if b < 0x80 then 1
  else if 0xC0 ≤ b ∧ b < 0xE0 then 2
  else if 0xE0 ≤ b ∧ b < 0xF0 then 3
  else if 0xF0 ≤ b ∧ b < 0xF8 then 4
  else 0

inductive Decoded where
  | char (c : Char) (length : Nat)
  | cut
  | invalid
deriving DecidableEq, Repr

inductive Encoding where
  | utf8
  | utf16 (bigEndian : Bool)
deriving DecidableEq, Repr

namespace Encoding

/-- The encoding of a document and the length of the byte order mark that names it. -/
def detect : List UInt8 → Encoding × Nat
  | 0xFF :: 0xFE :: _ => (.utf16 false, 2)
  | 0xFE :: 0xFF :: _ => (.utf16 true, 2)
  | 0xEF :: 0xBB :: 0xBF :: _ => (.utf8, 3)
  | _ => (.utf8, 0)

def word (bigEndian : Bool) (a b : UInt8) : Nat :=
  if bigEndian then a.toNat * 256 + b.toNat else b.toNat * 256 + a.toNat

def next : Encoding → UInt8 → List UInt8 → Decoded
  | utf8, a, rest =>
    let n := leadLength a.toNat
    if n = 0 then .invalid
    else if (rest.take (n - 1)).length < n - 1 then .cut
    else
      match Utf8.sequence? a rest with
      | some (c, k) => .char c (k + 1)
      | none => .invalid
  | utf16 bigEndian, a, rest =>
    match rest with
    | [] => .cut
    | b :: rest =>
      let w := word bigEndian a b
      if w < 0xD800 ∨ 0xDFFF < w then .char (Char.ofNat w) 2
      else if 0xDC00 ≤ w then .invalid
      else
        match rest with
        | c :: d :: _ =>
          let v := word bigEndian c d
          if 0xDC00 ≤ v ∧ v ≤ 0xDFFF then
            .char (Char.ofNat (0x10000 + (w - 0xD800) * 0x400 + (v - 0xDC00))) 4
          else .invalid
        | _ => .cut

/-- The characters of a piece after its first `skip` bytes, and the bytes of a character that it
cuts. -/
def decodeFrom (e : Encoding) : Nat → List UInt8 → Option (List Char × List UInt8)
  | _, [] => some ([], [])
  | 0, a :: rest =>
    match e.next a rest with
    | .char c n =>
      if isAllowed c then (decodeFrom e (n - 1) rest).map fun (cs, left) => (c :: cs, left) else none
    | .cut => some ([], a :: rest)
    | .invalid => none
  | skip + 1, _ :: rest => decodeFrom e skip rest

/-- The number of bytes of a piece, with those that the piece before it has left. -/
def pieceSize : Nat := 512

/-- The characters of each piece that can be read, and whether that is all. The first piece has `room`
bytes. -/
def pieces (e : Encoding) : Nat → Nat → List UInt8 → List (List Char) × Bool
  | 0, _, _ => ([], true)
  | fuel + 1, room, bytes =>
    match e.decodeFrom 0 (bytes.take room) with
    | none => ([], false)
    | some (cs, left) =>
      let later := bytes.drop room
      if later.isEmpty then ([cs], left.isEmpty)
      else
        let (more, whole) := pieces e fuel pieceSize (left ++ later)
        (cs :: more, whole)

end Encoding

/-- The characters of a document. -/
structure Input where
  /-- The characters that can be read, without the byte order mark that names the encoding. -/
  text : List Char
  ends : List Nat
  whole : Bool
deriving DecidableEq, Repr

namespace Input

/-- The number of characters up to the end of each piece, with `n` characters before them. -/
def endsFrom (n : Nat) : List (List Char) → List Nat
  | [] => []
  | cs :: rest => (n + cs.length) :: endsFrom (n + cs.length) rest

def ofBytes (bytes : List UInt8) : Input :=
  let (encoding, mark) := Encoding.detect bytes
  let (ps, whole) :=
    encoding.pieces (bytes.length + 1) (Encoding.pieceSize - mark) (bytes.drop mark)
  ⟨ps.flatten, endsFrom 0 ps, whole⟩

end Input

end Netscribe.Yaml
