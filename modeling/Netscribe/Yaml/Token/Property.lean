import Netscribe.Yaml.Token.Scalar

/-!
# Anchors, tags and directives

The tokens that start with one of the characters `&`, `*`, `!` and `%`.
-/

namespace Netscribe.Yaml

abbrev textOf (cs : List Char) : String := String.ofList cs

/-! ### Anchors -/

def endsAnchor (c : Cursor) : Bool :=
  c.atGap || c.atClass fun x => ['?', ':', ',', ']', '\x7d', '%', '@', '\x60'].contains x

def anchorName (c : Cursor) : Except Failure (String × Cursor) :=
  let (name, after) := (c.advance 1).takeWhile isNameChar
  if name.isEmpty || !endsAnchor after then
    c.fail "did not find expected alphabetic or numeric character"
  else .ok (textOf name, after)

/-! ### Tags -/

def isTagChar (c : Char) : Bool :=
  isNameChar c ||
    [';', '/', '?', ':', '@', '&', '=', '+', '$', ',', '.', '!', '~', '*', '\x27', '(', ')', '[', ']',
     '%'].contains c

/-- The byte that a percent sign and two hexadecimal digits stand for. -/
def escapedByte? : List Char → Option Nat
  | '%' :: a :: b :: _ => hexNumber? [a, b]
  | _ => none

/-- The bytes of `n` escapes that go on with a character. -/
def tailBytes? : Nat → List Char → Option (List Nat)
  | 0, _ => some []
  | n + 1, cs =>
    match escapedByte? cs with
    | some b =>
      if 0x80 ≤ b ∧ b < 0xC0 then (tailBytes? n (cs.drop 3)).map (b :: ·) else none
    | none => none

def escapedCharacter? (cs : List Char) : Option (List Nat) :=
  match escapedByte? cs with
  | some b =>
    match leadLength b with
    | 0 => none
    | n + 1 => (tailBytes? n (cs.drop 3)).map (b :: ·)
  | none => none

def tagChars : Nat → List Char → Cursor → Except Failure (List Char × Cursor)
  | 0, text, c => .ok (text, c)
  | fuel + 1, text, c =>
    match c.rest with
    | [] => .ok (text, c)
    | x :: _ =>
      if !isTagChar x then .ok (text, c)
      else if x == '%' then
        match escapedCharacter? c.rest with
        | some bs =>
          let chars := Utf8.decode (bs.map UInt8.ofNat)
          tagChars fuel (text ++ chars) (c.advance (3 * bs.length))
        | none => c.fail "did not find URI escaped octet"
      else tagChars fuel (text ++ [x]) (c.advance 1)

def tagText (c : Cursor) : Except Failure (List Char × Cursor) := tagChars c.size [] c

def tagText1 (c : Cursor) : Except Failure (List Char × Cursor) := do
  let (text, after) ← tagText c
  -- an escape is never empty, so the place tells whether there was a character
  if after.index = c.index then c.fail "did not find expected tag URI" else return (text, after)

/-- The handle at a place: an exclamation mark and a name, with a second exclamation mark or not. -/
def tagHandle (c : Cursor) : List Char × Cursor :=
  let (name, after) := (c.advance 1).takeWhile isNameChar
  if after.isAt '!' then ('!' :: name ++ ['!'], after.advance 1) else ('!' :: name, after)

def isFullHandle (handle : List Char) : Bool :=
  decide (1 < handle.length) && handle.getLast? == some '!'

/-- The handle and the suffix of the tag at a place, without a look at what follows. -/
def tagParts (c : Cursor) : Except Failure (String × String × Cursor) := do
  match c.rest with
  | _ :: '<' :: _ =>
    let (text, c) ← tagText1 (c.advance 2)
    if c.isAt '>' then return ("", textOf text, c.advance 1)
    else c.fail "did not find the expected '>'"
  | _ =>
    let (handle, after) := tagHandle c
    if isFullHandle handle then
      let (suffix, after) ← tagText1 after
      return (textOf handle, textOf suffix, after)
    else
      let (more, after) ← tagText after
      let suffix := handle.drop 1 ++ more
      -- a single exclamation mark has no handle
      if suffix.isEmpty then return ("", "!", after) else return ("!", textOf suffix, after)

def tagAt (c : Cursor) : Except Failure (String × String × Cursor) := do
  let (handle, suffix, c) ← tagParts c
  if c.atGap then return (handle, suffix, c)
  else c.fail "did not find expected whitespace or line break"

/-! ### Directives -/

def versionNumber (c : Cursor) : Except Failure (Nat × Cursor) :=
  let (digits, after) := c.takeWhile Char.isDigit
  if digits.isEmpty ∨ 2 < digits.length then c.fail "did not find expected version number"
  else .ok (Decimal.natOfDigits digits, after)

def versionDirective (c : Cursor) : Except Failure (TokenKind × Cursor) := do
  let (major, c) ← versionNumber (c.skipWhile isBlank)
  if c.isAt '.' then
    let (minor, c) ← versionNumber (c.advance 1)
    return (.versionDirective major minor, c)
  else c.fail "did not find expected digit or '.' character"

def tagDirective (c : Cursor) : Except Failure (TokenKind × Cursor) := do
  let c := c.skipWhile isBlank
  if !c.isAt '!' then c.fail "did not find expected '!'"
  else
    let (handle, c) := tagHandle c
    if handle != ['!'] && !isFullHandle handle then c.fail "did not find expected '!'"
    else if !c.atClass isBlank then c.fail "did not find expected whitespace"
    else
      let (lead, c) ← tagText1 (c.skipWhile isBlank)
      if c.atGap then return (.tagDirective (textOf handle) (textOf lead), c)
      else c.fail "did not find expected whitespace or line break"

/-- The directive at a place, with the rest of its line. -/
def directiveAt (c : Cursor) : Except Failure (TokenKind × Cursor) := do
  let (name, after) := (c.advance 1).takeWhile isNameChar
  if name.isEmpty || !after.atGap then c.fail "could not find expected directive name"
  else
    let (kind, c) ←
      if textOf name = "YAML" then versionDirective after
      else if textOf name = "TAG" then tagDirective after
      else c.fail "found unknown directive name"
    return (kind, ← blockHeaderEnd c)

end Netscribe.Yaml
