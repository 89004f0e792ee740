import Netscribe.Yaml.Error

/-!
# Places in a document

A `Cursor` stands between two characters of a document and knows its place: the number of characters
before it, its line and its column.
-/

namespace Netscribe.Yaml

/-! ### Classes of characters -/

def isBlank (c : Char) : Bool := c == ' ' || c == '\t'

def isBreak (c : Char) : Bool :=
  c == '\n' || c == '\r' || c.toNat == 0x85 || c.toNat == 0x2028 || c.toNat == 0x2029

def isGap (c : Char) : Bool := isBlank c || isBreak c

/-- A character of a name: a letter or digit of ASCII, an underscore or a hyphen. -/
def isNameChar (c : Char) : Bool := c.isAlphanum || c == '_' || c == '-'

/-- A line end as content: the separators of lines and paragraphs stay, all others are line feeds. -/
def breakText (c : Char) : Char := if c.toNat = 0x2028 ∨ c.toNat = 0x2029 then c else '\n'

def startsGap : List Char → Bool
  | [] => true
  | c :: _ => isGap c

/-! ### Cursors -/

/-- A place in a document. Lines and columns are counted from zero. -/
structure Cursor where
  rest : List Char
  index : Nat
  line : Nat
  column : Nat
  /-- Only blanks and tabs stand between the last line end and the place. -/
  afterBreak : Bool
  /-- The number of characters of the whole document, which bounds what can follow. -/
  size : Nat
deriving DecidableEq, Inhabited, Repr

namespace Cursor

def start (cs : List Char) : Cursor := ⟨cs, 0, 0, 0, false, cs.length⟩

def advance (n : Nat) (c : Cursor) : Cursor :=
  { c with
    rest := c.rest.drop n
    index := c.index + n
    column := c.column + n
    afterBreak := c.afterBreak && (c.rest.take n).all isBlank }

/-- The characters of the line up to the first one outside a class, and the place after them. -/
def takeWhile (p : Char → Bool) (c : Cursor) : List Char × Cursor :=
  let taken := c.rest.takeWhile p
  (taken, c.advance taken.length)

def skipWhile (p : Char → Bool) (c : Cursor) : Cursor := (c.takeWhile p).2

def breakLength : List Char → Nat
  | '\r' :: '\n' :: _ => 2
  | _ => 1

def nextLine (c : Cursor) : Cursor :=
  let n := breakLength c.rest
  { c with
    rest := c.rest.drop n
    index := c.index + n
    line := c.line + 1
    column := 0
    afterBreak := true }

def head? (c : Cursor) : Option Char := c.rest.head?

def isAt (c : Cursor) (x : Char) : Bool := c.head? == some x

def atClass (c : Cursor) (p : Char → Bool) : Bool :=
  match c.rest with
  | [] => false
  | x :: _ => p x

def atGap (c : Cursor) : Bool := startsGap c.rest

def atLineEnd (c : Cursor) : Bool :=
  match c.rest with
  | [] => true
  | x :: _ => isBreak x

/-- Three given characters at the start of a line, with a gap after them. -/
def atMarker (c : Cursor) (x : Char) : Bool :=
  c.column == 0 &&
    match c.rest with
    | a :: b :: d :: rest => a == x && b == x && d == x && startsGap rest
    | _ => false

def atDocumentMarker (c : Cursor) : Bool := c.atMarker '-' || c.atMarker '.'

def fail {α : Type} (c : Cursor) (rule : String) : Except Failure α :=
  .error (.malformed (c.line + 1) rule)

end Cursor

end Netscribe.Yaml
