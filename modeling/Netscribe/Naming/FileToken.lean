import Netscribe.Text.Category
import Netscribe.Text.Utf8

/-!
# File name tokens

The default name of a generated file comes from the name of its graph: the name in snake case, with
an underscore for every character other than a lower-case ASCII letter or a digit, none at either end
and never two in a row. Snake case looks at a name byte by byte and takes each byte for the Latin-1
character of that number.
-/

namespace Netscribe.Naming

/-! ### Snake case -/

def byteOf (c : Char) : UInt8 := UInt8.ofNat c.toNat

def underscore : UInt8 := byteOf '_'

def foldOAuth : List UInt8 → List UInt8
  | 79 :: 65 :: 117 :: 116 :: 104 :: rest => 111 :: 97 :: 117 :: 116 :: 104 :: foldOAuth rest
  | b :: rest => b :: foldOAuth rest
  | [] => []

/-- The fields between white space; `field` is the one begun. -/
def fieldsFrom (field : List UInt8) : List (Char × List UInt8) → List (List UInt8)
  | [] => if field.isEmpty then [] else [field]
  | (c, bs) :: rest =>
    if Category.isSpace c then
      if field.isEmpty then fieldsFrom [] rest else field :: fieldsFrom [] rest
    else fieldsFrom (field ++ bs) rest

/-- The name with one underscore for each run of white space between fields. -/
def joinFields (bs : List UInt8) : List UInt8 :=
  List.intercalate [underscore] (fieldsFrom [] (Utf8.pieces bs))

def isLowLetter (b : UInt8) : Bool :=
  let n := b.toNat
  (97 ≤ n && n ≤ 122) || n == 0xB5 || (0xDF ≤ n && n ≤ 0xFF && n != 0xF7)

def isLowByte (b : UInt8) : Bool := isLowLetter b || (48 ≤ b.toNat && b.toNat ≤ 57)

def lowerByte (b : UInt8) : UInt8 :=
  let n := b.toNat
  if (65 ≤ n && n ≤ 90) || (0xC0 ≤ n && n ≤ 0xDE && n != 0xD7) then UInt8.ofNat (n + 32) else b

/-- The bytes after the first: a byte that is neither lower case nor an underscore starts a word
after a lower-case byte, and before a lower-case letter unless an underscore stands before it.
`afterLow` and `afterUnderscore` describe the byte before. -/
def snakeTail (afterLow afterUnderscore : Bool) : List UInt8 → List UInt8
  | [] => []
  | b :: rest =>
    let low := isLowByte b
    let under := b == underscore
    let startsWord :=
      !low && !under &&
        ((afterLow && !afterUnderscore) ||
          (!afterUnderscore && match rest with | [] => false | d :: _ => isLowLetter d))
    (if startsWord then [underscore] else []) ++ lowerByte b :: snakeTail low under rest

def snakeCase (name : List UInt8) : List UInt8 :=
  let bs := (joinFields (foldOAuth name)).map fun b =>
    if b == byteOf '-' || b == byteOf '/' then underscore else b
  match bs with
  | [] => []
  | b :: rest => lowerByte b :: snakeTail false false rest

def snakeText (name : List UInt8) : List Char := (snakeCase name).map fun b => Char.ofNat b.toNat

/-! ### Tokens -/

def isTokenChar (c : Char) : Bool := c.isLower || c.isDigit

/-- A character in lower case if its lower case is an ASCII letter, and any other character itself.
Beyond ASCII these are the dotted capital I and the Kelvin sign. -/
def lower (c : Char) : Char :=
  if c.toNat = 0x130 then 'i' else if c.toNat = 0x212A then 'k' else c.toLower

def tokenChar (c : Char) : Char := if isTokenChar (lower c) then lower c else '_'

def trimUnderscores (cs : List Char) : List Char :=
  ((cs.dropWhile (· == '_')).reverse.dropWhile (· == '_')).reverse

def collapse : List Char → List Char
  | [] => []
  | c :: rest =>
    if c == '_' then
      match collapse rest with
      | '_' :: more => '_' :: more
      | more => '_' :: more
    else c :: collapse rest

/-- The token of a text; the fallback if no character is left. -/
def tokenOf (text : List Char) (fallback : String) : String :=
  let cs := collapse (trimUnderscores (text.map tokenChar))
  if cs.isEmpty then fallback else String.ofList cs

/-- The file name token of a name, given by its bytes, where `snake` puts names in snake case. -/
def fileTokenBy (snake : List UInt8 → List Char) (name : List UInt8) (fallback : String) : String :=
  tokenOf (snake name) fallback

def fileToken (name : List UInt8) (fallback : String) : String := fileTokenBy snakeText name fallback

/-- The default path of the source generated for a graph of that name, where `snake` puts names in
snake case. -/
def defaultPathBy (snake : List UInt8 → List Char) (name : List UInt8) : String :=
  fileTokenBy snake name "module" ++ ".py"

def defaultPath (name : List UInt8) : String := defaultPathBy snakeText name

end Netscribe.Naming
