import Netscribe.Text.Category
import Netscribe.Text.Utf8

/-!
# Class names

A generated class needs a Python identifier that is no keyword. A name that is one is kept; any
other is cut into words, which are capitalised and written together. What is still no class name
gives way to a fallback. Names are byte strings, and need not be well-formed text.

Only ASCII letters end up in an identifier, so of the letters beyond ASCII only the two with an
ASCII capital (U+0131 and U+017F) take part in the rules on case: a name with any other such letter
has no ASCII form, whatever its case.
-/

namespace Netscribe.Naming

def keywords : List String :=
  ["False", "None", "True", "and", "as", "assert", "async", "await", "break", "class", "continue",
   "def", "del", "elif", "else", "except", "finally", "for", "from", "global", "if", "import", "in",
   "is", "lambda", "nonlocal", "not", "or", "pass", "raise", "return", "try", "while", "with",
   "yield"]

def isKeyword (name : String) : Bool := keywords.contains name

/-- A character that an identifier may start with: an ASCII letter or the underscore. -/
def startsIdentifier (c : Char) : Bool := c.isAlpha || c == '_'

/-- A character that an identifier may go on with: also an ASCII digit. -/
def continuesIdentifier (c : Char) : Bool := startsIdentifier c || c.isDigit

def isIdentifier : List Char → Bool
  | [] => false
  | c :: rest => startsIdentifier c && rest.all continuesIdentifier

def isClassName (name : String) : Bool := isIdentifier name.toList && !isKeyword name

/-! ### Words of a name -/

def isWordChar (c : Char) : Bool := Category.isLetter c || Category.isDigit c

/-- A lower-case letter with an ASCII capital, or a digit. -/
def isLow (c : Char) : Bool := c.isLower || c.isDigit || c.toNat == 0x131 || c.toNat == 0x17F

/-- The capital of a letter that has an ASCII capital, any other character itself. -/
def capital (c : Char) : Char :=
  if c.toNat = 0x131 then 'I' else if c.toNat = 0x17F then 'S' else c.toUpper

/-- A word ends before the rest of the name: at its end, before an underscore, and after a
lower-case character before one that is not. -/
def endsWord (c : Char) (rest : List Char) : Bool :=
  match rest with
  | [] => true
  | d :: _ => d == '_' || (isLow c && !isLow d)

/-- The words of a name that does not end in characters of no word; `word` is the one begun. -/
def wordsFrom (word : List Char) : List Char → List (List Char)
  | [] => if word.isEmpty then [] else [word]
  | c :: rest =>
    if !isWordChar c then wordsFrom word rest
    else if endsWord c rest then (word ++ [c]) :: wordsFrom [] rest
    else wordsFrom (word ++ [c]) rest

def trimEnd (cs : List Char) : List Char := (cs.reverse.dropWhile fun c => !isWordChar c).reverse

def initialisms : List String :=
  ["API", "ASCII", "CPU", "CSS", "DNS", "EOF", "GUID", "HTML", "HTTP", "HTTPS", "ID", "IP", "JMES",
   "JSON", "JWT", "LHS", "OK", "QPS", "RAM", "RHS", "RPC", "SDK", "SLA", "SMTP", "SQL", "SSH", "TCP",
   "TLS", "TTL", "UDP", "UI", "UID", "UUID", "URI", "URL", "UTF8", "VM", "XML", "XSRF", "XSS"]

/-- An initialism in capitals, a word without capitals with its first letter capitalised, and any
other word as it is. -/
def capitaliseWord (word : List Char) : List Char :=
  let upper := word.map capital
  if initialisms.contains (String.ofList upper) then upper
  else if word.all (fun c => !c.isUpper) then
    match word with
    | [] => []
    | c :: rest => capital c :: rest
  else word

/-- What stands before the first colon; a name that starts with a colon is kept whole. -/
def beforeColon (cs : List Char) : List Char :=
  if cs.head? = some ':' then cs else cs.takeWhile (· ≠ ':')

def camelCase (cs : List Char) : List Char := (wordsFrom [] (trimEnd cs)).flatMap capitaliseWord

/-- The identifier made from a name: `Val` for a name without words. -/
def identifierFrom (name : String) : String :=
  if name.isEmpty then ""
  else
    let cs := camelCase (beforeColon name.toList)
    if cs.isEmpty then "Val" else String.ofList cs

/-! ### Names by their bytes -/

/-- An ASCII character other than the last one. -/
def isAscii (c : Char) : Bool := c.toNat < 0x7F

/-- The characters, of which the first starts at an offset in the name, are underscores, ASCII letters
and ASCII digits, and no digit stands at offset zero. -/
def scanFrom (offset : Nat) : List (Char × List UInt8) → Bool
  | [] => true
  | (c, bs) :: rest =>
    if c == '_' || (isAscii c && Category.isLetter c) then scanFrom (offset + bs.length) rest
    else if isAscii c && Category.isDigit c then
      if offset == 0 then false else scanFrom (offset + bs.length) rest
    else false

def spellsIdentifier (name : List UInt8) : Bool := !name.isEmpty && scanFrom 0 (Utf8.pieces name)

def spellsKeyword (name : List UInt8) : Bool := (keywords.map Utf8.encode).contains name

def spellsClassName (name : List UInt8) : Bool := spellsIdentifier name && !spellsKeyword name

/-- The class name for a name, where `identifier` makes identifiers of names. -/
def classNameBy (identifier : List UInt8 → List UInt8) (name fallback : List UInt8) : List UInt8 :=
  if spellsClassName name then name
  else if spellsClassName (identifier name) then identifier name
  else fallback

def identifierBytes (name : List UInt8) : List UInt8 :=
  Utf8.encode (identifierFrom (Utf8.text name))

def className (name fallback : String) : String :=
  Utf8.text (classNameBy identifierBytes (Utf8.encode name) (Utf8.encode fallback))

end Netscribe.Naming
