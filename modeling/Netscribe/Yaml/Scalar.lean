import Netscribe.Yaml.Base64
import Netscribe.Yaml.Error
import Netscribe.Yaml.Timestamp

/-!
# Scalar values

A plain scalar is a null, a truth value, a number, a timestamp or a text, by its spelling. A tag can
ask for one of these types; a scalar with a tag of its own, or tagged as text, is a text.
-/

namespace Netscribe.Yaml

/-! ### Tags -/

namespace Tag

def null : String := "!!null"
def bool : String := "!!bool"
def int : String := "!!int"
def float : String := "!!float"
def str : String := "!!str"
def timestamp : String := "!!timestamp"
def binary : String := "!!binary"
def merge : String := "!!merge"
def seq : String := "!!seq"
def map : String := "!!map"

/-- What the standard tags start with in full. -/
def standardLead : String := "tag:yaml.org,2002:"

/-- The short form of a tag: standard tags start with two exclamation marks. -/
def short (tag : String) : String :=
  if tag.startsWith standardLead then "!!" ++ String.ofList (tag.toList.drop standardLead.length)
  else tag

end Tag

inductive Scalar where
  | null
  | bool (b : Bool)
  | int (i : Int)
  | float (x : Binary64)
  | text (s : String)
  | time (t : Timestamp)
deriving DecidableEq, Inhabited, Repr

namespace Scalar

def tag : Scalar → String
  | null => Tag.null
  | bool _ => Tag.bool
  | int _ => Tag.int
  | float _ => Tag.float
  | text _ => Tag.str
  | time _ => Tag.timestamp

/-! ### Integers -/

def digit? (base : Nat) (c : Char) : Option Nat :=
  let d := if c.isDigit then c.toNat - 48
    else if c.isLower then c.toNat - 87
    else if c.isUpper then c.toNat - 55
    else base
  if d < base then some d else none

def natFrom? (base : Nat) (n : Nat) : List Char → Option Nat
  | [] => some n
  | c :: rest =>
    match digit? base c with
    | some d => natFrom? base (n * base + d) rest
    | none => none

def nat? (base : Nat) (cs : List Char) : Option Nat :=
  if cs.isEmpty then none else natFrom? base 0 cs

/-- The number of digits whose base is told by how they start: `0b`, `0o` and `0x`, or `0` for octal
digits. -/
def literal? (cs : List Char) : Option Nat :=
  match cs with
  | '0' :: x :: y :: rest =>
    if x = 'b' ∨ x = 'B' then nat? 2 (y :: rest)
    else if x = 'o' ∨ x = 'O' then nat? 8 (y :: rest)
    else if x = 'x' ∨ x = 'X' then nat? 16 (y :: rest)
    else nat? 8 (x :: y :: rest)
  | '0' :: rest => natFrom? 8 0 rest
  | _ => nat? 10 cs

/-- Two to the power of 63: the first number beyond the signed ones of 64 bits. -/
def signedEnd : Nat := 9223372036854775808

/-- A number with an optional sign, of 64 bits: signed, or unsigned where no sign is written. -/
def signed? (read : List Char → Option Nat) (cs : List Char) : Option Int :=
  match cs with
  | '-' :: rest => do
    let n ← read rest
    if n ≤ signedEnd then some (-(n : Int)) else none
  | '+' :: rest => do
    let n ← read rest
    if n < signedEnd then some n else none
  | _ => do
    let n ← read cs
    if n < 2 * signedEnd then some n else none

/-- An integer. A sign may also follow `0b` and `0o`. -/
def integer? (cs : List Char) : Option Int :=
  match signed? literal? cs with
  | some i => some i
  | none =>
    match cs with
    | '0' :: 'b' :: rest => signed? (nat? 2) rest
    | '0' :: 'o' :: rest => signed? (nat? 8) rest
    | _ => none

/-! ### Floating point numbers -/

def decimal? (cs : List Char) : Option Binary64 := do
  let (negative, d) ← Decimal.read? cs
  Decimal.toBinary64? negative d

/-- Underscores stand between digits only; `digit` tells whether a digit was just read. -/
def underscoresFit (digit : Bool) : List Char → Bool
  | [] => true
  | '_' :: rest => digit && (match rest with | c :: _ => c.isDigit | [] => false)
      && underscoresFit false rest
  | c :: rest => underscoresFit c.isDigit rest

/-- A number that starts with a point, with underscores between digits. -/
def pointed? (cs : List Char) : Option Binary64 :=
  if underscoresFit false cs then decimal? (cs.filter (· != '_')) else none

/-! ### Spellings -/

def words : List (String × Scalar) :=
  [("", .null), ("~", .null), ("null", .null), ("Null", .null), ("NULL", .null),
   ("true", .bool true), ("True", .bool true), ("TRUE", .bool true),
   ("false", .bool false), ("False", .bool false), ("FALSE", .bool false),
   (".nan", .float .nan), (".NaN", .float .nan), (".NAN", .float .nan),
   (".inf", .float (.infinity false)), (".Inf", .float (.infinity false)),
   (".INF", .float (.infinity false)), ("+.inf", .float (.infinity false)),
   ("+.Inf", .float (.infinity false)), ("+.INF", .float (.infinity false)),
   ("-.inf", .float (.infinity true)), ("-.Inf", .float (.infinity true)),
   ("-.INF", .float (.infinity true))]

/-- The value of a number's spelling: an integer, else a decimal. Underscores are ignored. -/
def number? (cs : List Char) : Option Scalar :=
  let plain := cs.filter (· != '_')
  match signed? literal? plain with
  | some i => some (.int i)
  | none =>
    match decimal? plain with
    | some x => some (.float x)
    | none => (integer? plain).map .int

/-- The value of a plain scalar by its spelling; `times` says whether timestamps count. -/
def ofSpelling (times : Bool) (s : String) : Scalar :=
  match words.lookup s with
  | some v => v
  | none =>
    match s.toList with
    | [] => .null
    | c :: rest =>
      if c = '.' then
        match pointed? (c :: rest) with
        | some x => .float x
        | none => .text s
      else if c.isDigit ∨ c = '+' ∨ c = '-' then
        match (if times then Timestamp.read? (c :: rest) else none), number? (c :: rest) with
        | some t, _ => .time t
        | none, some v => v
        | none, none => .text s
      else .text s

/-- The value of a scalar with a tag. Only texts with a tag of their own, and texts, may be anything;
an integer of 63 bits may be tagged as a floating point number. -/
def resolve (tag : String) (s : String) : Except Failure Scalar :=
  if tag = Tag.str then .ok (.text s)
  else if [Tag.null, Tag.bool, Tag.int, Tag.float, Tag.timestamp].contains tag then
    let v := ofSpelling (tag = Tag.timestamp) s
    if v.tag = tag then .ok v
    else
      match v with
      | .int i =>
        if tag = Tag.float ∧ i < signedEnd then .ok (.float (.ofInt i))
        else .error (.tagMismatch tag s)
      | _ => .error (.tagMismatch tag s)
  else if tag = Tag.binary then
    match Base64.decode? s.toList with
    | some bytes => .ok (.text (Utf8.text bytes))
    | none => .error .invalidBase64
  else .ok (.text s)

end Scalar

end Netscribe.Yaml
