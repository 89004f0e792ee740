import Netscribe.Telemetry.Field
import Netscribe.Text.Join
import Netscribe.Text.Utf8

/-!
# Log entries

An entry has a level and fields in order. It is written in one of three formats: as a JSON object, as
`key=value` text, or coloured for a terminal. Long texts are cut.
-/

namespace Netscribe

inductive Level where
  | debug
  | info
  | warn
  | error
deriving DecidableEq, Inhabited, Repr

namespace Level

def name : Level → String
  | debug => "debug"
  | info => "info"
  | warn => "warn"
  | error => "error"

def short : Level → String
  | debug => "DEBG"
  | info => "INFO"
  | warn => "WARN"
  | error => "ERRO"

def colour : Level → String
  | debug => "\x1b[37m"
  | info => "\x1b[34m"
  | warn => "\x1b[33m"
  | error => "\x1b[1;31m"

end Level

structure Entry where
  level : Level
  fields : List (String × Field)
deriving DecidableEq, Inhabited, Repr

namespace Entry

inductive Format where
  | json
  | text
  | terminal
deriving DecidableEq, Inhabited, Repr

def maxBytes : Nat := 1024

/-- A longer text is cut after `maxBytes` bytes, and says so. -/
def clip (s : String) : String :=
  if maxBytes < s.utf8ByteSize then Utf8.take maxBytes s ++ " ... <clue/log.truncated>" else s

def clipField : Field → Field
  | .text s => .text (clip s)
  | f => f

/-! ### JSON -/

def jsonChar (c : Char) : List Char :=
  match c.toNat with
  | 8 => ['\\', 'b']
  | 9 => ['\\', 't']
  | 10 => ['\\', 'n']
  | 12 => ['\\', 'f']
  | 13 => ['\\', 'r']
  | _ => if c = '"' ∨ c = '\\' then ['\\', c] else [c]

def jsonString (s : String) : String :=
  "\"" ++ String.ofList (s.toList.flatMap jsonChar) ++ "\""

/-- A value in JSON; an error has no public part. -/
def jsonField : Field → String
  | .absent => "null"
  | .text s => jsonString s
  | .error _ => "\x7b\x7d"
  | f => f.display

def json (e : Entry) : String :=
  "\x7b\"level\":\"" ++ e.level.name ++ "\""
    ++ String.join (e.fields.map fun (k, v) => ",\"" ++ k ++ "\":" ++ jsonField v)
    ++ "\x7d"

/-! ### Text -/

/-- A text that is written between quotes: it is empty, or has a blank, a control character, an
equals sign, a quote or a backslash. -/
def needsQuotes (s : String) : Bool :=
  s.isEmpty || s.toList.any fun c =>
    decide (c.toNat ≤ 32) || c == '=' || c == '"' || c == '\\'

def textField : Field → String
  | .text s =>
    if needsQuotes s then
      let cs := s.toList.flatMap fun c => if c = '"' ∨ c = '\\' then ['\\', c] else [c]
      "\"" ++ String.ofList cs ++ "\""
    else s
  | f => f.display

def text (e : Entry) : String :=
  join " " (("level=" ++ e.level.name) :: e.fields.map fun (k, v) => k ++ "=" ++ textField v)

/-! ### Terminal -/

def resetColour : String := "\x1b[0m"

/-- An entry for a terminal, `seconds` after the start; the seconds have four digits at least. -/
def terminal (seconds : Nat) (e : Entry) : String :=
  let digits := decimalDigits seconds
  let padded := String.ofList (List.replicate (4 - digits.length) '0' ++ digits)
  e.level.colour ++ e.level.short ++ resetColour ++ "[" ++ padded ++ "] "
    ++ join " " (e.fields.map fun (k, v) =>
        e.level.colour ++ k ++ resetColour ++ "=" ++ v.display)

/-! ### All formats -/

def render (format : Format) (seconds : Nat) (e : Entry) : String :=
  match format with
  | .json => e.json
  | .text => e.text
  | .terminal => e.terminal seconds

end Entry

end Netscribe
