import Netscribe.Text.Join
import Netscribe.Text.Quoted
import Netscribe.Text.Utf8
import Netscribe.Number.Decimal

/-!
# YAML errors

A document that cannot be read fails as a whole, with one `Failure`. A document that can be read but
does not fit the type it is decoded as has `Problem`s, which are collected and reported together, each
with the line of the node it is about.
-/

namespace Netscribe.Yaml

inductive Failure where
  | unreadable
  | malformed (line : Nat) (rule : String)
  | unknownAnchor (name : String)
  | cyclicAnchor (name : String)
  | excessiveAliasing
  | tagMismatch (tag : String) (text : String)
  | invalidBase64
  | compositeKey
  | mergeSource
deriving DecidableEq, Repr

def Failure.message : Failure → String
  | unreadable => "yaml: control characters are not allowed"
  | malformed line rule => s!"yaml: line {decimalText line}: {rule}"
  | unknownAnchor name => s!"yaml: unknown anchor '{name}' referenced"
  | cyclicAnchor name => s!"yaml: anchor '{name}' value contains itself"
  | excessiveAliasing => "yaml: document contains excessive aliasing"
  | tagMismatch tag text => s!"yaml: cannot decode `{text}` as a {tag}"
  | invalidBase64 => "yaml: !!binary value contains invalid base64 data"
  | compositeKey => "yaml: invalid map key"
  | mergeSource => "yaml: map merge requires map or sequence of maps as the value"

/-- Why a node does not fit the type it is decoded as. -/
inductive Problem where
  | mismatch (line : Nat) (tag text target : String)
  | duplicateKey (line : Nat) (key : String) (first : Nat)
  | unknownField (line : Nat) (field target : String)
  | repeatedField (line : Nat) (field target : String)
deriving DecidableEq, Repr

namespace Problem

/-- The text of a scalar in a problem: at most ten bytes are shown in full. -/
def excerpt (text : String) : String :=
  if 10 < text.utf8ByteSize then s!" `{Utf8.take 7 text}...`" else s!" `{text}`"

def message : Problem → String
  | mismatch line tag text target =>
    let shown := if tag = "!!seq" ∨ tag = "!!map" then "" else excerpt text
    s!"line {decimalText line}: cannot unmarshal {tag}{shown} into {target}"
  | duplicateKey line key first =>
    s!"line {decimalText line}: mapping key {quoted key} already defined at line {decimalText first}"
  | unknownField line field target =>
    s!"line {decimalText line}: field {field} not found in type {target}"
  | repeatedField line field target =>
    s!"line {decimalText line}: field {field} already set in type {target}"

end Problem

inductive Error where
  | failure (f : Failure)
  | problems (ps : List Problem)
deriving DecidableEq, Repr

def Error.message : Error → String
  | failure f => f.message
  | problems ps => "yaml: unmarshal errors:\n  " ++ join "\n  " (ps.map Problem.message)

end Netscribe.Yaml
