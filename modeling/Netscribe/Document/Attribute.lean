import Netscribe.Graph
import Netscribe.Yaml.Decoding

/-!
# Attributes in documents

The value of an attribute is written as a plain scalar, as a sequence, which is a list, or as a mapping
of one key that tags its value: `tensor`, `expr` and `str` tag a scalar, `tuple` and `list` a sequence.
Aliases stand for what they refer to.
-/

namespace Netscribe.Document

inductive ValueError where
  | notOneKey (line : Nat)
  | nullScalar (line : Nat) (key : String)
  | notSequence (line : Nat) (key : String)
  | unknownKey (line : Nat) (key : String)
  | unfit (e : Yaml.Error)
  | unsupported (line : Nat)
deriving DecidableEq, Repr

def ValueError.message : ValueError → String
  | notOneKey line => s!"line {decimalText line}: tagged value must have exactly one key"
  | nullScalar line key => s!"line {decimalText line}: {key} must be a non-null scalar"
  | notSequence line key => s!"line {decimalText line}: {key} must be a sequence"
  | unknownKey line key => s!"line {decimalText line}: unknown value tag {quoted key}"
  | unfit e => e.message
  | unsupported line => s!"line {decimalText line}: unsupported attribute value"

open Yaml (Scalar)

/-- The value of a scalar by its tag. The tag of null is enough for null, and a scalar of any other
tag is a text. -/
def scalarValue (line : Nat) (tag text : String) : Except ValueError Value :=
  if tag = Yaml.Tag.null then .ok .none
  else if [Yaml.Tag.bool, Yaml.Tag.int, Yaml.Tag.float].contains tag then
    match Scalar.resolve tag text with
    | .ok (.bool b) => .ok (.bool b)
    | .ok (.float x) => .ok (.float x)
    | .ok (.int i) =>
      if i < Scalar.signedEnd then .ok (.int i)
      else .error (.unfit (.problems [(Yaml.Node.scalar line tag text).mismatch "int64"]))
    | .ok _ => .ok (.str text)
    | .error f => .error (.unfit (.failure f))
  else .ok (.str text)

/-- The text of a scalar under a key, which may not be null. -/
def taggedText (key : String) : Yaml.Node → Except ValueError String
  | .scalar line tag text => if tag = Yaml.Tag.null then .error (.nullScalar line key) else .ok text
  | n => .error (.nullScalar n.line key)

mutual

def valueOf : Yaml.Node → Except ValueError Value
  | .scalar line tag text => scalarValue line tag text
  | .sequence _ _ items => (valuesOf items).map .list
  | .mapping line _ [(k, v)] =>
    let key := k.keyText
    if key = "tensor" then (taggedText key v.resolved).map .tensor
    else if key = "expr" then (taggedText key v.resolved).map .expr
    else if key = "str" then (taggedText key v.resolved).map .str
    else if key = "tuple" then (itemsUnder key v).map .tuple
    else if key = "list" then (itemsUnder key v).map .list
    else .error (.unknownKey line key)
  | .mapping line _ _ => .error (.notOneKey line)
  | .aliasOf _ _ target => valueOf target
  | .cycle line _ _ _ => .error (.unsupported line)

def valuesOf : List Yaml.Node → Except ValueError (List Value)
  | [] => .ok []
  | n :: rest => do
    let v ← valueOf n
    return v :: (← valuesOf rest)

def itemsUnder (key : String) : Yaml.Node → Except ValueError (List Value)
  | .sequence _ _ items => valuesOf items
  | .aliasOf _ _ (.sequence _ _ items) => valuesOf items
  | n => .error (.notSequence n.resolved.line key)

end

inductive AttributesError where
  | notMapping
  | inAttribute (name : String) (e : ValueError)
deriving DecidableEq, Repr

def AttributesError.message : AttributesError → String
  | notMapping => "attrs must be a mapping"
  | inAttribute name e => s!"attribute {quoted name}: {e.message}"

def attributesOfEntries : List (Yaml.Node × Yaml.Node) → Except AttributesError (List Attribute)
  | [] => .ok []
  | (k, v) :: rest => do
    let value ← (valueOf v).mapError (.inAttribute k.keyText)
    return ⟨k.keyText, value⟩ :: (← attributesOfEntries rest)

/-- The attributes that a mapping lists. Null, and no node at all, list none; an alias is no mapping. -/
def attributesOf : Option Yaml.Node → Except AttributesError (List Attribute)
  | none => .ok []
  | some (.scalar _ tag _) => if tag = Yaml.Tag.null then .ok [] else .error .notMapping
  | some (.sequence _ tag _) => if tag = Yaml.Tag.null then .ok [] else .error .notMapping
  | some (.mapping _ tag entries) => if tag = Yaml.Tag.null then .ok [] else attributesOfEntries entries
  | some _ => .error .notMapping

end Netscribe.Document
