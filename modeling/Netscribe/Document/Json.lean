import Netscribe.Yaml.Data

/-!
# JSON data

A document is checked in the form it has as JSON. Tables have no such form, nor have timestamps whose
time zone is a day away or more, nor collections too deep inside each other. Numbers that are not
finite are replaced by texts first.
-/

namespace Netscribe.Document

open Yaml (Data Scalar)

inductive JsonType where
  | null
  | boolean
  | number
  | string
  | array
  | object
deriving DecidableEq, Inhabited, Repr

def JsonType.name : JsonType → String
  | null => "null"
  | boolean => "boolean"
  | number => "number"
  | string => "string"
  | array => "array"
  | object => "object"

def scalarType : Scalar → JsonType
  | .null => .null
  | .bool _ => .boolean
  | .int _ => .number
  | .float _ => .number
  | .text _ => .string
  | .time _ => .string

def jsonType : Data → JsonType
  | .scalar v => scalarType v
  | .list _ => .array
  | .object _ => .object
  | .table _ => .object

def nonFinite? (x : Binary64) : Option String :=
  if x.isNaN then some ".nan"
  else if x.isInfinite then some (if x.negative then "-.inf" else ".inf")
  else none

def compatibleScalar : Scalar → Scalar
  | .float x =>
    match nonFinite? x with
    | some s => .text s
    | none => .float x
  | v => v

mutual

/-- A value, with texts in place of the numbers that are not finite. -/
def jsonCompatible : Data → Data
  | .scalar v => .scalar (compatibleScalar v)
  | .list items => .list (jsonCompatibleItems items)
  | .object entries => .object (jsonCompatibleEntries entries)
  | .table entries => .table entries

def jsonCompatibleItems : List Data → List Data
  | [] => []
  | d :: rest => jsonCompatible d :: jsonCompatibleItems rest

def jsonCompatibleEntries : List (String × Data) → List (String × Data)
  | [] => []
  | (k, d) :: rest => (k, jsonCompatible d) :: jsonCompatibleEntries rest

end

def isJsonScalar : Scalar → Bool
  | .float x => x.isFinite
  | .time t => t.isStandard
  | _ => true

mutual

/-- A value that has a form in JSON. -/
def isJson : Data → Bool
  | .scalar v => isJsonScalar v
  | .list items => areJson items
  | .object entries => haveJson entries
  | .table _ => false

def areJson : List Data → Bool
  | [] => true
  | d :: rest => isJson d && areJson rest

def haveJson : List (String × Data) → Bool
  | [] => true
  | (_, d) :: rest => isJson d && haveJson rest

end

/-- The number of collections that may be inside each other. -/
def maxDepth : Nat := 10000

mutual

/-- A value has at most `n` collections inside each other. -/
def fitsDepth (n : Nat) : Data → Bool
  | .scalar _ => true
  | .list items => decide (0 < n) && itemsFitDepth (n - 1) items
  | .object entries => decide (0 < n) && entriesFitDepth (n - 1) entries
  | .table _ => decide (0 < n)

def itemsFitDepth (n : Nat) : List Data → Bool
  | [] => true
  | d :: rest => fitsDepth n d && itemsFitDepth n rest

def entriesFitDepth (n : Nat) : List (String × Data) → Bool
  | [] => true
  | (_, d) :: rest => fitsDepth n d && entriesFitDepth n rest

end

end Netscribe.Document
