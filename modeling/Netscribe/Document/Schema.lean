import Netscribe.Document.Json

/-!
# The schema of graph documents

A schema says which values a document may have. `Schema.violations` lists everywhere a value breaks
it, each with the path to the place; a value of the wrong type is not looked into.
-/

namespace Netscribe.Document

open Yaml (Data Scalar)

/-- What a value has to be. -/
inductive Schema where
  | typed (types : List JsonType)
  | text (least : Nat)
  | integer (least : Int)
  | array (items : Schema)
  /-- An object that has the required properties, and no others than those listed. -/
  | object (required : List String) (properties : List (String × Schema))
deriving Inhabited, Repr

inductive Breach where
  | required (property : String)
  | additional (property : String)
  | wrongType (got : JsonType)
  | tooShort
  | tooSmall
deriving DecidableEq, Repr

def Breach.message : Breach → String
  | required property => s!"required {property}"
  | additional property => s!"additionalProperties {property}"
  | wrongType got => s!"type {got.name}"
  | tooShort => "minLength"
  | tooSmall => "minimum"

/-- A breach and the path to its place. -/
structure Violation where
  path : List String
  breach : Breach
deriving DecidableEq, Repr

namespace Violation

def message (v : Violation) : String :=
  String.join (v.path.map ("/" ++ ·)) ++ " " ++ v.breach.message

def within (part : String) (v : Violation) : Violation := { v with path := part :: v.path }

def messages (vs : List Violation) : List String :=
  (vs.map message).mergeSort fun a b => a ≤ b

end Violation

namespace Schema

def here (b : Breach) : List Violation := [⟨[], b⟩]

/-- The number of characters of a text, `none` for other scalars. -/
def textLength? : Scalar → Option Nat
  | .text s => some s.length
  | .time _ => some 1
  | _ => none

/-- An integral number is below `least`, `none` if the scalar is no integral number. -/
def isBelow? (least : Int) : Scalar → Option Bool
  | .int i => some (decide (i < least))
  | .float x => if x.isInteger then some (decide (x.truncate < least)) else none
  | _ => none

/-- The breaches of an object by its keys: missing properties, and properties that are not listed. -/
def keyBreaches (required known keys : List String) : List Breach :=
  (required.filter fun p => !keys.contains p).map .required
    ++ (keys.filter fun k => !known.contains k).map .additional

def scalarViolations (s : Schema) (v : Scalar) : List Violation :=
  match s with
  | .typed types => if types.contains (scalarType v) then [] else here (.wrongType (scalarType v))
  | .text least =>
    match textLength? v with
    | some n => if n < least then here .tooShort else []
    | none => here (.wrongType (scalarType v))
  | .integer least =>
    match isBelow? least v with
    | some true => here .tooSmall
    | some false => []
    | none => here (.wrongType (scalarType v))
  | .array _ => here (.wrongType (scalarType v))
  | .object _ _ => here (.wrongType (scalarType v))

mutual

def violations (s : Schema) : Data → List Violation
  | .scalar v => scalarViolations s v
  | .list ds =>
    match s with
    | .typed types => if types.contains .array then [] else here (.wrongType .array)
    | .array items => itemViolations items 0 ds
    | _ => here (.wrongType .array)
  | .object entries =>
    match s with
    | .typed types => if types.contains .object then [] else here (.wrongType .object)
    | .object required properties =>
      (keyBreaches required (properties.map (·.1)) (entries.map (·.1))).map (⟨[], ·⟩)
        ++ entryViolations properties entries
    | _ => here (.wrongType .object)
  | .table _ => here (.wrongType .object)

/-- Where the items of a list break a schema, from position `i` on. -/
def itemViolations (s : Schema) (i : Nat) : List Data → List Violation
  | [] => []
  | d :: rest =>
    (violations s d).map (·.within (decimalText i)) ++ itemViolations s (i + 1) rest

def entryViolations (properties : List (String × Schema)) :
    List (String × Data) → List Violation
  | [] => []
  | (k, d) :: rest =>
    (match properties.lookup k with
      | some s => (violations s d).map (·.within k)
      | none => [])
      ++ entryViolations properties rest

end

def accepts (s : Schema) (d : Data) : Bool := (s.violations d).isEmpty

end Schema

def nameSchema : Schema := .text 1

def namesSchema : Schema := .array nameSchema

def nodeSchema : Schema :=
  .object ["name", "op"]
    [("index", .integer 0), ("name", nameSchema), ("op", nameSchema), ("inputs", namesSchema),
     ("outputs", namesSchema), ("attrs", .typed [.object, .null])]

def graphSchema : Schema :=
  .object ["name", "nodes"]
    [("name", nameSchema), ("outputs", namesSchema), ("nodes", .array nodeSchema)]

end Netscribe.Document
