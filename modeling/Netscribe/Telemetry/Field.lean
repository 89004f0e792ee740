import Netscribe.Number.Decimal

/-!
# Fields

What a log entry, a span event or a metric carries: keys with values. Callers hand over a flat list
of keys and values in turn. A log entry skips a pair whose key is no text, and pairs a key at the end
with the absent value. A span attribute has an empty key in place of such a key, and an empty text in
place of a value that is neither text, number nor truth value.
-/

namespace Netscribe

/-- A value that telemetry carries. -/
inductive Field where
  | absent
  | bool (b : Bool)
  | int (i : Int)
  | float (x : Binary64)
  | text (s : String)
  | error (message : String)
deriving DecidableEq, Inhabited, Repr

namespace Field

def display : Field → String
  | absent => "<nil>"
  | bool b => if b then "true" else "false"
  | int i => decimalText i
  | float x => x.render .field
  | text s => s
  | error message => message

/-- A flat list of keys and values as pairs; a key at the end goes with the absent value. -/
def pairs : List Field → List (Field × Field)
  | [] => []
  | [k] => [(k, absent)]
  | k :: v :: rest => (k, v) :: pairs rest

def named (keyvals : List Field) : List (String × Field) :=
  (pairs keyvals).filterMap fun (k, v) =>
    match k with
    | text s => some (s, v)
    | _ => none

/-- The value of a span attribute: errors and absent values become the empty text. -/
def asAttribute : Field → Field
  | absent => text ""
  | error _ => text ""
  | v => v

def attributes (keyvals : List Field) : List (String × Field) :=
  (pairs keyvals).map fun (k, v) =>
    match k with
    | text s => (s, v.asAttribute)
    | _ => ("", v.asAttribute)

end Field

def tagPairs : List String → List (String × String)
  | [] => []
  | [k] => [(k, "")]
  | k :: v :: rest => (k, v) :: tagPairs rest

/-- The pairs whose key does not come again later: of several pairs with one key the last is kept. -/
def lastOfEach {α : Type} : List (String × α) → List (String × α)
  | [] => []
  | e :: rest => if rest.any (·.1 == e.1) then lastOfEach rest else e :: lastOfEach rest

/-- The attributes of a metric: a set of pairs in increasing order of their keys. -/
def metricAttributes (tags : List String) : List (String × String) :=
  (lastOfEach (tagPairs tags)).mergeSort fun a b => a.1 ≤ b.1

end Netscribe
