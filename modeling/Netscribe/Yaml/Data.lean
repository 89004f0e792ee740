import Netscribe.Yaml.Mapping

/-!
# Data

The value of a document without a type: scalars, lists, objects whose keys are texts, and tables with
other keys.
-/

namespace Netscribe.Yaml

/-- The value of a node. -/
inductive Data where
  | scalar (v : Scalar)
  | list (items : List Data)
  | object (entries : List (String × Data))
  | table (entries : List (Scalar × Data))
deriving Inhabited, Repr

namespace Data

def put (entries : List (Scalar × Data)) (k : Scalar) (v : Data) : List (Scalar × Data) :=
  if entries.any (fun e => Taken.sameKey k e.1) then
    entries.map fun e => if Taken.sameKey k e.1 then (e.1, v) else e
  else entries ++ [(k, v)]

def keyText : Scalar → String
  | .text s => s
  | _ => ""

/-- The mapping of some entries; `texts` says that all keys are texts. -/
def ofEntries (texts : Bool) (entries : List (Scalar × Data)) : Data :=
  if texts then .object (entries.map fun (k, v) => (keyText k, v)) else .table entries

end Data

open Decoding (visit)
open Yaml.Node (hasMergeKey takenBy reportDuplicates)

namespace Node

def isTextKey (n : Node) : Bool := n.tag == Tag.str || n.tag == Tag.merge

def dataKey (texts : Bool) (behind : Bool) (k : Node) : Decoding (Option Scalar) := do
  if texts then return (← k.asText behind).map .text else k.keyValue behind

mutual

def data (behind : Bool) : Node → Decoding (Option Data)
  | scalar _ tag text => do
    visit behind
    return some (.scalar (← Scalar.resolve tag text))
  | sequence _ _ items => do
    visit behind
    return some (.list (← dataItems behind items))
  | mapping _ _ entries => do
    visit behind
    if ← reportDuplicates entries then return none
    let texts := entries.all fun e => e.1.isTextKey
    let (taken, es) ← dataOwn texts behind none [] entries
    let (_, es) ← dataMerge texts behind entries taken es entries
    return some (.ofEntries texts es)
  | aliasOf _ _ target => do
    visit behind
    data true target
  | cycle _ name _ _ => do
    visit behind
    throw (.cyclicAnchor name)

def dataItems (behind : Bool) : List Node → Decoding (List Data)
  | [] => return []
  | n :: rest => do
    let v ← data behind n
    return v.toList ++ (← dataItems behind rest)

def dataOwn (texts behind : Bool) (taken : Taken) (es : List (Scalar × Data)) :
    List (Node × Node) → Decoding (Taken × List (Scalar × Data))
  | [] => return (taken, es)
  | (k, v) :: rest =>
    if k.isMergeKey then dataOwn texts behind taken es rest
    else do
      match ← dataKey texts behind k with
      | none => dataOwn texts behind taken es rest
      | some key =>
        match taken.take key with
        | none => dataOwn texts behind taken es rest
        | some taken =>
          match ← data behind v with
          | some d => dataOwn texts behind taken (Data.put es key d) rest
          | none => dataOwn texts behind taken es rest

/-- Adds the values of what the last merge key among the entries refers to; `all` are the entries of
its mapping. -/
def dataMerge (texts behind : Bool) (all : List (Node × Node)) (taken : Taken)
    (es : List (Scalar × Data)) : List (Node × Node) → Decoding (Taken × List (Scalar × Data))
  | [] => return (taken, es)
  | (k, v) :: rest =>
    if hasMergeKey rest then dataMerge texts behind all taken es rest
    else if k.isMergeKey then do
      let keys ← takenBy behind all taken
      let (keys, es) ← match v with
        | .sequence _ _ items => dataSources texts behind keys es items
        | v => dataSource texts behind keys es v
      return (taken.map fun _ => keys, es)
    else return (taken, es)

def dataSource (texts behind : Bool) (keys : List Scalar) (es : List (Scalar × Data)) :
    Node → Decoding (List Scalar × List (Scalar × Data))
  | .mapping _ _ entries => do
    visit behind
    if ← reportDuplicates entries then return (keys, es)
    let (taken, es) ← dataOwn texts behind (some keys) es entries
    let (taken, es) ← dataMerge texts behind entries taken es entries
    return (taken.getD keys, es)
  | .aliasOf _ _ (.mapping _ _ entries) => do
    visit behind
    visit true
    if ← reportDuplicates entries then return (keys, es)
    let (taken, es) ← dataOwn texts true (some keys) es entries
    let (taken, es) ← dataMerge texts true entries taken es entries
    return (taken.getD keys, es)
  | _ => throw .mergeSource

def dataSources (texts behind : Bool) (keys : List Scalar) (es : List (Scalar × Data)) :
    List Node → Decoding (List Scalar × List (Scalar × Data))
  | [] => return (keys, es)
  | n :: rest => do
    let (keys, es) ← dataSource texts behind keys es n
    dataSources texts behind keys es rest

end

end Node

/-- The value of a document; no document has the value null. The document itself counts as a visit. -/
def Data.ofDocument (n : Option Node) : Except Error Data :=
  match n with
  | none => .ok (.scalar .null)
  | some n => Decoding.run do
    visit false
    return (← n.data false).getD (.scalar .null)

end Netscribe.Yaml
