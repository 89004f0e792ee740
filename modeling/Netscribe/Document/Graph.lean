import Netscribe.Document.Attribute
import Netscribe.Document.Layout
import Netscribe.Document.Schema

/-!
# Graphs from documents

A graph document is checked against the schema, then decoded, and its nodes are added one by one.
Every tensor that a node consumes, and every terminal tensor, has to be produced by a node.
-/

namespace Netscribe.Document

inductive DocumentError where
  | unreadable (e : Yaml.Error)
  | notJson
  | invalid (vs : List Violation)
  | inAttributes (node : String) (e : AttributesError)
  | rejected (r : Graph.Rejection)
  | unproducedInput (node tensor : String)
  | unproducedOutput (tensor : String)
deriving Repr

def DocumentError.message : DocumentError → String
  | unreadable e => s!"decode graph: {e.message}"
  | notJson => "graph document is not JSON compatible"
  | invalid vs => "invalid graph document: " ++ join "; " (Violation.messages vs)
  | inAttributes node e => s!"node {quoted node}: {e.message}"
  | rejected r => r.message
  | unproducedInput node tensor =>
    s!"node {quoted node}: input tensor {quoted tensor} is not produced by any node"
  | unproducedOutput tensor => s!"graph output {quoted tensor} is not produced by any node"

def check (d : Yaml.Data) : Except DocumentError Unit :=
  let d := jsonCompatible d
  if isJson d && fitsDepth maxDepth d then
    match graphSchema.violations d with
    | [] => .ok ()
    | vs => .error (.invalid vs)
  else .error .notJson

def validateNode (n : Option Yaml.Node) : Except DocumentError Unit := do
  let d ← (Yaml.Data.ofDocument n).mapError .unreadable
  check d

/-- Adds the nodes of a document to a graph; `i` nodes came before. -/
def addEntries (g : Graph) (i : Nat) : List NodeEntry → Except DocumentError Graph
  | [] => .ok g
  | e :: rest => do
    let attributes ← (attributesOf e.attrs).mapError (.inAttributes e.name)
    match g.addAt (e.index.getD i) e.name (some ⟨e.op, attributes⟩) e.inputs e.outputs with
    | (g, .ok _) => addEntries g (i + 1) rest
    | (_, .error r) => .error (.rejected r)

/-- The first consumed tensor without a producer, with its node. -/
def unproduced? (g : Graph) : Option (String × String) :=
  g.nodes.findSome? fun n =>
    (n.inputs.find? fun t => (g.producer? t).isNone).map fun t => (n.name, t)

def graphOf (e : GraphEntry) : Except DocumentError Graph := do
  let g ← addEntries (.empty e.name) 0 e.nodes
  match unproduced? g with
  | some (node, tensor) => .error (.unproducedInput node tensor)
  | none =>
    match e.outputs.find? fun t => (g.producer? t).isNone with
    | some tensor => .error (.unproducedOutput tensor)
    | none => return g.setOutputs e.outputs

def decodeNode (n : Option Yaml.Node) : Except DocumentError Graph := do
  validateNode n
  let e ← match n with
    | some n => (entryOf n).mapError .unreadable
    | none => pure {}
  graphOf e

/-- The document of a byte string. A cycle is followed once: what it stands for may merge it. -/
def parse (bytes : List UInt8) : Except DocumentError (Option Yaml.Node) := do
  let t ← (Yaml.parse bytes).mapError fun f => .unreadable (.failure f)
  return t.map (·.unfolded 1)

def validate (bytes : List UInt8) : Except DocumentError Unit := do validateNode (← parse bytes)

/-- The graph that the document of a byte string describes. -/
def decode (bytes : List UInt8) : Except DocumentError Graph := do decodeNode (← parse bytes)

end Netscribe.Document
