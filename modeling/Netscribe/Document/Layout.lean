import Netscribe.Yaml.Mapping

/-!
# The layout of graph documents

The records that a graph document is decoded as. Attributes stay nodes, so that their order is kept.
-/

namespace Netscribe.Document

open Yaml (RecordType Decoding)

structure NodeEntry where
  index : Option Int := none
  name : String := ""
  op : String := ""
  inputs : List String := []
  outputs : List String := []
  attrs : Option Yaml.Node := none
deriving Inhabited, Repr

structure GraphEntry where
  name : String := ""
  outputs : List String := []
  nodes : List NodeEntry := []
deriving Inhabited, Repr

/-- An index, which null takes away. -/
def readIndex (behind : Bool) (n : Yaml.Node) (e : NodeEntry) : Decoding NodeEntry := do
  if n.tag = Yaml.Tag.null then
    let _ ← n.asInt "int" behind
    return { e with index := none }
  else
    match ← n.asInt "int" behind with
    | some i => return { e with index := some i }
    | none => return e

def readAttrs (behind : Bool) (n : Yaml.Node) (e : NodeEntry) : Decoding NodeEntry := do
  Decoding.visit behind
  return { e with attrs := some n }

def nodeRecord : RecordType NodeEntry where
  name := "graph.nodeDocument"
  strict := false
  fields :=
    [("index", readIndex),
     ("name", Yaml.Node.field Yaml.Node.asText fun e s => { e with name := s }),
     ("op", Yaml.Node.field Yaml.Node.asText fun e s => { e with op := s }),
     ("inputs", Yaml.Node.field Yaml.Node.asTexts fun e ts => { e with inputs := ts }),
     ("outputs", Yaml.Node.field Yaml.Node.asTexts fun e ts => { e with outputs := ts }),
     ("attrs", readAttrs)]

def readNodes (behind : Bool) (n : Yaml.Node) : Decoding (Option (List NodeEntry)) :=
  n.asList "[]graph.nodeDocument" (fun behind n => nodeRecord.read? behind n {}) behind

def graphRecord : RecordType GraphEntry where
  name := "graph.document"
  strict := false
  fields :=
    [("name", Yaml.Node.field Yaml.Node.asText fun e s => { e with name := s }),
     ("outputs", Yaml.Node.field Yaml.Node.asTexts fun e ts => { e with outputs := ts }),
     ("nodes", Yaml.Node.field readNodes fun e ns => { e with nodes := ns })]

/-- The record of a document. The document itself counts as a visit. -/
def entryOf (n : Yaml.Node) : Except Yaml.Error GraphEntry :=
  Decoding.run do
    Decoding.visit false
    graphRecord.read false n {}

end Netscribe.Document
