import Netscribe.Graph
import Netscribe.Naming.Symbol

/-!
# Symbol tables

The symbol table of a generation pass maps each tensor defined so far to its generated name. It only
grows: a tensor is defined once, when its producer is emitted, and keeps its name. The names are found
by tensor, and the tensors are listed apart, in the order in which they were defined.
-/

namespace Netscribe

structure Redefinition where
  tensor : String
  existing : String
deriving Repr

def Redefinition.message (e : Redefinition) : String :=
  s!"tensor {quoted e.tensor} already defined as {e.existing}"

structure MissingProducer where
  tensor : String
  /-- The consuming node, empty if there is none. -/
  node : String
deriving Repr

def MissingProducer.message (e : MissingProducer) : String :=
  let text := s!"tensor {quoted e.tensor} is consumed before it is produced"
  if e.node.isEmpty then text else s!"node {quoted e.node}: {text}"

/-- A tensor together with the symbol that its producer assigned to it. -/
structure Symbol where
  tensor : String
  name : String
deriving DecidableEq, Inhabited, Repr

structure SymbolTable where
  names : String → Option String
  /-- The defined tensors in definition order. -/
  order : List String
deriving Inhabited

namespace SymbolTable

def empty : SymbolTable := ⟨fun _ => none, []⟩

def tensors (t : SymbolTable) : List String := t.order

def size (t : SymbolTable) : Nat := t.order.length

def resolve? (t : SymbolTable) (tensor : String) : Option String := t.names tensor

def define (t : SymbolTable) (tensor name : String) : Except Redefinition SymbolTable :=
  match t.resolve? tensor with
  | some existing => .error ⟨tensor, existing⟩
  | none => .ok ⟨fun x => if x = tensor then some name else t.names x, t.order ++ [tensor]⟩

/-- Records names one by one, up to the first tensor that has one. The table is given back in either
case. -/
def defineAll (t : SymbolTable) : List (String × String) → SymbolTable × Option Redefinition
  | [] => (t, none)
  | (tensor, name) :: rest =>
    match t.define tensor name with
    | .ok t => defineAll t rest
    | .error e => (t, some e)

/-- Names the outputs of the node with that index in output order, as far as they have no name. -/
def defineOutputs (t : SymbolTable) (index : Int) (outputs : List String) :
    SymbolTable × Except Redefinition (List String) :=
  let names := Naming.outputNames index outputs.length
  match t.defineAll (outputs.zip names) with
  | (t, none) => (t, .ok names)
  | (t, some e) => (t, .error e)

def lookup (t : SymbolTable) (tensor : String) : Except MissingProducer String :=
  match t.resolve? tensor with
  | some name => .ok name
  | none => .error ⟨tensor, ""⟩

def lookupInputs (t : SymbolTable) (node : String) : List String → Except MissingProducer (List Symbol)
  | [] => .ok []
  | tensor :: rest =>
    match t.resolve? tensor with
    | none => .error ⟨tensor, node⟩
    | some name =>
      match lookupInputs t node rest with
      | .ok symbols => .ok (⟨tensor, name⟩ :: symbols)
      | .error e => .error e

end SymbolTable

end Netscribe
