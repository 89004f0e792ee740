import Netscribe.Text.Quoted
import Netscribe.Value

/-!
# Computation graphs

A graph lists its nodes in emission order and the tensors it returns. Nodes refer to tensors by
name; the graph keeps a register of every tensor it has seen, with the node that produces it. A node
is added with a unique index, and each tensor has at most one producer. A rejected node leaves the
tensors it registered, and its hold on the outputs before the one in conflict, in the register.
-/

namespace Netscribe

structure Attribute where
  name : String
  value : Value
deriving Inhabited, Repr

/-- An operator: a type tag and its configuration in declared order. -/
structure Operator where
  type : String
  attributes : List Attribute
deriving Inhabited, Repr

namespace Operator

def attribute? (op : Operator) (name : String) : Option Value :=
  (op.attributes.find? fun a => a.name == name).map (·.value)

def attributeNames (op : Operator) : List String := op.attributes.map (·.name)

end Operator

structure Node where
  /-- The stable number that generated names are made from. -/
  index : Int
  name : String
  op : Operator
  inputs : List String
  outputs : List String
deriving Inhabited, Repr

/-- A computation graph. -/
structure Graph where
  name : String
  nodes : List Node
  outputs : List String
  /-- Every tensor seen so far, with its producer. -/
  tensors : List (String × Option Node)
deriving Inhabited, Repr

namespace Graph

inductive Rejection where
  | missingOperator (node : String)
  | indexUsed (node : String) (index : Int) (other : String)
  | alreadyProduced (node tensor other : String)
deriving Repr

def Rejection.message : Rejection → String
  | missingOperator node => s!"node {quoted node}: missing operator"
  | indexUsed node index other =>
    s!"node {quoted node}: index {decimalText index} already used by node {quoted other}"
  | alreadyProduced node tensor other =>
    s!"node {quoted node}: tensor {quoted tensor} already produced by node {quoted other}"

def empty (name : String) : Graph := ⟨name, [], [], []⟩

/-! ### The register of tensors -/

/-- The entry of a tensor: nothing if it was never seen, else its producer if it has one. -/
def lookup? (g : Graph) (tensor : String) : Option (Option Node) := g.tensors.lookup tensor

def producer? (g : Graph) (tensor : String) : Option Node := (g.lookup? tensor).join

def register (g : Graph) (tensor : String) : Graph :=
  if (g.lookup? tensor).isSome then g
  else { g with tensors := g.tensors ++ [(tensor, none)] }

def registerAll (g : Graph) (tensors : List String) : Graph := tensors.foldl register g

def assign (g : Graph) (tensor : String) (n : Node) : Graph :=
  { g with tensors := g.tensors.map fun e => if e.1 == tensor then (e.1, some n) else e }

/-- Takes the outputs of `n` one by one, up to the first one that has a producer. -/
def takeOutputs (n : Node) (g : Graph) : List String → Graph × Option Rejection
  | [] => (g, none)
  | t :: rest =>
    let g := g.register t
    match g.producer? t with
    | some other => (g, some (.alreadyProduced n.name t other.name))
    | none => takeOutputs n (g.assign t n) rest

/-! ### Nodes -/

/-- Appends a node with an explicit index. The graph is given back in either case. -/
def addAt (g : Graph) (index : Int) (name : String) (op : Option Operator)
    (inputs outputs : List String) : Graph × Except Rejection Node :=
  match op with
  | none => (g, .error (.missingOperator name))
  | some op =>
    match g.nodes.find? (·.index == index) with
    | some other => (g, .error (.indexUsed name index other.name))
    | none =>
      let n : Node := ⟨index, name, op, inputs, outputs⟩
      match takeOutputs n (g.registerAll inputs) outputs with
      | (g, some r) => (g, .error r)
      | (g, none) => ({ g with nodes := g.nodes ++ [n] }, .ok n)

def add (g : Graph) (name : String) (op : Option Operator) (inputs outputs : List String) :
    Graph × Except Rejection Node :=
  g.addAt g.nodes.length name op inputs outputs

/-- Appends a node as it is, with no check and no hold on its outputs. -/
def push (g : Graph) (n : Node) : Graph :=
  let g := (g.registerAll n.inputs).registerAll n.outputs
  { g with nodes := g.nodes ++ [n] }

def setOutputs (g : Graph) (outputs : List String) : Graph :=
  { g.registerAll outputs with outputs := outputs }

end Graph

end Netscribe
