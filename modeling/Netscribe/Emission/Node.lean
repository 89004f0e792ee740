import Netscribe.Emission.CallSite
import Netscribe.Emission.Override

/-!
# Emission of a node

A node becomes an assignment of its outputs in the forward method and, if it has a submodule, the
assignment of that submodule in the constructor. Its outputs are named before anything is rendered.
Overridden operators come first, the others go by the class that the table gives them.
-/

namespace Netscribe

/-- How a node was emitted. -/
inductive Route where
  | override
  | classified (kind : OperatorClass)
deriving DecidableEq, Repr

def Route.name : Route → String
  | override => "override"
  | classified kind => kind.name

/-- The statements of a node. -/
structure Emission where
  init : Option (Statement Assignment)
  use : Statement Assignment
  route : Route
deriving Repr

/-- What emission keeps from node to node. -/
structure EmissionState where
  symbols : SymbolTable
  /-- The number of graph inputs emitted so far. -/
  inputs : Nat
deriving Inhabited

def EmissionState.initial : EmissionState := ⟨.empty, 0⟩

namespace Emission

def statement (n : Node) (targets : List String) (rhs : Rhs) (comment : String) :
    Statement Assignment :=
  ⟨n.name, n.index, ⟨targets, rhs⟩, comment⟩

/-- The assignment of the submodule of a node: the constructor call, with the operator type first if
the constructor is a wrapper. -/
def construction (p : Policy) (e : OperatorEntry) (n : Node) (keywords : List Keyword) :
    Statement Assignment :=
  let c := p.constructor n.op.type e
  let positional := if c.wrapper then [Atom.text (Literal.string n.op.type)] else []
  statement n [Naming.submodule n.index] (.call ⟨.named c.callee, positional, keywords⟩) n.name

/-- A module with state: constructed with its attributes, called on its inputs. -/
def stateful (p : Policy) (t : SymbolTable) (e : OperatorEntry) (n : Node) (targets : List String) :
    Except EmissionError Emission := do
  let keywords ← (t.collect n.op (e.attributeNames n.op)).mapError fun x =>
    .inNode n.name (.ofAttribute x)
  let inputs ← (t.lookupInputs n.name n.inputs).mapError .missingProducer
  let inputs ← (nonEmpty inputs "inputs" n.name).mapError .emptySequence
  let use : Rhs := .call ⟨.submodule n.index, inputs.map .symbol, []⟩
  return ⟨some (construction p e n keywords), statement n targets use "", .classified e.kind⟩

def directCallee (e : OperatorEntry) (c : CallSite) : Callee :=
  match c.receiver with
  | some r => .method r e.callee
  | none => .named e.callee

def direct (t : SymbolTable) (e : OperatorEntry) (n : Node) (targets : List String) :
    Except EmissionError Emission := do
  let c ← CallSite.ofNode t .direct e n
  let use : Rhs := .call ⟨directCallee e c, c.positional.map .symbol, c.keywords⟩
  return ⟨none, statement n targets use n.name, .classified e.kind⟩

/-- The receiver of a method as the first keyword of its submodule's call. -/
def receiverKeyword (c : CallSite) : List Keyword :=
  match c.receiver with
  | some r => [⟨CallSite.receiverKeyword, .atom (.symbol r)⟩]
  | none => []

def viaSubmodule (p : Policy) (t : SymbolTable) (e : OperatorEntry) (n : Node)
    (targets : List String) : Except EmissionError Emission := do
  let c ← CallSite.ofNode t .submodule e n
  let use : Rhs :=
    .call ⟨.submodule n.index, c.positional.map .symbol, receiverKeyword c ++ c.keywords⟩
  return ⟨some (construction p e n []), statement n targets use "", .classified e.kind⟩

def stateless (p : Policy) (t : SymbolTable) (e : OperatorEntry) (n : Node)
    (targets : List String) : Except EmissionError Emission :=
  match p.dispatch with
  | .submodule => viaSubmodule p t e n targets
  | .direct => direct t e n targets

def classified (table : OperatorTable) (p : Policy) (t : SymbolTable) (n : Node)
    (targets : List String) : Except EmissionError Emission :=
  let e := table.lookup n.op.type
  match e.kind with
  | .statefulModule => stateful p t e n targets
  | .freeFunction | .methodCall | .primitive => stateless p t e n targets
  | .unrecognized => .error (.unsupportedOperator n.op.type n.name)
  | .other name => .error (.unknownClass n.name name)

/-- The statements of a node whose outputs are named, after `count` graph inputs. -/
def ofNode (table : OperatorTable) (p : Policy) (t : SymbolTable) (count : Nat) (n : Node)
    (targets : List String) : Except Halt Emission :=
  match Override.ofType? n.op.type with
  | some o => do
    let rhs ← (o.rhs t count n).mapError (.inNode n.name)
    return ⟨none, statement n targets rhs "", .override⟩
  | none => (classified table p t n targets).mapError .error

end Emission

/-- Emits a node: names its outputs and renders its statements. -/
def EmissionState.emit (st : EmissionState) (table : OperatorTable) (p : Policy) (n : Node) :
    Except Halt (EmissionState × Emission) := do
  let (symbols, named) := st.symbols.defineOutputs n.index n.outputs
  let targets ← named.mapError fun e => .error (.inNode n.name (.redefinition e))
  let targets ← (nonEmpty targets "outputs" n.name).mapError fun e => .error (.emptySequence e)
  let emission ← Emission.ofNode table p symbols st.inputs n targets
  let inputs := if Override.ofType? n.op.type = some .input then st.inputs + 1 else st.inputs
  return (⟨symbols, inputs⟩, emission)

end Netscribe
