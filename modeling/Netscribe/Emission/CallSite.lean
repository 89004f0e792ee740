import Netscribe.Assignment
import Netscribe.Emission.Error
import Netscribe.Operator.Table
import Netscribe.Policy

/-!
# Call sites

The arguments of an operator without state. The attributes that its entry asks for are passed by
keyword. The inputs are passed by position, in declared order, except the receiver of a method and
the inputs that an attribute already refers to. No parameter may be passed twice.
-/

namespace Netscribe

/-- The arguments of a call, with the receiver of a method. -/
structure CallSite where
  receiver : Option Symbol
  /-- The inputs that no rendered attribute refers to. -/
  positional : List Symbol
  keywords : List Keyword
deriving Inhabited, Repr

namespace CallSite

/-- The keyword under which the submodule of a method takes the receiver. -/
def receiverKeyword : String := "input"

def referenced (op : Operator) (names : List String) : List String :=
  names.flatMap fun name =>
    match op.attribute? name with
    | some v => v.tensors
    | none => []

/-- The first keyword that is among the parameters filled by position or among the keywords before
it. -/
def conflict? (filled before : List String) : List String → Option String
  | [] => none
  | k :: rest =>
    if filled.contains k || before.contains k then some k
    else conflict? filled (before ++ [k]) rest

/-- A method bound to a submodule, which takes its receiver by keyword. -/
def takesReceiver (e : OperatorEntry) (d : Dispatch) : Bool :=
  e.kind == .methodCall && d == .submodule

def parameters (e : OperatorEntry) (d : Dispatch) : List String :=
  (if takesReceiver e d then [receiverKeyword] else []) ++ e.parameters

def keywordNames (e : OperatorEntry) (d : Dispatch) (keywords : List Keyword) : List String :=
  (if takesReceiver e d then [receiverKeyword] else []) ++ keywords.map (·.name)

/-- The inputs of a call, split into the receiver of a method and the others. -/
def splitReceiver (e : OperatorEntry) (n : Node) (inputs : List Symbol) :
    Except EmptySequence (Option Symbol × List Symbol) :=
  if e.kind == .methodCall then
    match inputs with
    | [] => .error ⟨"inputs", n.name⟩
    | r :: rest => .ok (some r, rest)
  else .ok (none, inputs)

def ofNode (t : SymbolTable) (d : Dispatch) (e : OperatorEntry) (n : Node) :
    Except EmissionError CallSite := do
  let names := e.attributeNames n.op
  let keywords ← (t.collect n.op names).mapError fun x => .inNode n.name (.ofAttribute x)
  let inputs ← (t.lookupInputs n.name n.inputs).mapError .missingProducer
  let (receiver, others) ← (splitReceiver e n inputs).mapError .emptySequence
  let used := referenced n.op names
  let positional := others.filter fun s => !used.contains s.tensor
  let filled := (parameters e d).take positional.length
  match conflict? filled [] (keywordNames e d keywords) with
  | some k => .error (.argumentConflict n.name k)
  | none => .ok ⟨receiver, positional, keywords⟩

end CallSite

end Netscribe
