import Netscribe.Assignment
import Netscribe.Emission.Error

/-!
# Overridden operators

Some operators are no calls: graph inputs and constants, aliases, tuples and lists, items and slices.
Each has its own right-hand side, and no submodule. All of them refuse a node by an error, but a slice
along too large a dimension makes the program panic.
-/

namespace Netscribe

/-- The operators with a right-hand side of their own. -/
inductive Override where
  | input
  | const
  | identity
  | tupleUnpack
  | tuple
  | list
  | index
  | slice
deriving DecidableEq, Inhabited, Repr

namespace Override

/-- Each overridden operator type, in increasing order. -/
def all : List (String × Override) :=
  [("const", .const), ("identity", .identity), ("index", .index), ("input", .input),
   ("list", .list), ("slice", .slice), ("tuple", .tuple), ("tuple_unpack", .tupleUnpack)]

def types : List String := all.map (·.1)

def ofType? (type : String) : Option Override := all.lookup type

def receiver (t : SymbolTable) (n : Node) : Except EmissionError Symbol :=
  match t.lookupInputs n.name n.inputs with
  | .error e => .error (.missingProducer e)
  | .ok [] => .error (.emptySequence ⟨"inputs", n.name⟩)
  | .ok (s :: _) => .ok s

/-- The position of the argument that a graph input takes: its index attribute, else the number of
graph inputs before it. -/
def inputPosition (count : Nat) (n : Node) : Except EmissionError Int :=
  match n.op.attribute? "index" with
  | none => .ok count
  | some (.int i) => .ok i
  | some v => .error (.inputIndex v)

def sliceDim (n : Node) : Except EmissionError Nat :=
  match n.op.attribute? "dim" with
  | none => .ok 0
  | some (.int i) => if 0 ≤ i then .ok i.toNat else .error (.sliceDim (.int i))
  | some v => .error (.sliceDim v)

/-- A bound of a slice, open if the attribute is missing or none. -/
def sliceBound (t : SymbolTable) (n : Node) (name : String) :
    Except EmissionError (Option Rendered) :=
  match n.op.attribute? name with
  | none => .ok none
  | some .none => .ok none
  | some v =>
    match t.infer v with
    | .ok r => .ok (some r)
    | .error e => .error (.ofAttribute (name, e))

def item (t : SymbolTable) (n : Node) : Except EmissionError Rhs := do
  let s ← receiver t n
  match n.op.attribute? "index" with
  | none => .error .missingIndex
  | some v => return .item s (← (t.infer v).mapError fun e => .ofAttribute ("index", e))

structure SliceParts where
  source : Symbol
  dim : Nat
  start : Option Rendered
  stop : Option Rendered
  step : Option Rendered

def sliceParts (t : SymbolTable) (n : Node) : Except EmissionError SliceParts := do
  let source ← receiver t n
  let dim ← sliceDim n
  let start ← sliceBound t n "start"
  let stop ← sliceBound t n "end"
  let step ← sliceBound t n "step"
  return ⟨source, dim, start, stop, step⟩

/-- What is said of a text that would be too long. -/
def overflow : String := "strings: Repeat output length overflow"

/-- A slice of given parts. What stands for the dimensions before is written last of all, and only here
it shows that there are too many of them for a text. -/
def SliceParts.rhs (p : SliceParts) : Except Halt Rhs :=
  match Copies.ofNat? p.dim with
  | some dim => .ok (.slice p.source dim p.start p.stop p.step)
  | none => .error (.panic overflow)

/-- The right-hand side of an overridden operator; `count` graph inputs came before. -/
def rhs (t : SymbolTable) (count : Nat) (n : Node) : Override → Except Halt Rhs
  | input => (Rhs.argument <$> inputPosition count n).mapError .error
  | const =>
    let keywords := (t.collect n.op ["data", "dtype", "device"]).mapError .ofAttribute
    ((fun ks => Rhs.call ⟨.named "torch.tensor", [], ks⟩) <$> keywords).mapError .error
  | identity => (Rhs.symbol <$> receiver t n).mapError .error
  | tupleUnpack => (Rhs.symbol <$> receiver t n).mapError .error
  | tuple => (Rhs.tuple <$> (t.lookupInputs n.name n.inputs).mapError .missingProducer).mapError .error
  | list => (Rhs.list <$> (t.lookupInputs n.name n.inputs).mapError .missingProducer).mapError .error
  | index => (item t n).mapError .error
  | slice => do
    let parts ← (sliceParts t n).mapError .error
    parts.rhs

end Override

end Netscribe
