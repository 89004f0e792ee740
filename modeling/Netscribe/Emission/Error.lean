import Netscribe.Module
import Netscribe.Rendering

/-!
# Emission errors

The reasons for which a graph has no module. A reason can be wrapped in the place where it arose: a
node, an attribute, or the terminal outputs of the graph. A pass that panics instead gives no reason.
-/

namespace Netscribe

structure EmptySequence where
  what : String
  /-- The node it belongs to, empty for sequences of the graph. -/
  node : String
deriving Repr

def EmptySequence.message (e : EmptySequence) : String :=
  let text := s!"the {e.what} of a module can not be empty"
  if e.node.isEmpty then text else s!"node {quoted e.node}: {text}"

/-- The items of a sequence that needs at least one. -/
def nonEmpty {α : Type} (items : List α) (what node : String) : Except EmptySequence (List α) :=
  if items.isEmpty then .error ⟨what, node⟩ else .ok items

def joinItems (items : List String) (what : String) : Except EmptySequence String :=
  (nonEmpty items what "").map commaJoin

/-- The reasons for which a graph has no module. -/
inductive EmissionError where
  | redefinition (e : Redefinition)
  | missingProducer (e : MissingProducer)
  | unsupportedShape (e : UnsupportedShape)
  | emptySequence (e : EmptySequence)
  | unsupportedOperator (type node : String)
  /-- A parameter is passed by position and by keyword, or twice by keyword. -/
  | argumentConflict (node param : String)
  | unknownClass (node className : String)
  | rejected (e : Module.Rejection)
  | inputIndex (v : Value)
  | missingIndex
  | sliceDim (v : Value)
  | inNode (node : String) (e : EmissionError)
  | inAttribute (name : String) (e : EmissionError)
  | inOutputs (e : EmissionError)
deriving Repr

namespace EmissionError

def message : EmissionError → String
  | redefinition e => e.message
  | missingProducer e => e.message
  | unsupportedShape e => e.message
  | emptySequence e => e.message
  | unsupportedOperator type node => s!"unsupported operator {quoted type} in node {quoted node}"
  | argumentConflict node param =>
    s!"node {quoted node}: argument {quoted param} is passed both positionally and by keyword"
  | unknownClass node className =>
    s!"node {quoted node}: unknown operator class {quoted className}"
  | rejected e => e.message
  | inputIndex v => s!"input index must be an integer, got {v.kindName}"
  | missingIndex => "missing index attribute"
  | sliceDim v => s!"slice dim must be a non-negative integer, got {v.display}"
  | inNode node e => s!"node {quoted node}: {e.message}"
  | inAttribute name e => s!"attribute {quoted name}: {e.message}"
  | inOutputs e => s!"graph output: {e.message}"

/-- The reason itself, without the places it is wrapped in. -/
def reason : EmissionError → EmissionError
  | inNode _ e => e.reason
  | inAttribute _ e => e.reason
  | inOutputs e => e.reason
  | e => e

/-- A shape that no attribute may have, with the name of the attribute. -/
def ofAttribute (e : String × UnsupportedShape) : EmissionError :=
  .inAttribute e.1 (.unsupportedShape e.2)

end EmissionError

/-- How a pass ends without a module. -/
inductive Halt where
  | error (e : EmissionError)
  /-- The program panics with a message; no error is wrapped around it. -/
  | panic (message : String)
deriving Repr

namespace Halt

def inNode (node : String) : Halt → Halt
  | error e => error (.inNode node e)
  | panic message => panic message

def text : Halt → String
  | error e => e.message
  | panic message => "panic: " ++ message

end Halt

end Netscribe
