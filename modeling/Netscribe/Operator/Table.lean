import Netscribe.Graph

/-!
# Operator tables

A table says for each operator type how it is called: as a module with state, a function, a method of
its first input or a builtin, under which name, and with which attributes in which order.
-/

namespace Netscribe

/-- How an operator is called. -/
inductive OperatorClass where
  /-- The table has no such operator. -/
  | unrecognized
  | statefulModule
  | freeFunction
  | methodCall
  | primitive
  /-- A class that no rule of emission knows. -/
  | other (name : String)
deriving DecidableEq, Inhabited, Repr

namespace OperatorClass

def name : OperatorClass → String
  | unrecognized => "unrecognized"
  | statefulModule => "stateful_module"
  | freeFunction => "free_function"
  | methodCall => "method_call"
  | primitive => "primitive"
  | other name => name

def ofName (name : String) : OperatorClass :=
  if name = "unrecognized" then unrecognized
  else if name = "stateful_module" then statefulModule
  else if name = "free_function" then freeFunction
  else if name = "method_call" then methodCall
  else if name = "primitive" then primitive
  else other name

end OperatorClass

/-- How one operator type is called. -/
structure OperatorEntry where
  kind : OperatorClass
  /-- A qualified name for modules and functions, a method name for methods. -/
  callee : String
  attributes : List String
deriving DecidableEq, Inhabited, Repr

namespace OperatorEntry

/-- The template of an operator that takes whatever attributes it is given. -/
def genericTemplate : List String := ["args", "kwargs"]

/-- The entry declares its own attributes: the template is neither empty nor the generic one. -/
def declares (e : OperatorEntry) : Bool :=
  !e.attributes.isEmpty && e.attributes != genericTemplate

/-- The names of the attributes to pass for an operator: those that the entry declares, else those
of the operator itself. -/
def attributeNames (e : OperatorEntry) (op : Operator) : List String :=
  if e.declares then e.attributes else op.attributeNames

/-- The declared parameters, none if the template is empty or generic. -/
def parameters (e : OperatorEntry) : List String := if e.declares then e.attributes else []

end OperatorEntry

structure OperatorTable where
  entries : List (String × OperatorEntry)
deriving Inhabited, Repr

namespace OperatorTable

/-- The entry of an operator type, unrecognized if the table has none. -/
def lookup (t : OperatorTable) (type : String) : OperatorEntry :=
  (t.entries.lookup type).getD ⟨.unrecognized, "", []⟩

def types (t : OperatorTable) : List String := (t.entries.map (·.1)).mergeSort fun a b => a ≤ b

end OperatorTable

end Netscribe
