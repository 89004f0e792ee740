import Netscribe.Number.Decimal
import Netscribe.Text.Join
import Netscribe.Text.Quoted

/-!
# Modules

A generated module has a class name, imports, the statements of its constructor and of its forward
method, and the symbols it returns. The code of a statement is of any type: an assignment while a
module is generated, a text once it is written. Statements are added node by node, each node index
once.
-/

namespace Netscribe

/-- A statement made for a node. -/
structure Statement (α : Type) where
  node : String
  index : Int
  code : α
  /-- Written behind the code if it is not empty. -/
  comment : String
deriving Inhabited, Repr

namespace Statement

variable {α β : Type}

def map (f : α → β) (s : Statement α) : Statement β := ⟨s.node, s.index, f s.code, s.comment⟩

def line (s : Statement String) : String :=
  if s.comment.isEmpty then s.code else s.code ++ " #" ++ s.comment

end Statement

/-- A generated module. -/
structure Module (α : Type) where
  className : String
  variant : String
  imports : List String
  inits : List (Statement α)
  forwards : List (Statement α)
  /-- The returned symbols, once they are known. -/
  returns : Option (List String)
deriving Inhabited, Repr

namespace Module

variable {α β : Type}

inductive Rejection where
  | missingUse
  | duplicateIndex (node : String) (index : Int) (other : String)
deriving Repr

def Rejection.message : Rejection → String
  | missingUse => "missing use statement"
  | duplicateIndex node index other =>
    s!"node {quoted node}: index {decimalText index} already emitted by node {quoted other}"

def empty (className variant : String) (imports : List String) : Module α :=
  ⟨className, variant, imports, [], [], none⟩

/-- Adds the statements of one node: the use statement and, before it in time, an initial one. -/
def add (m : Module α) (init use : Option (Statement α)) : Except Rejection (Module α) :=
  match use with
  | none => .error .missingUse
  | some use =>
    match m.forwards.find? (·.index == use.index) with
    | some other => .error (.duplicateIndex use.node use.index other.node)
    | none => .ok { m with inits := m.inits ++ init.toList, forwards := m.forwards ++ [use] }

def map (f : α → β) (m : Module α) : Module β :=
  ⟨m.className, m.variant, m.imports, m.inits.map (·.map f), m.forwards.map (·.map f), m.returns⟩

def returnList (m : Module α) : String := commaJoin (m.returns.getD [])

end Module

end Netscribe
