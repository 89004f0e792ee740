import Netscribe.Rendering

/-!
# Assignments

The statements of a generated module are assignments. An assignment is kept as data, target symbols
and a right-hand side, and `Assignment.text` writes it down as one line of Python.
-/

namespace Netscribe

/-- What a call calls. -/
inductive Callee where
  | named (name : String)
  | method (receiver : Symbol) (name : String)
  | submodule (index : Int)
deriving Inhabited, Repr

namespace Callee

def text : Callee → String
  | named name => name
  | method receiver name => receiver.name ++ "." ++ name
  | submodule index => Naming.submodule index

/-- The symbols that the text reads. -/
def symbols : Callee → List Symbol
  | method receiver _ => [receiver]
  | _ => []

end Callee

structure Call where
  callee : Callee
  positional : List Atom
  keywords : List Keyword
deriving Inhabited, Repr

namespace Call

/-- The arguments: the positional ones, then the keywords. -/
def arguments (c : Call) : String :=
  let positional := if c.positional.isEmpty then [] else [commaJoin (c.positional.map Atom.render)]
  join ", " (positional ++ c.keywords.map Keyword.text)

def text (c : Call) : String := c.callee.text ++ "(" ++ c.arguments ++ ")"

def symbols (c : Call) : List Symbol :=
  c.callee.symbols ++ c.positional.flatMap Atom.symbols ++ c.keywords.flatMap (·.value.symbols)

end Call

/-- The right-hand side of an assignment. -/
inductive Rhs where
  | argument (position : Int)
  | call (c : Call)
  | symbol (s : Symbol)
  | tuple (items : List Symbol)
  | list (items : List Symbol)
  | item (s : Symbol) (index : Rendered)
  /-- A slice along dimension `dim` of the value of a symbol, all of each dimension before. -/
  | slice (s : Symbol) (dim : Copies ":,") (start stop step : Option Rendered)
deriving Inhabited, Repr

namespace Rhs

def boundText : Option Rendered → String
  | none => ""
  | some r => r.text

/-- The text of slice bounds; the step is left out if its text is empty. -/
def boundsText (start stop step : Option Rendered) : String :=
  let step := boundText step
  boundText start ++ ":" ++ boundText stop ++ (if step.isEmpty then "" else ":" ++ step)

def text : Rhs → String
  | argument position => "args[" ++ decimalText position ++ "]"
  | call c => c.text
  | symbol s => s.name
  | tuple items =>
    "(" ++ commaJoin (items.map (·.name)) ++ (if items.length = 1 then "," else "") ++ ")"
  | list items => "[" ++ commaJoin (items.map (·.name)) ++ "]"
  | item s index => s.name ++ "[" ++ index.text ++ "]"
  | slice s dim start stop step =>
    s.name ++ "[" ++ dim.text ++ boundsText start stop step ++ "]"

def symbols : Rhs → List Symbol
  | argument _ => []
  | call c => c.symbols
  | symbol s => [s]
  | tuple items => items
  | list items => items
  | item s index => s :: index.symbols
  | slice s _ start stop step =>
    s :: (start.toList ++ stop.toList ++ step.toList).flatMap Rendered.symbols

end Rhs

/-- An assignment of one right-hand side to one or more symbols. -/
structure Assignment where
  targets : List String
  rhs : Rhs
deriving Inhabited, Repr

def Assignment.text (a : Assignment) : String := commaJoin a.targets ++ " = " ++ a.rhs.text

end Netscribe
