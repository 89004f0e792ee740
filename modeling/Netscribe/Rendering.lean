import Netscribe.Literal
import Netscribe.SymbolTable

/-!
# Rendered attribute values

A value is rendered against the symbols defined so far. A reference to a defined tensor becomes the
tensor's symbol, a reference to any other tensor its raw name. Tuples and lists hold scalars only: a
container inside a container is refused. The rendering is data, so that the symbols it reads can be
told apart from its other text; `text` writes it down.
-/

namespace Netscribe

/-- The two kinds of containers. -/
inductive Container where
  | tuple
  | list
deriving DecidableEq, Repr

def Container.name : Container → String
  | tuple => "tuple"
  | list => "list"

/-- A container stands inside a container. -/
structure UnsupportedShape where
  container : Container
  index : Nat
deriving Repr

def UnsupportedShape.message (e : UnsupportedShape) : String :=
  s!"unsupported attribute shape: container nested in {e.container.name} at index {decimalText e.index}"

/-- A rendered scalar. -/
inductive Atom where
  | text (s : String)
  | symbol (s : Symbol)
deriving Inhabited, Repr

namespace Atom

def render : Atom → String
  | text s => s
  | symbol s => s.name

def symbols : Atom → List Symbol
  | text _ => []
  | symbol s => [s]

end Atom

inductive Rendered where
  | atom (a : Atom)
  | tuple (items : List Atom)
  | list (items : List Atom)
deriving Inhabited, Repr

namespace Rendered

def text : Rendered → String
  | atom a => a.render
  | tuple items => "(" ++ commaJoin (items.map Atom.render) ++ ")"
  | list items => "[" ++ commaJoin (items.map Atom.render) ++ "]"

def symbols : Rendered → List Symbol
  | atom a => a.symbols
  | tuple items => items.flatMap Atom.symbols
  | list items => items.flatMap Atom.symbols

end Rendered

structure Keyword where
  name : String
  value : Rendered
deriving Inhabited, Repr

def Keyword.text (k : Keyword) : String := k.name ++ "=" ++ k.value.text

namespace SymbolTable

/-- A scalar value rendered against the table; containers are no scalars. -/
def atom? (t : SymbolTable) : Value → Option Atom
  | .unset => some (.text "None")
  | .none => some (.text "None")
  | .bool b => some (.text (if b then "True" else "False"))
  | .int i => some (.text (decimalText i))
  | .float x => some (.text (Literal.float x))
  | .str s => some (.text (Literal.string s))
  | .expr s => some (.text s)
  | .tensor name =>
    match t.resolve? name with
    | some symbol => some (.symbol ⟨name, symbol⟩)
    | none => some (.text name)
  | .tuple _ => none
  | .list _ => none

def atoms (t : SymbolTable) (container : Container) (i : Nat) :
    List Value → Except UnsupportedShape (List Atom)
  | [] => .ok []
  | v :: rest =>
    match t.atom? v with
    | none => .error ⟨container, i⟩
    | some a =>
      match atoms t container (i + 1) rest with
      | .ok as => .ok (a :: as)
      | .error e => .error e

def infer (t : SymbolTable) (v : Value) : Except UnsupportedShape Rendered :=
  match v with
  | .tuple items => (t.atoms .tuple 0 items).map .tuple
  | .list items => (t.atoms .list 0 items).map .list
  | _ => .ok (.atom ((t.atom? v).getD default))

/-- The attributes of an operator among the given names, in the order of the names; a name that the
operator does not define is skipped. A failure comes with the attribute it belongs to. -/
def collect (t : SymbolTable) (op : Operator) :
    List String → Except (String × UnsupportedShape) (List Keyword)
  | [] => .ok []
  | name :: rest =>
    match op.attribute? name with
    | none => collect t op rest
    | some v =>
      match t.infer v with
      | .error e => .error (name, e)
      | .ok r =>
        match collect t op rest with
        | .ok ks => .ok (⟨name, r⟩ :: ks)
        | .error e => .error e

end SymbolTable

end Netscribe
