import Netscribe.Number.Decimal
import Netscribe.Text.Join

/-!
# Attribute values

The configuration of an operator is made of values: scalars, references to tensors, source
expressions, and tuples and lists of values. A value can also be left open (`unset`), which is not
the same as the value `none`.
-/

namespace Netscribe

/-- The value of an operator attribute. -/
inductive Value where
  | unset
  | none
  | bool (b : Bool)
  | int (i : Int)
  | float (x : Binary64)
  /-- A text, written as a quoted literal. -/
  | str (s : String)
  /-- A source expression, written as it is. -/
  | expr (s : String)
  | tensor (name : String)
  | tuple (items : List Value)
  | list (items : List Value)
deriving Inhabited, Repr

namespace Value

def ints (is : List Int) : Value := .tuple (is.map .int)

def kindName : Value → String
  | unset => "<nil>"
  | none => "graph.None"
  | bool _ => "graph.Bool"
  | int _ => "graph.Int"
  | float _ => "graph.Float"
  | str _ => "graph.Str"
  | expr _ => "graph.Expr"
  | tensor _ => "graph.TensorRef"
  | tuple _ => "graph.Tuple"
  | list _ => "graph.List"

mutual

def display : Value → String
  | unset => "<nil>"
  | none => "\x7b\x7d"
  | bool b => if b then "true" else "false"
  | int i => decimalText i
  | float x => x.render .field
  | str s => s
  | expr s => s
  | tensor name => name
  | tuple items => "[" ++ join " " (displayAll items) ++ "]"
  | list items => "[" ++ join " " (displayAll items) ++ "]"

def displayAll : List Value → List String
  | [] => []
  | v :: rest => display v :: displayAll rest

end

mutual

/-- The tensors that a value refers to, at any depth. -/
def tensors : Value → List String
  | tensor name => [name]
  | tuple items => tensorsAll items
  | list items => tensorsAll items
  | _ => []

def tensorsAll : List Value → List String
  | [] => []
  | v :: rest => tensors v ++ tensorsAll rest

end

end Value

end Netscribe
