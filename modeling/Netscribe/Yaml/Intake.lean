import Netscribe.Yaml.Cursor
import Netscribe.Yaml.Input

/-!
# What is at hand

A text is taken in piece by piece: the next piece comes when more characters are asked for than are
left, and what lies before the cursor is given up then. Whether the part at hand starts with a byte
order mark decides how its lines start: each of them is taken to start with such a mark, and loses its
first character.
-/

namespace Netscribe.Yaml

structure Intake where
  /-- The number of characters up to the end of the part at hand. The end of the text can be asked for
  as well, and counts as a character each time. -/
  extent : Nat
  later : List Nat
  whole : Bool
  marked : Bool
deriving DecidableEq, Inhabited, Repr

namespace Intake

def start (input : Input) : Except Failure Intake :=
  match input.ends with
  | [] => .error .unreadable
  | first :: later => .ok ⟨first, later, input.whole, input.text.head? == some byteOrderMark⟩

/-- Takes in pieces until `n` characters from a place on are at hand, or the text ends. -/
def request (i : Intake) (n : Nat) (c : Cursor) : Except Failure Intake :=
  let needed := c.index + n
  if needed ≤ i.extent then .ok i
  else
    let marked := decide (c.index < i.extent) && c.isAt byteOrderMark
    match i.later.dropWhile (· < needed) with
    | extent :: later => .ok ⟨extent, later, i.whole, marked⟩
    | [] =>
      if i.whole then .ok ⟨i.later.getLastD i.extent + 1, [], true, marked⟩ else .error .unreadable

end Intake

end Netscribe.Yaml
