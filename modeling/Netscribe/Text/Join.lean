/-!
# Joined and repeated texts

`join sep` writes texts one after another with a separator between two of them. `Copies s` is a number
of copies of a text that are not too long together.
-/

namespace Netscribe

/-- The texts in order, with `sep` between each two of them. -/
def join (sep : String) : List String → String
  | [] => ""
  | [s] => s
  | s :: rest => s ++ (sep ++ join sep rest)

def commaJoin (items : List String) : String := join "," items

def maxTextSize : Nat := 9223372036854775807

/-- A number of copies of a text that make one text together. -/
structure Copies (s : String) where
  count : Nat
  fits : s.utf8ByteSize * count ≤ maxTextSize
deriving Repr

namespace Copies

variable {s : String}

def zero : Copies s := ⟨0, Nat.zero_le _⟩

def ofNat? (count : Nat) : Option (Copies s) :=
  if fits : s.utf8ByteSize * count ≤ maxTextSize then some ⟨count, fits⟩ else none

def text (c : Copies s) : String := String.join (List.replicate c.count s)

end Copies

end Netscribe
