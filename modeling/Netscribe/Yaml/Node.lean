import Netscribe.Yaml.Scalar

/-!
# Nodes

A document is a tree of nodes. Each node knows the line it starts on, counted from one, and its tag.
An alias carries a copy of the node that it stands for; an alias inside of that node is a `cycle`. A
`Tree` has the nodes that cycles stand for beside it, and `Tree.unfolded` puts copies of them in place
of cycles as deep as asked for.
-/

namespace Netscribe.Yaml

inductive Node where
  | scalar (line : Nat) (tag text : String)
  | sequence (line : Nat) (tag : String) (items : List Node)
  | mapping (line : Nat) (tag : String) (entries : List (Node × Node))
  | aliasOf (line : Nat) (name : String) (target : Node)
  /-- A node around this one, by the name and the number of its anchor. Cycles have numbers of their
  own as well. -/
  | cycle (line : Nat) (name : String) (anchor number : Nat)
deriving Inhabited, Repr

namespace Node

def line : Node → Nat
  | scalar line _ _ => line
  | sequence line _ _ => line
  | mapping line _ _ => line
  | aliasOf line _ _ => line
  | cycle line _ _ _ => line

/-- The tag of a node, behind an alias the one of the node it stands for. -/
def tag : Node → String
  | scalar _ tag _ => tag
  | sequence _ tag _ => tag
  | mapping _ tag _ => tag
  | aliasOf _ _ target => target.tag
  | cycle _ _ _ _ => ""

def keyText : Node → String
  | scalar _ _ text => text
  | aliasOf _ name _ => name
  | cycle _ name _ _ => name
  | _ => ""

/-- Two nodes of the same kind; all aliases are of one kind. -/
def sameKind : Node → Node → Bool
  | scalar _ _ _, scalar _ _ _ => true
  | sequence _ _ _, sequence _ _ _ => true
  | mapping _ _ _, mapping _ _ _ => true
  | aliasOf _ _ _, aliasOf _ _ _ => true
  | aliasOf _ _ _, cycle _ _ _ _ => true
  | cycle _ _ _ _, aliasOf _ _ _ => true
  | cycle _ _ _ _, cycle _ _ _ _ => true
  | _, _ => false

def isMergeKey : Node → Bool
  | scalar _ tag text => text == "<<" && tag == Tag.merge
  | _ => false

/-- The node that an alias stands for, and any other node itself. -/
def resolved : Node → Node
  | aliasOf _ _ target => target
  | n => n

/-- The scalar of a token: quoted text without a tag is a text. -/
def ofScalar (line : Nat) (tag : String) (plain : Bool) (text : String) : Node :=
  let tag :=
    if tag ≠ "" ∧ tag ≠ "!" then Tag.short tag
    else if !plain then Tag.str
    else if text = "<<" then Tag.merge
    else (Scalar.ofSpelling true text).tag
  .scalar line tag text

/-- The tag of a collection: the given one, or the default if none is given. -/
def collectionTag (tag default : String) : String :=
  if tag ≠ "" ∧ tag ≠ "!" then Tag.short tag else default

/-! ### Cycles -/

section

variable (target? : Nat → Nat → Option Node)

mutual

/-- The node with an alias of what `target?` gives for its anchor and its number in place of each
cycle. -/
def replaceCycles : Node → Node
  | scalar line tag text => scalar line tag text
  | sequence line tag items => sequence line tag (replaceInItems items)
  | mapping line tag entries => mapping line tag (replaceInEntries entries)
  | aliasOf line name target => aliasOf line name (replaceCycles target)
  | cycle line name anchor number =>
    match target? anchor number with
    | some target => aliasOf line name target
    | none => cycle line name anchor number

def replaceInItems : List Node → List Node
  | [] => []
  | n :: rest => replaceCycles n :: replaceInItems rest

def replaceInEntries : List (Node × Node) → List (Node × Node)
  | [] => []
  | (k, v) :: rest => (replaceCycles k, replaceCycles v) :: replaceInEntries rest

end

end

end Node

/-- The nodes of a document. -/
structure Tree where
  root : Node
  anchored : List (Nat × Node)
deriving Inhabited, Repr

namespace Tree

/-- A node with copies in place of cycles, so many levels deep. A cycle that is met again inside of
its own copy stays: `met` are the numbers of the cycles around. -/
def unfold (t : Tree) : Nat → List Nat → Node → Node
  | 0, _, n => n
  | levels + 1, met, n => n.replaceCycles fun anchor number =>
    if met.contains number then none
    else (t.anchored.lookup anchor).map (unfold t levels (number :: met))

/-- The root with copies in place of cycles, so many levels deep. -/
def unfolded (t : Tree) (levels : Nat) : Node := t.unfold levels [] t.root

end Tree

end Netscribe.Yaml
