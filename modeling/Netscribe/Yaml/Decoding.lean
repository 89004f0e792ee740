import Netscribe.Yaml.Node.Reader

/-!
# Decoding nodes

Nodes are decoded as values of a type. Each node that is met counts as a visit, and so does each one
met again behind an alias: a document that consists almost of aliases alone is refused. Problems are
collected on the way. A null is no problem, and leaves what is there.
-/

namespace Netscribe.Yaml

/-- What decoding has met so far. -/
structure Tally where
  visits : Nat
  /-- The number of visits behind an alias. -/
  aliased : Nat
  problems : List Problem
deriving Inhabited, Repr

abbrev Decoding (α : Type) : Type := StateT Tally (Except Failure) α

namespace Tally

def empty : Tally := ⟨0, 0, []⟩

/-- The share of visits behind aliases is too large: above 99 percent up to 400000 visits, above 10
percent from 4000000 visits on, and in between above a share that falls evenly. Short documents, and
documents with few aliases, are always fine. -/
def isExcessive (t : Tally) : Bool :=
  decide (100 < t.aliased) && decide (1000 < t.visits) &&
    if t.visits ≤ 400000 then decide (99 * t.visits < 100 * t.aliased)
    else if 4000000 ≤ t.visits then decide (t.visits < 10 * t.aliased)
    else
      let share := 99 * 3600000 - 89 * (t.visits - 400000)
      decide (t.visits * share < t.aliased * 360000000)

def visit (t : Tally) (behind : Bool) : Tally :=
  { t with visits := t.visits + 1, aliased := if behind then t.aliased + 1 else t.aliased }

end Tally

namespace Decoding

def visit (behind : Bool) : Decoding Unit := do
  let t := (← get).visit behind
  if t.isExcessive then throw .excessiveAliasing
  set t

def report (ps : List Problem) : Decoding Unit :=
  modify fun t => { t with problems := t.problems ++ ps }

def run {α : Type} (d : Decoding α) : Except Error α :=
  match StateT.run d .empty with
  | .error f => .error (.failure f)
  | .ok (x, t) => if t.problems.isEmpty then .ok x else .error (.problems t.problems)

end Decoding

open Decoding (visit report)

namespace Node

def scalarText : Node → String
  | scalar _ _ text => text
  | _ => ""

def mismatch (n : Node) (target : String) : Problem :=
  .mismatch n.line n.tag n.scalarText target

/-- The keys that come again, each time with the line it came on first. -/
def duplicates : List (Node × Node) → List Problem
  | [] => []
  | (k, _) :: rest =>
    (rest.filterMap fun (j, _) =>
      if k.sameKind j && k.keyText == j.keyText then some (.duplicateKey j.line j.keyText k.line)
      else none)
      ++ duplicates rest

def reportDuplicates (entries : List (Node × Node)) : Decoding Bool := do
  let ps := duplicates entries
  report ps
  return !ps.isEmpty

/-- Visits a node and, behind aliases, the node that it stands for. -/
def follow {α : Type} (f : Bool → Node → Decoding α) (behind : Bool) : Node → Decoding α
  | aliasOf _ _ target => do
    visit behind
    follow f true target
  | cycle _ name _ _ => do
    visit behind
    throw (.cyclicAnchor name)
  | n => do
    visit behind
    f behind n

def scalarValue (target : String) (behind : Bool) (n : Node) : Decoding (Option (Node × Scalar)) :=
  n.follow (fun _ n => do
    match n with
    | scalar _ tag text => return some (n, ← Scalar.resolve tag text)
    | mapping _ _ entries =>
      if !(← reportDuplicates entries) then report [n.mismatch target]
      return none
    | _ =>
      report [n.mismatch target]
      return none) behind

def asText (behind : Bool) (n : Node) : Decoding (Option String) := do
  match ← n.scalarValue "string" behind with
  | none => return none
  | some (_, .null) => return none
  | some (_, .text s) => return some s
  | some (n, _) => return some n.scalarText

/-- The further spellings of truth values, where one is asked for. -/
def boolWords : List (String × Bool) :=
  [("y", true), ("Y", true), ("yes", true), ("Yes", true), ("YES", true), ("on", true), ("On", true),
   ("ON", true), ("n", false), ("N", false), ("no", false), ("No", false), ("NO", false),
   ("off", false), ("Off", false), ("OFF", false)]

def asBool (behind : Bool) (n : Node) : Decoding (Option Bool) := do
  match ← n.scalarValue "bool" behind with
  | none => return none
  | some (_, .null) => return none
  | some (_, .bool b) => return some b
  | some (n, .text s) =>
    match boolWords.lookup s with
    | some b => return some b
    | none =>
      report [n.mismatch "bool"]
      return none
  | some (n, _) =>
    report [n.mismatch "bool"]
    return none

/-- The integer of 64 bits, with a sign, that a number stands for. Digits after the point are dropped.
The largest admitted float is `signedEnd`, which goes to the other end of the range. -/
def int64? : Scalar → Option Int
  | .int i => if i < Scalar.signedEnd then some i else none
  | .float x =>
    if x.isFinite then
      let i := x.truncate
      if i < -Scalar.signedEnd ∨ i = Scalar.signedEnd then some (-Scalar.signedEnd)
      else if i < Scalar.signedEnd then some i
      else none
    else if x.isInfinite ∧ x.negative then some (-Scalar.signedEnd)
    else none
  | _ => none

def asInt (target : String) (behind : Bool) (n : Node) : Decoding (Option Int) := do
  match ← n.scalarValue target behind with
  | none => return none
  | some (_, .null) => return none
  | some (n, v) =>
    match int64? v with
    | some i => return some i
    | none =>
      report [n.mismatch target]
      return none

end Node

end Netscribe.Yaml
