import Netscribe.Yaml.Decoding

/-!
# Decoding mappings

The entries of a mapping are read in order. The value of a merge key `<<` is a mapping, an alias of
one, or a list of these, and is read after the other entries: of it only the entries count whose keys
have not been taken before. `walk` reads entries in this way for any kind of target; a `RecordType`
says how the fields of a record are read.
-/

namespace Netscribe.Yaml

open Decoding (visit report)

abbrev Taken : Type := Option (List Scalar)

namespace Taken

/-- Two keys are the same: of numbers, the two zeros are, and what is no number never is. -/
def sameKey : Scalar → Scalar → Bool
  | .float x, .float y => (x == y && !x.isNaN) || (x.isZero && y.isZero)
  | a, b => a == b

/-- Takes a key. `none` if merging has begun and the key is taken. -/
def take (taken : Taken) (k : Scalar) : Option Taken :=
  match taken with
  | none => some none
  | some ks => if ks.any (sameKey k) then none else some (some (k :: ks))

end Taken

namespace Node

def keyValue (behind : Bool) (n : Node) : Decoding (Option Scalar) :=
  n.follow (fun _ n => do
    match n with
    | scalar _ tag text => return some (← Scalar.resolve tag text)
    | mapping _ _ entries =>
      if ← reportDuplicates entries then return none else throw .compositeKey
    | _ => throw .compositeKey) behind

def keyValues (behind : Bool) : List (Node × Node) → Decoding (List Scalar)
  | [] => return []
  | (k, _) :: rest => do
    let v ← k.keyValue behind
    return v.toList ++ (← keyValues behind rest)

/-- The keys that are taken when a mapping begins to merge another one. -/
def takenBy (behind : Bool) (entries : List (Node × Node)) (taken : Taken) :
    Decoding (List Scalar) :=
  match taken with
  | some ks => return ks
  | none => keyValues behind entries

def hasMergeKey (entries : List (Node × Node)) : Bool := entries.any fun e => e.1.isMergeKey

end Node

open Yaml.Node (hasMergeKey takenBy reportDuplicates)

/-- How an entry changes the target: behind an alias or not, with the keys taken so far. -/
abbrev EntryStep (σ : Type) : Type := Bool → Taken → σ → Node → Node → Decoding (Taken × σ)

section

variable {σ : Type} (f : EntryStep σ)

def walkOwn (behind : Bool) (taken : Taken) (x : σ) : List (Node × Node) → Decoding (Taken × σ)
  | [] => return (taken, x)
  | (k, v) :: rest =>
    if k.isMergeKey then walkOwn behind taken x rest
    else do
      let (taken, x) ← f behind taken x k v
      walkOwn behind taken x rest

mutual

/-- Reads what the last merge key among the entries refers to; `all` are the entries of its
mapping. -/
def walkMerge (behind : Bool) (all : List (Node × Node)) (taken : Taken) (x : σ) :
    List (Node × Node) → Decoding (Taken × σ)
  | [] => return (taken, x)
  | (k, v) :: rest =>
    if hasMergeKey rest then walkMerge behind all taken x rest
    else if k.isMergeKey then do
      let keys ← takenBy behind all taken
      let (keys, x) ← match v with
        | .sequence _ _ items => walkSources behind keys x items
        | v => walkSource behind keys x v
      return (taken.map fun _ => keys, x)
    else return (taken, x)

def walkSource (behind : Bool) (keys : List Scalar) (x : σ) : Node → Decoding (List Scalar × σ)
  | .mapping _ _ entries => do
    visit behind
    if ← reportDuplicates entries then return (keys, x)
    let (taken, x) ← walkOwn f behind (some keys) x entries
    let (taken, x) ← walkMerge behind entries taken x entries
    return (taken.getD keys, x)
  | .aliasOf _ _ (.mapping _ _ entries) => do
    visit behind
    visit true
    if ← reportDuplicates entries then return (keys, x)
    let (taken, x) ← walkOwn f true (some keys) x entries
    let (taken, x) ← walkMerge true entries taken x entries
    return (taken.getD keys, x)
  | _ => throw .mergeSource

def walkSources (behind : Bool) (keys : List Scalar) (x : σ) :
    List Node → Decoding (List Scalar × σ)
  | [] => return (keys, x)
  | n :: rest => do
    let (keys, x) ← walkSource behind keys x n
    walkSources behind keys x rest

end

def walk (behind : Bool) (x : σ) (entries : List (Node × Node)) : Decoding σ := do
  let (taken, x) ← walkOwn f behind none x entries
  return (← walkMerge f behind entries taken x entries).2

end

/-! ### Records -/

abbrev FieldReader (α : Type) : Type := Bool → Node → α → Decoding α

/-- A record that mappings are decoded as. -/
structure RecordType (α : Type) where
  name : String
  strict : Bool
  fields : List (String × FieldReader α)

namespace RecordType

variable {α : Type}

def entry (r : RecordType α) : EntryStep (List String × α) :=
  fun behind taken (done, x) k v => do
    match ← k.asText behind with
    | none => return (taken, done, x)
    | some name =>
      match taken.take (.text name) with
      | none => return (taken, done, x)
      | some taken =>
        match r.fields.lookup name with
        | some read =>
          if done.contains name then
            report [.repeatedField k.line name r.name]
            return (taken, done, x)
          return (taken, name :: done, ← read behind v x)
        | none =>
          if r.strict then report [.unknownField k.line name r.name]
          return (taken, done, x)

/-- Reads a node over a record. `none` if the node is no mapping, or null. -/
def read? (r : RecordType α) (behind : Bool) (n : Node) (x : α) : Decoding (Option α) :=
  n.follow (fun behind n => do
    match n with
    | .scalar _ tag text =>
      if (← Scalar.resolve tag text) ≠ .null then report [n.mismatch r.name]
      return none
    | .sequence _ _ _ =>
      report [n.mismatch r.name]
      return none
    | .mapping _ _ entries =>
      if ← reportDuplicates entries then return none
      return some (← walk r.entry behind ([], x) entries).2
    | _ => return none) behind

/-- Reads a node over a record, which stays as it is if the node is no mapping. -/
def read (r : RecordType α) : FieldReader α := fun behind n x => do
  return (← r.read? behind n x).getD x

end RecordType

namespace Node

def field {α β : Type} (read : Bool → Node → Decoding (Option β)) (set : α → β → α) :
    FieldReader α :=
  fun behind n x => do
    match ← read behind n with
    | some v => return set x v
    | none => return x

/-! ### Lists and maps -/

def items {β : Type} (read : Bool → Node → Decoding (Option β)) (behind : Bool) :
    List Node → Decoding (List β)
  | [] => return []
  | n :: rest => do
    let v ← read behind n
    return v.toList ++ (← items read behind rest)

def asList {β : Type} (target : String) (read : Bool → Node → Decoding (Option β)) (behind : Bool)
    (n : Node) : Decoding (Option (List β)) :=
  n.follow (fun behind n => do
    match n with
    | .scalar _ tag text =>
      if (← Scalar.resolve tag text) = .null then return some []
      report [n.mismatch target]
      return none
    | .sequence _ _ ns => return some (← items read behind ns)
    | .mapping _ _ entries =>
      if !(← reportDuplicates entries) then report [n.mismatch target]
      return none
    | _ => return none) behind

def asTexts (behind : Bool) (n : Node) : Decoding (Option (List String)) :=
  n.asList "[]string" asText behind

def putText (m : List (String × String)) (key value : String) : List (String × String) :=
  if (m.lookup key).isSome then m.map fun e => if e.1 == key then (key, value) else e
  else m ++ [(key, value)]

/-- Reads an entry of a map from texts to texts. A null value is the empty text, unless it comes from
a merged mapping and the key has a value. -/
def textMapEntry : EntryStep (List (String × String)) := fun behind taken m k v => do
  match ← k.asText behind with
  | none => return (taken, m)
  | some key =>
    match taken.take (.text key) with
    | none => return (taken, m)
    | some taken' =>
      match ← v.asText behind with
      | some value => return (taken', putText m key value)
      | none =>
        if v.tag = Tag.null ∧ (taken.isNone ∨ (m.lookup key).isNone) then
          return (taken', putText m key "")
        else return (taken', m)

/-- A map from texts to texts; null is the empty one. -/
def asTextMap (behind : Bool) (n : Node) : Decoding (Option (List (String × String))) :=
  n.follow (fun behind n => do
    match n with
    | .scalar _ tag text =>
      if (← Scalar.resolve tag text) = .null then return some []
      report [n.mismatch "map[string]string"]
      return none
    | .mapping _ _ entries =>
      if ← reportDuplicates entries then return none
      return some (← walk textMapEntry behind [] entries)
    | _ =>
      report [n.mismatch "map[string]string"]
      return none) behind

end Node

end Netscribe.Yaml
