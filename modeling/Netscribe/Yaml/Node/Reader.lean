import Netscribe.Yaml.Node
import Netscribe.Yaml.Token.Lexer

/-!
# Reading nodes

The nodes of a document from its tokens, by recursive descent. Only the first document of a text is
read. Missing nodes are null scalars.
-/

namespace Netscribe.Yaml

/-- The state of reading nodes. -/
structure Reader where
  lexer : Lexer
  handles : List (String × String)
  /-- The anchors seen so far, latest first, by number. -/
  anchors : List (String × Nat)
  closed : List (Nat × Node)
  cycles : Nat

abbrev Reading (α : Type) : Type := StateT Reader (Except Failure) α

namespace Reader

def peek : Reading Token := do
  let r ← get
  let lexer ← r.lexer.ready
  set { r with lexer := lexer }
  return lexer.queue.headD ⟨.streamEnd, lexer.cursor.line⟩

def skip : Reading Unit := modify fun r => { r with lexer := r.lexer.drop }

def accept (kind : TokenKind) : Reading Bool := do
  if (← peek).kind = kind then
    skip
    return true
  else return false

def fail {α : Type} (t : Token) (rule : String) : Reading α :=
  throw (.malformed (t.line + 1) rule)

/-! ### Anchors and tags -/

def openAnchor (name : String) : Reading Nat := do
  let r ← get
  let number := r.anchors.length
  set { r with anchors := (name, number) :: r.anchors }
  return number

def closeAnchor (number : Nat) (n : Node) : Reading Unit :=
  modify fun r => { r with closed := (number, n) :: r.closed }

def aliased (line : Nat) (name : String) : Reading Node := do
  let r ← get
  match r.anchors.lookup name with
  | none => throw (.unknownAnchor name)
  | some number =>
    match r.closed.lookup number with
    | some target => return .aliasOf line name target
    | none =>
      set { r with cycles := r.cycles + 1 }
      return .cycle line name number r.cycles

/-- The full tag of a handle and a suffix. -/
def fullTag (t : Token) (handle suffix : String) : Reading String := do
  if handle.isEmpty then return suffix
  else
    match (← get).handles.lookup handle with
    | some lead => return lead ++ suffix
    | none => fail t "found undefined tag handle"

structure Properties where
  line : Nat
  anchor : Option String
  tag : String

/-- An anchor and a tag in either order. -/
def properties : Reading Properties := do
  let t ← peek
  match t.kind with
  | .anchor name =>
    skip
    let u ← peek
    match u.kind with
    | .tag handle suffix =>
      skip
      return ⟨t.line, some name, ← fullTag u handle suffix⟩
    | _ => return ⟨t.line, some name, ""⟩
  | .tag handle suffix =>
    skip
    let u ← peek
    match u.kind with
    | .anchor name =>
      skip
      return ⟨t.line, some name, ← fullTag t handle suffix⟩
    | _ => return ⟨t.line, none, ← fullTag t handle suffix⟩
  | _ => return ⟨t.line, none, ""⟩

/-- A null scalar on a line, counted from zero. -/
def missing (line : Nat) : Node := .ofScalar (line + 1) "" true ""

def opened (p : Properties) : Reading (Option Nat) :=
  match p.anchor with
  | some name => do return some (← openAnchor name)
  | none => return none

def finished (number : Option Nat) (n : Node) : Reading Node := do
  match number with
  | some k => closeAnchor k n
  | none => pure ()
  return n

/-! ### Nodes -/

mutual

/-- The node at the next token. `block` allows block collections, and `indentless` a block sequence
that is not indented. -/
def node (block indentless : Bool) : Nat → Reading Node
  | 0 => throw (.malformed 0 "exceeded max depth")
  | fuel + 1 => do
    let t ← peek
    match t.kind with
    | .aliasOf name =>
      let n ← aliased (t.line + 1) name
      skip
      return n
    | _ =>
      let p ← properties
      let number ← opened p
      let t ← peek
      let line := p.line + 1
      let sequence (items : List Node) : Node :=
        .sequence line (Node.collectionTag p.tag Tag.seq) items
      let mapping (entries : List (Node × Node)) : Node :=
        .mapping line (Node.collectionTag p.tag Tag.map) entries
      match t.kind with
      | .scalar plain text =>
        skip
        finished number (.ofScalar line p.tag plain text)
      | .flowSequenceStart =>
        skip
        finished number (sequence (← flowItems true fuel))
      | .flowMappingStart =>
        skip
        finished number (mapping (← flowEntries true fuel))
      | kind =>
        if indentless && kind == .blockEntry then
          finished number (sequence (← indentlessItems fuel))
        else if block && kind == .blockSequenceStart then
          skip
          finished number (sequence (← blockItems fuel))
        else if block && kind == .blockMappingStart then
          skip
          finished number (mapping (← blockEntries fuel))
        else if p.anchor.isSome || !p.tag.isEmpty then
          finished number (.ofScalar line p.tag true "")
        else fail t "did not find expected node content"

def blockItems : Nat → Reading (List Node)
  | 0 => throw (.malformed 0 "exceeded max depth")
  | fuel + 1 => do
    let t ← peek
    skip
    match t.kind with
    | .blockEntry =>
      let u ← peek
      let n ←
        if u.kind = .blockEntry ∨ u.kind = .blockEnd then pure (missing t.line)
        else node true false fuel
      return n :: (← blockItems fuel)
    | .blockEnd => return []
    | _ => fail t "did not find expected '-' indicator"

def indentlessItems : Nat → Reading (List Node)
  | 0 => throw (.malformed 0 "exceeded max depth")
  | fuel + 1 => do
    let t ← peek
    if t.kind ≠ .blockEntry then return []
    else
      skip
      let u ← peek
      let n ←
        if [.blockEntry, .key, .value, .blockEnd].contains u.kind then pure (missing t.line)
        else node true false fuel
      return n :: (← indentlessItems fuel)

def blockEntries : Nat → Reading (List (Node × Node))
  | 0 => throw (.malformed 0 "exceeded max depth")
  | fuel + 1 => do
    let t ← peek
    skip
    match t.kind with
    | .key =>
      let k ← blockPart t.line fuel
      let u ← peek
      if u.kind = .value then
        skip
        let v ← blockPart u.line fuel
        return (k, v) :: (← blockEntries fuel)
      else return (k, missing u.line) :: (← blockEntries fuel)
    | .blockEnd => return []
    | _ => fail t "did not find expected key"

def blockPart (line : Nat) : Nat → Reading Node
  | 0 => throw (.malformed 0 "exceeded max depth")
  | fuel + 1 => do
    if [.key, .value, .blockEnd].contains (← peek).kind then return missing line
    else node true true fuel

def flowItems (first : Bool) : Nat → Reading (List Node)
  | 0 => throw (.malformed 0 "exceeded max depth")
  | fuel + 1 => do
    let t ← peek
    if t.kind = .flowSequenceEnd then
      skip
      return []
    else
      if !first && t.kind != .flowEntry then fail t "did not find expected ',' or ']'"
      if !first then skip
      let t ← peek
      match t.kind with
      | .flowSequenceEnd =>
        skip
        return []
      | .key =>
        skip
        let pair ← flowPair fuel
        let n : Node := .mapping (t.line + 1) Tag.map [pair]
        return n :: (← flowItems false fuel)
      | _ =>
        let n ← node false false fuel
        return n :: (← flowItems false fuel)

/-- A mapping of one entry inside a flow sequence. A token that ends a missing key is taken with
it. -/
def flowPair : Nat → Reading (Node × Node)
  | 0 => throw (.malformed 0 "exceeded max depth")
  | fuel + 1 => do
    let t ← peek
    let k ←
      if [.value, .flowEntry, .flowSequenceEnd].contains t.kind then
        skip
        pure (missing t.line)
      else node false false fuel
    let t ← peek
    if t.kind = .value then
      skip
      if [.flowEntry, .flowSequenceEnd].contains (← peek).kind then return (k, missing t.line)
      else return (k, ← node false false fuel)
    else return (k, missing t.line)

def flowEntries (first : Bool) : Nat → Reading (List (Node × Node))
  | 0 => throw (.malformed 0 "exceeded max depth")
  | fuel + 1 => do
    let t ← peek
    if t.kind = .flowMappingEnd then
      skip
      return []
    else
      if !first && t.kind != .flowEntry then fail t "did not find expected ',' or mapping end"
      if !first then skip
      let t ← peek
      match t.kind with
      | .flowMappingEnd =>
        skip
        return []
      | .key =>
        skip
        let k ← flowPart fuel
        let u ← peek
        if u.kind = .value then
          skip
          let v ← flowPart fuel
          return (k, v) :: (← flowEntries false fuel)
        else return (k, missing u.line) :: (← flowEntries false fuel)
      | _ =>
        let k ← node false false fuel
        let u ← peek
        return (k, missing u.line) :: (← flowEntries false fuel)

def flowPart : Nat → Reading Node
  | 0 => throw (.malformed 0 "exceeded max depth")
  | fuel + 1 => do
    let t ← peek
    if [.value, .flowEntry, .flowMappingEnd].contains t.kind then return missing t.line
    else node false false fuel

end

/-! ### Documents -/

def defaultHandles : List (String × String) := [("!", "!"), ("!!", Tag.standardLead)]

/-- The directives before a document: each kind of version, and each handle, at most once. Handles of
the document come before the default ones. -/
def directives (version : Bool) (handles : List (String × String)) : Nat → Reading Unit
  | 0 => return ()
  | fuel + 1 => do
    let t ← peek
    match t.kind with
    | .versionDirective major minor =>
      if version then fail t "found duplicate %YAML directive"
      else if major ≠ 1 ∨ minor ≠ 1 then fail t "found incompatible YAML document"
      else
        skip
        directives true handles fuel
    | .tagDirective handle lead =>
      if (handles.lookup handle).isSome then fail t "found duplicate %TAG directive"
      else
        skip
        directives version (handles ++ [(handle, lead)]) fuel
    | _ => modify fun r => { r with handles := handles ++ defaultHandles }

def content (fuel : Nat) : Reading Node := do
  let t ← peek
  match t.kind with
  | .versionDirective _ _ | .tagDirective _ _ | .documentStart | .documentEnd | .streamEnd =>
    return missing t.line
  | _ => node true false fuel

/-- The first document, `none` if there is none. The token behind the document has to be readable. -/
def document (fuel : Nat) : Reading (Option Node) := do
  let t ← peek
  match t.kind with
  | .streamEnd => return none
  | .versionDirective _ _ | .tagDirective _ _ | .documentStart =>
    directives false [] fuel
    let t ← peek
    if t.kind ≠ .documentStart then fail t "did not find expected <document start>"
    skip
    let n ← content fuel
    let _ ← peek
    return some n
  | _ =>
    let n ← node true false fuel
    let _ ← peek
    return some n

end Reader

/-- The first document of a byte string, `none` if there is none. Each character gives four tokens at
most, and each token a fixed number of steps. -/
def parse (bytes : List UInt8) : Except Failure (Option Tree) := do
  let input := Input.ofBytes bytes
  let lexer ← Lexer.start input
  let start : Reader := ⟨lexer, Reader.defaultHandles, [], [], 0⟩
  let (n, r) ← (Reader.document (16 * input.text.length + 64)).run start
  return n.map (⟨·, r.closed⟩)

end Netscribe.Yaml
