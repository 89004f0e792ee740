import Netscribe.Yaml.Token.Property

/-!
# The lexer

A `Lexer` turns a document into tokens on demand. It keeps the blocks that are open, by their
indentation, and for each level of flow nesting the place where a key without an indicator may have
started: once a value indicator follows on the same line, and within 1024 characters, the token of a
key is put in front of it. A token leaves the queue when two more tokens stand behind it and it can no
longer turn out to be the start of such a key.
-/

namespace Netscribe.Yaml

/-- The place where a key without an indicator may start. -/
structure SimpleKey where
  level : Nat
  possible : Bool
  /-- No other token may stand here. -/
  required : Bool
  token : Nat
  index : Nat
  line : Nat
  column : Nat
deriving DecidableEq, Inhabited, Repr

/-- The state of reading tokens. -/
structure Lexer where
  cursor : Cursor
  intake : Intake
  queue : List Token
  taken : Nat
  /-- The column of the innermost block, -1 outside of all. -/
  indent : Int
  indents : List Int
  keyAllowed : Bool
  blockKey : SimpleKey
  flowKeys : List SimpleKey
  /-- The flow level of the candidate that starts with a token, by the token's number, latest
  first. -/
  candidates : List (Nat × Nat)
deriving Inhabited, Repr

namespace Lexer

def start (input : Input) : Except Failure Lexer := do
  let intake ← Intake.start input
  return ⟨.start input.text, intake, [], 0, -1, [], true, default, [], []⟩

def request (l : Lexer) (n : Nat) : Except Failure Lexer := do
  let intake ← l.intake.request n l.cursor
  return { l with intake := intake }

def inFlow (l : Lexer) : Bool := !l.flowKeys.isEmpty

def nextNumber (l : Lexer) : Nat := l.taken + l.queue.length

def push (l : Lexer) (kind : TokenKind) (line : Nat) : Lexer :=
  { l with queue := l.queue ++ [⟨kind, line⟩] }

/-- Adds a token before the one of the given number, and at the end if that one is taken. -/
def pushBefore (l : Lexer) (number : Nat) (kind : TokenKind) (line : Nat) : Lexer :=
  if number < l.taken then l.push kind line
  else
    let k := number - l.taken
    { l with queue := l.queue.take k ++ ⟨kind, line⟩ :: l.queue.drop k }

/-! ### Keys without an indicator -/

def currentKey (l : Lexer) : SimpleKey :=
  match l.flowKeys with
  | k :: _ => k
  | [] => l.blockKey

def flowLevel (l : Lexer) : Nat := l.currentKey.level

def setKey (l : Lexer) (k : SimpleKey) : Lexer :=
  match l.flowKeys with
  | _ :: rest => { l with flowKeys := k :: rest }
  | [] => { l with blockKey := k }

/-- The candidate of a level, the block style being level zero. -/
def keyOfLevel (l : Lexer) (level : Nat) : SimpleKey :=
  if level = 0 then l.blockKey else (l.flowKeys[l.flowLevel - level]?).getD default

/-- A candidate is still one: its line goes on, and it is not too far back. It is a failure if no
other token may stand where it starts. -/
def isCandidate (l : Lexer) (k : SimpleKey) : Except Failure Bool :=
  if !k.possible then .ok false
  else if k.line < l.cursor.line ∨ k.index + 1024 < l.cursor.index then
    if k.required then .error (.malformed (k.line + 1) "could not find expected ':'") else .ok false
  else .ok true

/-- Candidates without the one of the given number. Numbers fall along the list, so the search ends at
the first smaller one. -/
def without (number : Nat) : List (Nat × Nat) → List (Nat × Nat)
  | [] => []
  | e :: rest =>
    if e.1 < number then e :: rest
    else if e.1 = number then rest
    else e :: without number rest

def forget (l : Lexer) (number : Nat) : Lexer :=
  { l with candidates := without number l.candidates }

def dropKey (l : Lexer) : Except Failure Lexer :=
  let k := l.currentKey
  if !k.possible then .ok l
  else if k.required then .error (.malformed (k.line + 1) "could not find expected ':'")
  else .ok ((l.setKey { k with possible := false }).forget k.token)

def saveKey (l : Lexer) : Except Failure Lexer := do
  if !l.keyAllowed then return l
  let required := !l.inFlow && decide (l.indent = l.cursor.column)
  let number := l.nextNumber
  let l ← l.dropKey
  let c := l.cursor
  let l := l.setKey ⟨l.flowLevel, true, required, number, c.index, c.line, c.column⟩
  let waiting := l.candidates.takeWhile fun e => decide (l.taken ≤ e.1)
  return { l with candidates := (number, l.flowLevel) :: waiting }

/-! ### Blocks -/

def maxDepth : Nat := 10000

/-- Opens a block at a column that is deeper than the current one. Its token goes to the end of the
queue, or before the token of the given number. -/
def roll (l : Lexer) (column : Nat) (before : Option Nat) (kind : TokenKind) (line : Nat) :
    Except Failure Lexer :=
  if l.inFlow || decide ((column : Int) ≤ l.indent) then .ok l
  else if maxDepth ≤ l.indents.length then l.cursor.fail "exceeded max depth"
  else
    let l := { l with indents := l.indent :: l.indents, indent := column }
    match before with
    | some number => .ok (l.pushBefore number kind line)
    | none => .ok (l.push kind line)

/-- Closes the blocks that are deeper than a column; `opened` are the columns of the blocks around. -/
def unrollFrom (column : Int) (line : Nat) (l : Lexer) : List Int → Lexer
  | [] => l
  | outer :: rest =>
    if column < l.indent then
      unrollFrom column line ({ l with indent := outer, indents := rest }.push .blockEnd line) rest
    else l

def unroll (l : Lexer) (column : Int) (line : Nat) : Lexer :=
  if l.inFlow then l else unrollFrom column line l l.indents

/-! ### Space and comments -/

/-- The place `index` characters from the start, for a place before it with blanks and line ends
between. -/
def skipSpace (index : Nat) : Nat → Cursor → Cursor
  | 0, c => c
  | fuel + 1, c =>
    if index ≤ c.index then c
    else skipSpace index fuel (if c.atClass isBreak then c.nextLine else c.advance 1)

/-- The place after a comment and the comments on the lines after it, as far as fewer than 512
characters lie between two of them. -/
def skipComments : Nat → Cursor → Cursor
  | 0, c => c
  | fuel + 1, c =>
    let c := c.skipWhile fun x => !isBreak x
    let space := (c.rest.takeWhile fun x => isBlank x || x == '\n' || x == '\r').length
    if decide (0 < space) && decide (space < 512) && (c.rest.drop space).head? == some '#' then
      skipComments fuel (skipSpace (c.index + space) space c)
    else c

/-- Moves to the next token. A line of a marked part loses its first character. Tabs are no
indentation: outside of flow collections they are skipped only where no key may start. -/
def skipToToken : Nat → Lexer → Except Failure Lexer
  | 0, l => .ok l
  | fuel + 1, l => do
    let l ← l.request 1
    let c := l.cursor
    let c := if c.column == 0 && l.intake.marked then c.advance 1 else c
    let tabs := l.inFlow || !l.keyAllowed
    let c := c.skipWhile fun x => x == ' ' || (tabs && x == '\t')
    let c := if c.isAt '#' then skipComments (c.size + 1) c else c
    if c.atClass isBreak then
      skipToToken fuel { l with cursor := c.nextLine, keyAllowed := l.keyAllowed || !l.inFlow }
    else return { l with cursor := c }

/-- Skips a comment behind a token on the same line. There is none behind the indicator of a sequence
entry. -/
def skipLineComment (l : Lexer) : Lexer :=
  let c := l.cursor
  let blanks := (c.rest.takeWhile isBlank).length
  let afterEntry := match l.queue.getLast? with
    | some t => t.kind == .blockEntry
    | none => false
  if !afterEntry && !c.afterBreak && decide (blanks < 512) && (c.rest.drop blanks).head? == some '#'
  then { l with cursor := c.skipWhile fun x => !isBreak x }
  else l

/-! ### Tokens -/

def indicator (l : Lexer) (n : Nat) (kind : TokenKind) : Lexer :=
  { l.push kind l.cursor.line with cursor := l.cursor.advance n }

/-- The end of the document's text: everything open ends, on a line of its own. -/
def streamEnd (l : Lexer) : Except Failure Lexer := do
  let c := l.cursor
  let c := if c.column == 0 then c else { c with column := 0, line := c.line + 1 }
  let l := { l with cursor := c }.unroll (-1) c.line
  let l ← l.dropKey
  return { l with keyAllowed := false }.push .streamEnd c.line

def directive (l : Lexer) : Except Failure Lexer := do
  let l := l.unroll (-1) l.cursor.line
  let l ← l.dropKey
  let (kind, c) ← directiveAt l.cursor
  return { { l with keyAllowed := false }.push kind l.cursor.line with cursor := c }

def documentMarker (l : Lexer) (kind : TokenKind) : Except Failure Lexer := do
  let l := l.unroll (-1) l.cursor.line
  let l ← l.dropKey
  return { l with keyAllowed := false }.indicator 3 kind

def flowStart (l : Lexer) (kind : TokenKind) : Except Failure Lexer := do
  let l ← l.saveKey
  let c := l.cursor
  let k : SimpleKey := ⟨l.flowLevel + 1, false, false, l.nextNumber, c.index, c.line, c.column⟩
  let l := { l with flowKeys := k :: l.flowKeys }
  if maxDepth < l.flowLevel then c.fail "exceeded max depth"
  else return { l with keyAllowed := true }.indicator 1 kind

def flowEnd (l : Lexer) (kind : TokenKind) : Except Failure Lexer := do
  let l ← l.dropKey
  let l := match l.flowKeys with
    | k :: rest => { l.forget k.token with flowKeys := rest }
    | [] => l
  return { l with keyAllowed := false }.indicator 1 kind

def flowEntry (l : Lexer) : Except Failure Lexer := do
  let l ← l.dropKey
  return { l with keyAllowed := true }.indicator 1 .flowEntry

def blockEntry (l : Lexer) : Except Failure Lexer := do
  let c := l.cursor
  if !l.inFlow && !l.keyAllowed then
    c.fail "block sequence entries are not allowed in this context"
  else
    let l ← l.roll c.column none .blockSequenceStart c.line
    let l ← l.dropKey
    return { l with keyAllowed := true }.indicator 1 .blockEntry

def keyIndicator (l : Lexer) : Except Failure Lexer := do
  let c := l.cursor
  if !l.inFlow && !l.keyAllowed then c.fail "mapping keys are not allowed in this context"
  else
    let l ← l.roll c.column none .blockMappingStart c.line
    let l ← l.dropKey
    return { l with keyAllowed := !l.inFlow }.indicator 1 .key

/-- The indicator of a value. A candidate on the innermost level turns out to be a key. -/
def valueIndicator (l : Lexer) : Except Failure Lexer := do
  let c := l.cursor
  let k := l.currentKey
  if ← l.isCandidate k then
    let l := l.pushBefore k.token .key k.line
    let l ← l.roll k.column (some k.token) .blockMappingStart k.line
    let l := (l.setKey { k with possible := false }).forget k.token
    return { l with keyAllowed := false }.indicator 1 .value
  else
    let l := l.setKey { k with possible := false }
    if !l.inFlow && !l.keyAllowed then
      c.fail "mapping values are not allowed in this context"
    else
      let l ← l.roll c.column none .blockMappingStart c.line
      return { l with keyAllowed := !l.inFlow }.indicator 1 .value

def keyPart (l : Lexer) (kind : TokenKind) (after : Cursor) : Except Failure Lexer := do
  let l ← l.saveKey
  { { l with keyAllowed := false }.push kind l.cursor.line with cursor := after }.request 1

def anchor (l : Lexer) : Except Failure Lexer := do
  let (name, after) ← anchorName l.cursor
  l.keyPart (.anchor name) after

def aliasMark (l : Lexer) : Except Failure Lexer := do
  let (name, after) ← anchorName l.cursor
  l.keyPart (.aliasOf name) after

def tag (l : Lexer) : Except Failure Lexer := do
  let (handle, suffix, after) ← tagAt l.cursor
  l.keyPart (.tag handle suffix) after

def quoted (l : Lexer) (double : Bool) : Except Failure Lexer := do
  let (text, after) ← quotedScalar double l.cursor
  l.keyPart (.scalar false (textOf text)) after

/-- A plain scalar; a key may start after one that ends in a line end. -/
def plain (l : Lexer) : Except Failure Lexer := do
  let (text, after, broken) ← plainScalar l.inFlow l.indent l.cursor
  let l ← l.keyPart (.scalar true (textOf text)) after
  return { l with keyAllowed := broken }

def block (l : Lexer) (literal : Bool) : Except Failure Lexer := do
  let l ← l.dropKey
  let (text, after) ← blockScalar literal l.indent l.cursor
  let l := { l with keyAllowed := true }.push (.scalar false (textOf text)) l.cursor.line
  { l with cursor := after }.request 1

def startsPlain (flow : Bool) (x : Char) (rest : List Char) : Bool :=
  let indicators :=
    ['-', '?', ':', ',', '[', ']', '\x7b', '\x7d', '#', '&', '*', '!', '|', '>', '\x27', '"', '%', '@',
     '\x60']
  !(isGap x || indicators.contains x)
    || (x == '-' && !(match rest with | y :: _ => isBlank y | [] => false))
    || (!flow && (x == '?' || x == ':') && !startsGap rest)

def tokenAt (l : Lexer) (x : Char) (rest : List Char) : Except Failure Lexer :=
  let flow := l.inFlow
  if x == '[' then l.flowStart .flowSequenceStart
  else if x == '\x7b' then l.flowStart .flowMappingStart
  else if x == ']' then l.flowEnd .flowSequenceEnd
  else if x == '\x7d' then l.flowEnd .flowMappingEnd
  else if x == ',' then l.flowEntry
  else if x == '-' && startsGap rest then l.blockEntry
  else if x == '?' && (flow || startsGap rest) then l.keyIndicator
  else if x == ':' && (flow || startsGap rest) then l.valueIndicator
  else if x == '*' then l.aliasMark
  else if x == '&' then l.anchor
  else if x == '!' then l.tag
  else if x == '|' && !flow then l.block true
  else if x == '>' && !flow then l.block false
  else if x == '\x27' then l.quoted false
  else if x == '"' then l.quoted true
  else if startsPlain flow x rest then l.plain
  else l.cursor.fail "found character that cannot start any token"

def fetch (l : Lexer) : Except Failure Lexer := do
  let line := l.cursor.line
  let l ← skipToToken (l.cursor.size + 1) l
  let l ← (l.unroll l.cursor.column line).request 4
  let c := l.cursor
  match c.rest with
  | [] => l.streamEnd
  | x :: rest =>
    if c.column == 0 && x == '%' then l.directive
    else if c.atMarker '-' then l.documentMarker .documentStart
    else if c.atMarker '.' then l.documentMarker .documentEnd
    else
      let l ← l.tokenAt x rest
      return l.skipLineComment

/-- The first token of the queue can be taken: two more stand behind it, and it cannot turn out to be
the start of a key. -/
def isReady (l : Lexer) : Except Failure Bool :=
  if l.queue.length ≤ 2 then .ok false
  else
    match l.candidates.lookup l.taken with
    | none => .ok true
    | some level => do return !(← l.isCandidate (l.keyOfLevel level))

def fill : Nat → Lexer → Except Failure Lexer
  | 0, l => .ok l
  | fuel + 1, l => do
    if ← l.isReady then return l
    else fill fuel (← l.fetch)

/-- The lexer with a token to take. Each step takes a character of the text, or is at its end. -/
def ready (l : Lexer) : Except Failure Lexer := fill (l.cursor.size + 8) l

def drop (l : Lexer) : Lexer := { l with queue := l.queue.drop 1, taken := l.taken + 1 }

end Lexer

end Netscribe.Yaml
