import Netscribe.Yaml.Token

/-!
# Scalar tokens

Plain scalars, quoted scalars and block scalars. Plain and quoted scalars are words with gaps between
them. A gap within a line is kept, and a gap over lines is folded: one line end becomes a blank, and
each further one stays.
-/

namespace Netscribe.Yaml

/-! ### Gaps -/

/-- A gap between two words. -/
structure Gap where
  blanks : List Char
  broken : Bool
  /-- The first line end, unless it was escaped. -/
  first : Option Char
  more : List Char
  cursor : Cursor

namespace Gap

/-- The empty gap at a place; an escaped line end may stand before it. -/
def empty (broken : Bool) (c : Cursor) : Gap := ⟨[], broken, none, [], c⟩

def text (g : Gap) : List Char :=
  if g.broken then
    match g.first with
    | some '\n' => if g.more.isEmpty then [' '] else g.more
    | some x => x :: g.more
    | none => g.more
  else g.blanks

def blank (g : Gap) (x : Char) : Gap :=
  { g with
    blanks := if g.broken then g.blanks else g.blanks ++ [x]
    cursor := g.cursor.advance 1 }

def lineEnd (g : Gap) (x : Char) : Gap :=
  if g.broken then { g with more := g.more ++ [breakText x], cursor := g.cursor.nextLine }
  else { g with broken := true, first := some (breakText x), cursor := g.cursor.nextLine }

/-- Extends a gap as far as it goes. A tab may not stand before column `indent` of a further line. -/
def extend (indent : Int) : Nat → Gap → Except Failure Gap
  | 0, g => .ok g
  | fuel + 1, g =>
    match g.cursor.rest with
    | [] => .ok g
    | x :: _ =>
      if isBlank x then
        if g.broken && decide ((g.cursor.column : Int) < indent) && x == '\t' then
          g.cursor.fail "found a tab character that violates indentation"
        else extend indent fuel (g.blank x)
      else if isBreak x then extend indent fuel (g.lineEnd x)
      else .ok g

def scan (indent : Int) (broken : Bool) (c : Cursor) : Except Failure Gap :=
  extend indent c.size (empty broken c)

end Gap

/-! ### Plain scalars -/

/-- The character `x`, followed by `rest`, ends a plain scalar: a value indicator, or an indicator of
the flow style inside of it. -/
def endsPlain (flow : Bool) (x : Char) (rest : List Char) : Bool :=
  (x == ':' && startsGap rest) || (flow && [',', '?', '[', ']', '\x7b', '\x7d'].contains x)

def plainWord (flow : Bool) : List Char → List Char
  | [] => []
  | x :: rest =>
    if isGap x || endsPlain flow x rest then [] else x :: plainWord flow rest

/-- A plain scalar: its text, the place after it and the gap that follows it, and whether that gap
goes over a line end. `gap` stands before the next word. -/
def plainFrom (flow : Bool) (indent : Int) :
    Nat → List Char → Gap → Except Failure (List Char × Cursor × Bool)
  | 0, text, gap => .ok (text, gap.cursor, gap.broken)
  | fuel + 1, text, gap =>
    let c := gap.cursor
    if c.atDocumentMarker || c.isAt '#' then .ok (text, c, gap.broken)
    else
      let word := plainWord flow c.rest
      if word.isEmpty then .ok (text, c, gap.broken)
      else
        let text := text ++ gap.text ++ word
        let c := c.advance word.length
        if c.atClass isGap then do
          let gap ← Gap.scan indent false c
          if !flow && decide ((gap.cursor.column : Int) < indent) then
            return (text, gap.cursor, gap.broken)
          plainFrom flow indent fuel text gap
        else .ok (text, c, false)

def plainScalar (flow : Bool) (indent : Int) (c : Cursor) :
    Except Failure (List Char × Cursor × Bool) :=
  plainFrom flow (indent + 1) (c.size + 1) [] (.empty false c)

/-! ### Quoted scalars -/

def hexNumber? : List Char → Option Nat :=
  let digit? (x : Char) : Option Nat :=
    if x.isDigit then some (x.toNat - 48)
    else if 'a' ≤ x ∧ x ≤ 'f' then some (x.toNat - 87)
    else if 'A' ≤ x ∧ x ≤ 'F' then some (x.toNat - 55)
    else none
  List.foldl (fun n x => do return (← n) * 16 + (← digit? x)) (some 0)

def letterEscapes : List (Char × Nat) :=
  [('0', 0), ('a', 7), ('b', 8), ('t', 9), ('\t', 9), ('n', 10), ('v', 11), ('f', 12), ('r', 13),
   ('e', 27), (' ', 32), ('"', 34), ('\x27', 39), ('\\', 92), ('N', 0x85), ('_', 0xA0),
   ('L', 0x2028), ('P', 0x2029)]

def numericEscapes : List (Char × Nat) := [('x', 2), ('u', 4), ('U', 8)]

/-- The character that an escape stands for, and the length of the escape after its backslash. -/
def escape? : List Char → Option (Char × Nat)
  | [] => none
  | x :: rest =>
    match letterEscapes.lookup x, numericEscapes.lookup x with
    | some n, _ => some (Char.ofNat n, 1)
    | none, some count =>
      let digits := rest.take count
      match hexNumber? digits with
      | some n =>
        if digits.length = count ∧ (n < 0xD800 ∨ (0xDFFF < n ∧ n ≤ 0x10FFFF)) then
          some (Char.ofNat n, count + 1)
        else none
      | none => none
    | none, none => none

/-- The word of a quoted scalar at a place: its characters, the place after it, and whether it ends in
an escaped line end. -/
def quotedWord (double : Bool) : Nat → List Char → Cursor → Except Failure (List Char × Cursor × Bool)
  | 0, word, c => .ok (word, c, false)
  | fuel + 1, word, c =>
    match c.rest with
    | [] => .ok (word, c, false)
    | x :: rest =>
      if isGap x then .ok (word, c, false)
      else if double then
        if x == '"' then .ok (word, c, false)
        else if x == '\\' then
          match rest with
          | y :: _ =>
            if isBreak y then .ok (word, (c.advance 1).nextLine, true)
            else
              match escape? rest with
              | some (e, n) => quotedWord double fuel (word ++ [e]) (c.advance (n + 1))
              | none => c.fail "found an invalid escape sequence"
          | [] => c.fail "found an invalid escape sequence"
        else quotedWord double fuel (word ++ [x]) (c.advance 1)
      else if x == '\x27' then
        match rest with
        | '\x27' :: _ => quotedWord double fuel (word ++ ['\x27']) (c.advance 2)
        | _ => .ok (word, c, false)
      else quotedWord double fuel (word ++ [x]) (c.advance 1)

def quoteChar (double : Bool) : Char := if double then '"' else '\x27'

/-- A quoted scalar from a place inside it: its text and the place after the closing quote. -/
def quotedFrom (double : Bool) : Nat → List Char → Cursor → Except Failure (List Char × Cursor)
  | 0, _, c => c.fail "found unexpected end of stream"
  | fuel + 1, text, c => do
    if c.atDocumentMarker then c.fail "found unexpected document indicator"
    else if c.rest.isEmpty then c.fail "found unexpected end of stream"
    else
      let (word, c, broken) ← quotedWord double c.size [] c
      let text := text ++ word
      if c.isAt (quoteChar double) then return (text, c.advance 1)
      let gap ← Gap.scan 0 broken c
      quotedFrom double fuel (text ++ gap.text) gap.cursor

def quotedScalar (double : Bool) (c : Cursor) : Except Failure (List Char × Cursor) :=
  quotedFrom double (c.size + 1) [] (c.advance 1)

/-! ### Block scalars -/

inductive Chomping where
  | clip
  | strip
  | keep
deriving DecidableEq, Repr

def chomping? : Option Char → Option Chomping
  | some '+' => some .keep
  | some '-' => some .strip
  | _ => none

/-- The indicators of a block scalar: chomping and indentation in either order. -/
def blockHeader (c : Cursor) : Except Failure (Chomping × Nat × Cursor) :=
  let digit (c : Cursor) : Except Failure (Nat × Cursor) :=
    match c.head? with
    | some x =>
      if x == '0' then c.fail "found an indentation indicator equal to 0"
      else if x.isDigit then .ok (x.toNat - 48, c.advance 1)
      else .ok (0, c)
    | none => .ok (0, c)
  match chomping? c.head? with
  | some ch => do
    let (n, c) ← digit (c.advance 1)
    return (ch, n, c)
  | none => do
    let (n, c) ← digit c
    match n, chomping? c.head? with
    | 0, _ => return (.clip, 0, c)
    | n, some ch => return (ch, n, c.advance 1)
    | n, none => return (.clip, n, c)

def blockHeaderEnd (c : Cursor) : Except Failure Cursor :=
  let c := c.skipWhile isBlank
  let c := if c.isAt '#' then c.skipWhile (fun x => !isBreak x) else c
  if c.rest.isEmpty then .ok c
  else if c.atLineEnd then .ok c.nextLine
  else c.fail "did not find expected comment or line break"

/-- Indentation and empty lines: the line ends, the deepest indentation seen, and the place before
the content of the next line. Indentation ends at column `indent` unless that is zero. -/
def blockBreaks (indent : Nat) :
    Nat → Nat → List Char → Cursor → Except Failure (Nat × List Char × Cursor)
  | 0, deepest, breaks, c => .ok (deepest, breaks, c)
  | fuel + 1, deepest, breaks, c =>
    let blanks := (c.rest.takeWhile (· == ' ')).length
    let c := c.advance (if indent = 0 then blanks else min blanks (indent - c.column))
    let deepest := max deepest c.column
    if (indent == 0 || decide (c.column < indent)) && c.isAt '\t' then
      c.fail "found a tab character where an indentation space is expected"
    else
      match c.rest with
      | x :: _ =>
        if isBreak x then blockBreaks indent fuel deepest (breaks ++ [breakText x]) c.nextLine
        else .ok (deepest, breaks, c)
      | [] => .ok (deepest, breaks, c)

/-- What has been read of a block scalar. -/
structure BlockText where
  text : List Char
  leading : List Char
  trailing : List Char
  afterBlank : Bool

/-- The text of a block scalar before its next line, which starts with a blank or not. The line end
between two lines that start with no blank is folded in the folded style. -/
def BlockText.joined (literal : Bool) (b : BlockText) (blank : Bool) : List Char :=
  let folds := !literal && !b.afterBlank && !blank && b.leading == ['\n']
  let between := if folds then (if b.trailing.isEmpty then [' '] else []) else b.leading
  b.text ++ between ++ b.trailing

def blockLines (literal : Bool) (indent : Nat) :
    Nat → BlockText → Cursor → Except Failure (BlockText × Cursor)
  | 0, b, c => .ok (b, c)
  | fuel + 1, b, c =>
    if c.column == indent && !c.rest.isEmpty then do
      let blank := c.atClass isBlank
      let (line, c) := c.takeWhile fun x => !isBreak x
      let text := b.joined literal blank ++ line
      let (leading, c) := match c.rest with
        | x :: _ => ([breakText x], c.nextLine)
        | [] => ([], c)
      let (_, trailing, c) ← blockBreaks indent (c.size + 1) 0 [] c
      blockLines literal indent fuel ⟨text, leading, trailing, blank⟩ c
    else .ok (b, c)

def blockScalar (literal : Bool) (indent : Int) (c : Cursor) :
    Except Failure (List Char × Cursor) := do
  let (chomping, increment, c) ← blockHeader (c.advance 1)
  let c ← blockHeaderEnd c
  let given := if increment = 0 then 0 else (max indent 0).toNat + increment
  let (deepest, trailing, c) ← blockBreaks given (c.size + 1) 0 [] c
  let column := if given = 0 then max (max deepest (indent + 1).toNat) 1 else given
  let (b, c) ← blockLines literal column (c.size + 1) ⟨[], [], trailing, false⟩ c
  let ending := match chomping with
    | .strip => []
    | .clip => b.leading
    | .keep => b.leading ++ b.trailing
  return (b.text ++ ending, c)

end Netscribe.Yaml
