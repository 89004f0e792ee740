import Netscribe.CommandLine.Flag
import Netscribe.Delivery
import Netscribe.Loading

/-!
# Plans

A run of the program reads a configuration and a graph, and writes one file at most. `plan` says what
a run does up to that point, and `Plan.carryOut` does it on a file tree. Flags that are given win over
the configuration, which is checked on its own before.
-/

namespace Netscribe.CommandLine

/-- What a run depends on besides its arguments and files. -/
structure Setting where
  program : String
  run : String
  terminal : Bool
deriving DecidableEq, Inhabited, Repr

/-- What a run leaves besides its files. -/
structure Report where
  exitCode : Nat
  format : Entry.Format
  log : List Entry
  notices : List String
deriving DecidableEq, Inhabited, Repr

/-- What a run does. -/
inductive Plan where
  | done (r : Report)
  | write (path : String) (content : List UInt8)
    (finish : Except FileTree.ReplaceError Unit → Report)

/-- The first text, unless it is empty. -/
def orElse (s default : String) : String := if s.isEmpty then default else s

/-- The configuration with what the flags say in place of its own. -/
def Flags.applyTo (f : Flags) (c : Config) : Config where
  variant := orElse f.variant c.variant
  output := orElse f.output c.output
  className := orElse f.className c.className
  quant := c.quant
  log := ⟨if f.json then "json" else c.log.format, c.log.debug || f.debug⟩

def logFormat (s : Setting) (c : Config) : Entry.Format :=
  if c.log.format = "terminal" ∨ (c.log.format = "" ∧ s.terminal) then .terminal else .json

/-- A log in progress: how it is written, its journal, and the entries written so far. -/
structure Log where
  format : Entry.Format
  journal : Journal
  written : List Entry
deriving Inhabited

namespace Log

def start (s : Setting) (c : Config) : Log :=
  let (j, entries) := (Journal.start c.log.debug).log .debug "debug logs enabled" []
  ⟨logFormat s c, j.forRun s.run, entries⟩

def announce (l : Log) (g : Graph) (variant out : String) : Log :=
  let entries := l.journal.print .info
    [("graph", .text g.name), ("variant", .text variant), ("out", .text out)]
  { l with written := l.written ++ entries }

def follow (l : Log) (hooks : List Hook) : Log :=
  let (j, entries) := l.journal.follow hooks
  { l with journal := j, written := l.written ++ entries }

def fail (l : Log) (error message : String) : Report :=
  let (_, entries) := l.journal.record .error [("err", .text error), ("msg", .text message)]
  ⟨1, l.format, l.written ++ entries, []⟩

/-- The report of a run that panics, without the trace of its calls. Entries that the journal holds back
are lost. -/
def crash (l : Log) (message : String) : Report :=
  ⟨2, l.format, l.written, [(Halt.panic message).text]⟩

def succeed (l : Log) (path : String) (content : List UInt8) : Report :=
  let l := l.follow [Delivery.writtenHook path content]
  ⟨0, l.format, l.written, []⟩

end Log

def refuse (s : Setting) (r : Flags.Refusal) : Report :=
  match r.message? with
  | none => ⟨0, .json, [], usage s.program⟩
  | some message => ⟨2, .json, [], message :: usage s.program⟩

/-- The configuration that the flags name, or the default one. -/
def configOf (read : String → Except FileTree.Fault (List UInt8)) (f : Flags) :
    Except Config.LoadError Config :=
  if f.config.isEmpty then .ok {} else Config.load f.config (read f.config)

def planGraph (l : Log) (c : Config) (p : Policy) (g : Graph) : Plan :=
  let out := orElse c.output (Generation.defaultPath g)
  let o : Options := ⟨p, .default, c.className⟩
  let l := (l.announce g p.name out).follow (Generation.hooks o g)
  let failure (error : String) : Report := l.fail error s!"failed to generate {out}"
  match Delivery.content o g with
  | .error (.error e) => .done (failure e.message)
  | .error (.panic message) => .done (l.crash message)
  | .ok content =>
    .write out content fun
      | .error e => failure e.message
      | .ok () => l.succeed out content

def planConfig (s : Setting) (read : String → Except FileTree.Fault (List UInt8)) (c : Config)
    (graph : String) : Plan :=
  let l := Log.start s c
  if graph.isEmpty then .done ⟨2, l.format, l.written, usage s.program⟩
  else
    match c.policy with
    | .error r => .done (l.fail r.message "invalid configuration")
    | .ok p =>
      match Graph.load graph (read graph) with
      | .error e => .done (l.fail (Graph.LoadError.message e) s!"failed to load graph {graph}")
      | .ok g => planGraph l c p g

def planFlags (s : Setting) (read : String → Except FileTree.Fault (List UInt8)) (f : Flags) :
    Plan :=
  match configOf read f with
  | .error e => .done ⟨1, .json, [], [Config.LoadError.message e]⟩
  | .ok c => planConfig s read (f.applyTo c) f.graph

/-- The plan for the arguments of the program, with what files hold. -/
def plan (s : Setting) (read : String → Except FileTree.Fault (List UInt8))
    (arguments : List String) : Plan :=
  match Flags.ofArguments arguments with
  | .error r => .done (refuse s r)
  | .ok f => planFlags s read f

/-- Carries out a plan on a file tree. -/
def Plan.carryOut (t : FileTree) (numbers : List Nat) : Plan → FileTree × Report
  | done r => (t, r)
  | write path content finish =>
    let (t, result) := t.replace numbers path content
    (t, finish result)

/-- A run of the program on a file tree. -/
def run (s : Setting) (t : FileTree) (numbers : List Nat) (arguments : List String) :
    FileTree × Report :=
  (plan s t.read arguments).carryOut t numbers

end Netscribe.CommandLine
