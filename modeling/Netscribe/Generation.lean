import Netscribe.Emission.Node
import Netscribe.Naming.ClassName
import Netscribe.Naming.FileToken
import Netscribe.Operator.Catalog
import Netscribe.Source
import Netscribe.Telemetry.Hook

/-!
# Generation

A generation pass emits the nodes of a graph in order, looks up the symbols of its terminal tensors,
and gives a module or the first error. Each pass tells its hooks what it does: `trace` gives the
sequence of hooks together with the result. A pass that panics only ends its span.
-/

namespace Netscribe

/-- The settings of a generation pass. -/
structure Options where
  policy : Policy := .plain
  table : OperatorTable := .default
  /-- The class name to take instead of the graph's name, unless it is empty. -/
  className : String := ""
deriving Inhabited

namespace Generation

def defaultClassName : String := "Module"

def nodesEmitted : String := "torchgen.nodes.emitted"

def generateDuration : String := "torchgen.generate.duration"

def generateFailures : String := "torchgen.generate.failures"

def one : Binary64 := .ofInt 1

def className (o : Options) (g : Graph) : String :=
  Naming.className (if o.className.isEmpty then g.name else o.className) defaultClassName

/-- The class name of the module of a graph, where the class name of the options and the name of the
graph are given by their bytes and `identifier` makes identifiers of names. -/
def classNameBy (identifier : List UInt8 → List UInt8) (option name : List UInt8) : List UInt8 :=
  Naming.classNameBy identifier (if option.isEmpty then name else option)
    (Utf8.encode defaultClassName)

/-- What a pass has made so far. -/
structure Progress where
  state : EmissionState
  body : Module Assignment
deriving Inhabited

def Progress.initial (o : Options) (className : String) : Progress :=
  ⟨.initial, .empty className o.policy.name o.policy.importLines⟩

def Progress.step (o : Options) (p : Progress) (n : Node) :
    Except Halt (Progress × Route) := do
  let (state, emission) ← p.state.emit o.table o.policy n
  let body ← (p.body.add emission.init (some emission.use)).mapError fun e => .error (.rejected e)
  return (⟨state, body⟩, emission.route)

def nodeHooks (o : Options) (n : Node) (route : Route) : List Hook :=
  [.counter nodesEmitted one ["variant", o.policy.name, "dispatch", route.name],
   .log .debug "emitted node"
    [.text "node", .text n.name, .text "op", .text n.op.type, .text "dispatch", .text route.name]]

/-- The pass after the given nodes, with the hooks of those that were emitted. -/
def Progress.run (o : Options) (p : Progress) :
    List Node → List Hook × Except Halt Progress
  | [] => ([], .ok p)
  | n :: rest =>
    match p.step o n with
    | .error e => ([], .error e)
    | .ok (p, route) =>
      let (hooks, result) := p.run o rest
      (nodeHooks o n route ++ hooks, result)

def terminals (t : SymbolTable) : List String → Except EmissionError (List String)
  | [] => .ok []
  | tensor :: rest => do
    let name ← (t.lookup tensor).mapError fun e => .inOutputs (.missingProducer e)
    return name :: (← terminals t rest)

def Progress.finish (g : Graph) (p : Progress) : Except EmissionError (Module Assignment) := do
  let outputs ← (nonEmpty g.outputs "terminal outputs" "").mapError .emptySequence
  let returns ← terminals p.state.symbols outputs
  return { p.body with returns := some returns }

def durationHook (o : Options) : Hook :=
  .timer generateDuration ["variant", o.policy.name]

def successHooks (o : Options) (g : Graph) (m : Module Assignment) : List Hook :=
  [.spanStatus .ok "",
   .log .info "generated module"
    [.text "graph", .text g.name, .text "class", .text m.className,
     .text "variant", .text o.policy.name, .text "nodes", .int g.nodes.length]]

def failureHooks (o : Options) (g : Graph) (e : EmissionError) : List Hook :=
  [.spanError e.message,
   .spanStatus .error e.message,
   .counter generateFailures one ["variant", o.policy.name],
   .log .error "generation failed"
    [.text "graph", .text g.name, .text "variant", .text o.policy.name,
     .text "err", .error e.message]]

/-- The hooks that follow the nodes: the duration and the result. A panic leaves them out. -/
def resultHooks (o : Options) (g : Graph) : Except Halt (Module Assignment) → List Hook
  | .ok m => durationHook o :: successHooks o g m
  | .error (.error e) => durationHook o :: failureHooks o g e
  | .error (.panic _) => []

def startHook (o : Options) (g : Graph) : Hook :=
  .spanStart "torchgen.generate"
    [("torchgen.graph", .text g.name), ("torchgen.variant", .text o.policy.name)]

/-- A generation pass over a graph under a class name: its hooks in order, and how it ends. -/
def traceAs (o : Options) (className : String) (g : Graph) :
    List Hook × Except Halt (Module Assignment) :=
  let (hooks, progress) := (Progress.initial o className).run o g.nodes
  let result := progress.bind fun p => (p.finish g).mapError .error
  (startHook o g :: hooks ++ resultHooks o g result ++ [.spanEnd], result)

def trace (o : Options) (g : Graph) : List Hook × Except Halt (Module Assignment) :=
  traceAs o (className o g) g

def build (o : Options) (g : Graph) : Except Halt (Module Assignment) := (trace o g).2

/-- The module of a graph under a name and a class name of the options that are any bytes, in place of
the texts in `g` and `o`; `identifier` makes identifiers of names. -/
def buildBy (identifier : List UInt8 → List UInt8) (option name : List UInt8) (o : Options)
    (g : Graph) : Except Halt (Module Assignment) :=
  (traceAs o (Utf8.text (classNameBy identifier option name)) g).2

def hooks (o : Options) (g : Graph) : List Hook := (trace o g).1

def generate (o : Options) (g : Graph) : Except Halt String :=
  (build o g).map fun m => (m.map Assignment.text).source

def defaultPath (g : Graph) : String := Naming.defaultPath (Utf8.encode g.name)

end Generation

end Netscribe
