import Netscribe.Text.Quoted

/-!
# Flags

The arguments of the command line set flags. A flag is written with one dash or two; a text follows
its flag as the next argument or after an equals sign, and a switch may have a truth value after an
equals sign. The first argument that is no flag ends them, as two dashes alone do.
-/

namespace Netscribe.CommandLine

inductive TextFlag where
  | className
  | config
  | graph
  | output
  | variant
deriving DecidableEq, Inhabited, Repr

inductive Switch where
  | debug
  | json
deriving DecidableEq, Inhabited, Repr

inductive Flag where
  | text (f : TextFlag)
  | switch (s : Switch)
deriving DecidableEq, Inhabited, Repr

namespace Flag

/-- All flags in the order of their names. -/
def all : List Flag :=
  [.text .className, .text .config, .switch .debug, .text .graph, .switch .json, .text .output,
   .text .variant]

def name : Flag → String
  | text .className => "class"
  | text .config => "config"
  | text .graph => "graph"
  | text .output => "out"
  | text .variant => "variant"
  | switch .debug => "debug"
  | switch .json => "json"

def description : Flag → String
  | text .className => "Generated class name, defaults to the graph name"
  | text .config => "Path of the YAML configuration file"
  | text .graph => "Path of the YAML graph description (required)"
  | text .output => "Output file, defaults to a name derived from the graph name"
  | text .variant => "Emission variant (plain or quant), overrides the configuration"
  | switch .debug => "Log every emitted node"
  | switch .json => "Force JSON logs"

/-- The kind of value that a flag takes, as the usage shows it. -/
def valueKind : Flag → String
  | text _ => " string"
  | switch _ => ""

def ofName? (name : String) : Option Flag := all.find? (·.name == name)

end Flag

/-- The lines that explain the use of the program. -/
def usage (program : String) : List String :=
  s!"Usage: {program} -graph FILE [options]" :: "" :: Flag.all.flatMap fun f =>
    [s!"  -{f.name}{f.valueKind}", s!"    \t{f.description}"]

/-! ### Arguments -/

inductive Argument where
  /-- No flag, or the mark that ends the flags. -/
  | last
  | malformed
  | flag (name : String) (value : Option String)
deriving DecidableEq, Inhabited, Repr

namespace Argument

/-- What stands after the dashes of a flag. -/
def ofBody : List Char → Argument
  | [] => malformed
  | c :: rest =>
    if c = '-' ∨ c = '=' then malformed
    else
      let value := match rest.dropWhile (· != '=') with
        | [] => none
        | _ :: value => some (String.ofList value)
      flag (String.ofList (c :: rest.takeWhile (· != '='))) value

def ofText (s : String) : Argument :=
  match s.toList with
  | ['-', '-'] => last
  | '-' :: '-' :: body => ofBody body
  | '-' :: c :: body => ofBody (c :: body)
  | _ => last

end Argument

def truth? (s : String) : Option Bool :=
  if s ∈ ["1", "t", "T", "true", "TRUE", "True"] then some true
  else if s ∈ ["0", "f", "F", "false", "FALSE", "False"] then some false
  else none

/-! ### Flags -/

structure Flags where
  className : String := ""
  config : String := ""
  graph : String := ""
  output : String := ""
  variant : String := ""
  debug : Bool := false
  json : Bool := false
deriving DecidableEq, Inhabited, Repr

namespace Flags

inductive Refusal where
  | malformed (argument : String)
  | unknown (name : String)
  | noValue (name : String)
  | noTruth (name value : String)
  | help
deriving DecidableEq, Inhabited, Repr

def Refusal.message? : Refusal → Option String
  | malformed argument => some s!"bad flag syntax: {argument}"
  | unknown name => some s!"flag provided but not defined: -{name}"
  | noValue name => some s!"flag needs an argument: -{name}"
  | noTruth name value => some s!"invalid boolean value {quoted value} for -{name}: parse error"
  | help => none

def setText (f : Flags) (flag : TextFlag) (value : String) : Flags :=
  match flag with
  | .className => { f with className := value }
  | .config => { f with config := value }
  | .graph => { f with graph := value }
  | .output => { f with output := value }
  | .variant => { f with variant := value }

def setSwitch (f : Flags) (s : Switch) (value : Bool) : Flags :=
  match s with
  | .debug => { f with debug := value }
  | .json => { f with json := value }

def setAll (f : Flags) : List String → Except Refusal Flags
  | [] => .ok f
  | argument :: rest =>
    match Argument.ofText argument with
    | .last => .ok f
    | .malformed => .error (.malformed argument)
    | .flag name value =>
      match Flag.ofName? name with
      | none => .error (if name = "help" ∨ name = "h" then .help else .unknown name)
      | some (.switch s) =>
        match value with
        | none => setAll (f.setSwitch s true) rest
        | some value =>
          match truth? value with
          | some b => setAll (f.setSwitch s b) rest
          | none => .error (.noTruth name value)
      | some (.text flag) =>
        match value, rest with
        | some value, rest => setAll (f.setText flag value) rest
        | none, value :: rest => setAll (f.setText flag value) rest
        | none, [] => .error (.noValue name)

def ofArguments (arguments : List String) : Except Refusal Flags := setAll {} arguments

end Flags

end Netscribe.CommandLine
