import Netscribe.Policy
import Netscribe.Yaml.Mapping

/-!
# Configurations

A configuration chooses the variant of generated modules, the output and the class name, and how to
log. It is read from a document over the defaults; keys that it does not know are refused.
-/

namespace Netscribe

open Yaml (RecordType)

structure Config.Quant where
  runtimeImport : String := Quantization.runtimeImport
  fallbackModule : String := Quantization.fallbackModule
  modules : List (String × String) := []
deriving DecidableEq, Inhabited, Repr

structure Config.Log where
  /-- The format, empty to look whether there is a terminal. -/
  format : String := ""
  debug : Bool := false
deriving DecidableEq, Inhabited, Repr

/-- A configuration. -/
structure Config where
  variant : String := "plain"
  /-- The path of the output, empty for the one made from the graph's name. -/
  output : String := ""
  className : String := ""
  quant : Config.Quant := {}
  log : Config.Log := {}
deriving DecidableEq, Inhabited, Repr

namespace Config

inductive Rejection where
  | variant (name : String)
  | logFormat (name : String)
  | noRuntimeImport
  | noFallbackModule
deriving DecidableEq, Repr

def Rejection.message : Rejection → String
  | variant name => s!"invalid variant {quoted name}, expected \"plain\" or \"quant\""
  | logFormat name => s!"invalid log format {quoted name}, expected \"terminal\" or \"json\""
  | noRuntimeImport => "quant.runtime_import can not be empty"
  | noFallbackModule => "quant.fallback_module can not be empty"

def validate (c : Config) : Except Rejection Unit :=
  if c.variant ≠ "plain" ∧ c.variant ≠ "quant" then .error (.variant c.variant)
  else if c.log.format ≠ "" ∧ c.log.format ≠ "terminal" ∧ c.log.format ≠ "json" then
    .error (.logFormat c.log.format)
  else if c.variant = "quant" ∧ c.quant.runtimeImport = "" then .error .noRuntimeImport
  else if c.variant = "quant" ∧ c.quant.fallbackModule = "" then .error .noFallbackModule
  else .ok ()

def policy (c : Config) : Except Rejection Policy := do
  c.validate
  if c.variant = "quant" then
    return { Policy.quant c.quant.modules with
      imports := [c.quant.runtimeImport], fallback := c.quant.fallbackModule }
  else return .plain

/-! ### Documents -/

def quantRecord : RecordType Quant where
  name := "config.Quant"
  strict := true
  fields :=
    [("runtime_import", Yaml.Node.field Yaml.Node.asText fun q s => { q with runtimeImport := s }),
     ("fallback_module", Yaml.Node.field Yaml.Node.asText fun q s => { q with fallbackModule := s }),
     ("modules", Yaml.Node.field Yaml.Node.asTextMap fun q m => { q with modules := m })]

def logRecord : RecordType Log where
  name := "config.Log"
  strict := true
  fields :=
    [("format", Yaml.Node.field Yaml.Node.asText fun l s => { l with format := s }),
     ("debug", Yaml.Node.field Yaml.Node.asBool fun l b => { l with debug := b })]

def record : RecordType Config where
  name := "config.Config"
  strict := true
  fields :=
    [("variant", Yaml.Node.field Yaml.Node.asText fun c s => { c with variant := s }),
     ("output", Yaml.Node.field Yaml.Node.asText fun c s => { c with output := s }),
     ("class_name", Yaml.Node.field Yaml.Node.asText fun c s => { c with className := s }),
     ("quant", fun behind n c => do return { c with quant := ← quantRecord.read behind n c.quant }),
     ("log", fun behind n c => do return { c with log := ← logRecord.read behind n c.log })]

inductive DecodeError where
  | unreadable (e : Yaml.Error)
  | rejected (r : Rejection)
deriving DecidableEq, Repr

def DecodeError.message : DecodeError → String
  | unreadable e => s!"decode config: {e.message}"
  | rejected r => r.message

/-- The configuration of a document over the defaults, without a look at its values. -/
def ofNode (n : Option Yaml.Node) : Except Yaml.Error Config :=
  match n with
  | none => .ok {}
  | some n => Yaml.Decoding.run do
    Yaml.Decoding.visit false
    record.read false n {}

/-- The number of records and maps inside each other, the configuration included. Cycles are not
followed any deeper. -/
def depth : Nat := 3

def decode (bytes : List UInt8) : Except DecodeError Config := do
  let t ← (Yaml.parse bytes).mapError fun f => .unreadable (.failure f)
  let c ← (ofNode (t.map (·.unfolded depth))).mapError .unreadable
  c.validate.mapError .rejected
  return c

end Config

end Netscribe
