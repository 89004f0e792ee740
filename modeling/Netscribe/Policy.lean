import Netscribe.Operator.Quantization
import Netscribe.Operator.Table

/-!
# Emission policies

A policy tells the variants of generated modules apart: which imports they have, whether operators
without state are called directly or bound to submodules, and which callee constructs a submodule.
-/

namespace Netscribe

inductive Dispatch where
  | direct
  | submodule
deriving DecidableEq, Inhabited, Repr

def Dispatch.name : Dispatch → String
  | direct => "direct"
  | submodule => "submodule"

/-- What distinguishes a variant of generated modules. -/
structure Policy where
  name : String
  imports : List String
  dispatch : Dispatch
  /-- The callee that constructs the submodule of an operator type, instead of the table's. -/
  replacements : List (String × String)
  /-- The callee for types without a replacement, or empty; it takes the operator type first. -/
  fallback : String
deriving Inhabited, Repr

namespace Policy

/-- The entries of `base`, and those of `changes` in place of entries of the same key. -/
def merge (base changes : List (String × String)) : List (String × String) :=
  (base.filter fun e => (changes.lookup e.1).isNone) ++ changes

def plain : Policy := ⟨"plain", [], .direct, [], ""⟩

/-- Quantization-aware modules; `modules` are replacements over the default ones. -/
def quant (modules : List (String × String)) : Policy :=
  ⟨"quant", [Quantization.runtimeImport], .submodule, merge Quantization.modules modules,
    Quantization.fallbackModule⟩

structure UnknownVariant where
  variant : String
deriving Repr

def UnknownVariant.message (e : UnknownVariant) : String :=
  s!"unknown variant {quoted e.variant}, expected \"plain\" or \"quant\""

/-- The policy of a variant, the plain one for an empty name. -/
def ofVariant (variant : String) : Except UnknownVariant Policy :=
  if variant = "plain" ∨ variant = "" then .ok plain
  else if variant = "quant" then .ok (quant [])
  else .error ⟨variant⟩

def importLines (p : Policy) : List String := "import torch" :: p.imports

/-- The callee that constructs the submodule of an operator. -/
structure Constructor where
  callee : String
  /-- The callee is the fallback, which takes the operator type as its first argument. -/
  wrapper : Bool
deriving DecidableEq, Repr

/-- The constructor of the submodule of an operator: the replacement of its type, else the fallback,
else the callee of the table. -/
def constructor (p : Policy) (type : String) (e : OperatorEntry) : Constructor :=
  match p.replacements.lookup type with
  | some callee => ⟨callee, false⟩
  | none => if p.fallback.isEmpty then ⟨e.callee, false⟩ else ⟨p.fallback, true⟩

end Policy

end Netscribe
