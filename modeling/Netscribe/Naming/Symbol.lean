import Netscribe.Number.Decimal

/-!
# Generated names

The attributes of a generated module are named after node indices: `self.module_3` is the submodule
of node 3, `self.output_module_3` its sole output, and `self.output_module_3_1` its second output
when it has several.
-/

namespace Netscribe.Naming

def moduleName (index : Int) : String := "module_" ++ decimalText index

def submodule (index : Int) : String := "self." ++ moduleName index

def outputName (index : Int) : String := "self.output_" ++ moduleName index

def outputNameAt (index ordinal : Int) : String :=
  outputName index ++ "_" ++ decimalText ordinal

/-- The symbols of the outputs of a node: a sole output carries no ordinal. -/
def outputNames (index : Int) (count : Nat) : List String :=
  if count = 1 then [outputName index] else (List.range count).map fun (k : Nat) => outputNameAt index k

end Netscribe.Naming
