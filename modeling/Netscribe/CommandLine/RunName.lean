import Netscribe.Text.Quoted

/-!
# Names of runs

A run has a name of its own, made from random numbers, so that its log entries can be told from those
of other runs.
-/

namespace Netscribe.CommandLine

/-- The name of the run with five random numbers: groups of eight, four, four, four and twelve
hexadecimal digits, of which two mark the name as a random one. -/
def runName (a b c d e : Nat) : String :=
  let version := 4 * 4096 + c % 4096
  let variant := 2 * 16384 + d % 16384
  let groups := [Quoted.hex 8 a, Quoted.hex 4 b, Quoted.hex 4 version, Quoted.hex 4 variant,
    Quoted.hex 12 e]
  String.ofList (List.intercalate ['-'] groups)

end Netscribe.CommandLine
