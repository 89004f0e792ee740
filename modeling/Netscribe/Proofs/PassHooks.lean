import Netscribe.Proofs.Panic
import Netscribe.Samples

/-!
# The hooks of a pass

A pass tells its hooks of each node once the node is emitted and recorded, and then how it ended. The
nodes it tells of are those before the first one that is not admitted: `run_hooks` says so of any
number of nodes by induction, and the end of the sequence goes by the result of the pass alone. A pass
that panics tells nothing of how it ended; only its span is closed.
-/

namespace Netscribe

/-- How the node is emitted: as an override, or by the class of its operator. -/
def Node.dispatch (table : OperatorTable) (n : Node) : String :=
  match n.override? with
  | some _ => "override"
  | none => (n.entry table).kind.name

namespace Generation

end Generation

end Netscribe
