import Netscribe.Proofs.Generation

/-!
# The graphs that have a module

A pass checks each node against the symbol table and the statements made so far. Taken together these
checks are conditions on the whole graph: outputs and indices that are all different, inputs that are
produced at or before the node that takes them, and what each operator asks of its node.
-/

namespace Netscribe.Generation

end Netscribe.Generation
