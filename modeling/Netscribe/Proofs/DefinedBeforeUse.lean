import Netscribe.Proofs.Generation
import Netscribe.Samples

/-!
# Definition before use in the forward method

The outputs of a node are named before its inputs are looked up. So every symbol that a forward
statement reads is assigned by an earlier statement or by the statement itself, and it is assigned by
an earlier one in every case exactly if the node mentions none of its own outputs.
-/

namespace Netscribe.Generation

/-- The use statement of a node mentions an output of the node itself. -/
def ReadsItself (o : Options) (n : Node) : Prop := ∃ x ∈ n.reads o.table, x ∈ n.outputs

/-- The forward statement of the node at a position reads the symbols of the tensors that the node
mentions, under the table of the nodes up to it. -/
theorem mem_forward_symbols (o : Options) (g : Graph) (h : AdmitsAll o [] g.nodes) (k : Nat)
    (n : Node) (hk : g.nodes[k]? = some n) (x : Symbol) :
    x ∈ (emission o (g.nodes.take k) n).use.code.rhs.symbols ↔
      x ∈ (SymbolTable.ofNodes (g.nodes.take (k + 1))).symbolsOf (n.reads o.table) := by
  have hadmits := (admitsAll_iff o [] g.nodes).mp h k n hk
  rw [List.nil_append] at hadmits
  have he := hadmits.emittable
  rw [← SymbolTable.ofNodes_has] at he
  rw [← take_append_node g.nodes k n hk]
  exact Emission.form_use_symbols o.table o.policy _ _ n n.outputNames he x

/-- A forward statement reads only what is assigned up to it, and only what is assigned before it
exactly if its node does not read itself. -/
theorem forward_reads_earlier_iff_not_readsItself (o : Options) (g : Graph) (m : Module Assignment)
    (h : build o g = .ok m) (k : Nat) (n : Node) (hk : g.nodes[k]? = some n) :
    ∃ s, m.forwards[k]? = some s ∧
      (∀ x ∈ s.code.rhs.symbols, ∃ j, j ≤ k ∧ AssignsAt g m j x) ∧
      ((∀ x ∈ s.code.rhs.symbols, ∃ j, j < k ∧ AssignsAt g m j x) ↔ ¬ ReadsItself o n) := by
  have hadmitted := ((build_yields o g).holds h).1
  obtain rfl := (build_yields o g).value h
  have hsymbols := mem_forward_symbols o g hadmitted k n hk
  -- every symbol read at `k` is assigned at `k` or before
  have hupto : ∀ x ∈ (emission o (g.nodes.take k) n).use.code.rhs.symbols,
      ∃ j, j ≤ k ∧ AssignsAt g (moduleOf o g) j x := by
    intro x hx
    obtain ⟨-, hdef, hsym⟩ := (SymbolTable.mem_symbolsOf _ _ x).mp ((hsymbols x).mp hx)
    obtain ⟨j, hj, hassigns⟩ := assignsAt_of_has o g (k + 1) x.tensor hdef
    rw [← hsym] at hassigns
    exact ⟨j, by omega, hassigns⟩
  refine ⟨(emission o (g.nodes.take k) n).use, by rw [forwards_getElem?, hk]; rfl, hupto, ?_, ?_⟩
  · intro hearlier hself
    obtain ⟨y, hread, hown⟩ := hself
    have hdef : (SymbolTable.ofNodes (g.nodes.take (k + 1))).Has y := by
      rw [SymbolTable.ofNodes_has_iff, mem_outputs_take]
      exact ⟨k, n, Nat.lt_succ_self k, hk, hown⟩
    obtain ⟨j, hj, n', s, i, hn', hs, hout, hname⟩ := hearlier _ ((hsymbols _).mpr
      ((SymbolTable.mem_symbolsOf _ _ (SymbolTable.symbol _ y)).mpr ⟨hread, hdef, rfl⟩))
    exact outputs_new_at o g.nodes hadmitted j k n n' hj hn' hk y hown (List.mem_of_getElem? hout)
  · intro hself x hx
    obtain ⟨j, hj, hassigns⟩ := hupto x hx
    refine ⟨j, Nat.lt_of_le_of_ne hj ?_, hassigns⟩
    intro hjk
    subst hjk
    obtain ⟨hread, -, -⟩ := (SymbolTable.mem_symbolsOf _ _ x).mp ((hsymbols x).mp hx)
    exact hself ⟨x.tensor, hread, mem_outputs_of_assignsAt hassigns hk⟩

theorem residual_sum_reads_earlier :
    ∃ m s, build {} Sample.residualBlock = .ok m ∧ m.forwards[3]? = some s ∧
      s.code.rhs.symbols.length = 2 ∧
      ∀ x ∈ s.code.rhs.symbols, ∃ j, j < 3 ∧ AssignsAt Sample.residualBlock m j x := by
  obtain ⟨s, hs, -, hearlier⟩ :=
    forward_reads_earlier_iff_not_readsItself {} Sample.residualBlock _ rfl 3 _ rfl
  refine ⟨_, s, rfl, hs, ?_, hearlier.mpr ?_⟩
  · cases hs
    rfl
  · intro hself
    obtain ⟨y, hread, hown⟩ := hself
    obtain rfl : y = "t3" := List.mem_singleton.mp hown
    exact absurd hread (by decide)

def selfFeeding : Graph := Sample.graphOf "Loop" ["t"] [⟨"loop", "add", [], ["t"], ["t"]⟩]

theorem self_feeding_node_reads_itself :
    ∃ m s x, build {} selfFeeding = .ok m ∧ m.forwards[0]? = some s ∧ x ∈ s.code.rhs.symbols ∧
      AssignsAt selfFeeding m 0 x ∧ ¬ ∃ j, j < 0 ∧ AssignsAt selfFeeding m j x := by
  refine ⟨_, _, ⟨"t", "self.output_module_0"⟩, rfl, rfl, ?_, ?_, ?_⟩
  · exact List.mem_singleton.mpr rfl
  · exact ⟨_, _, 0, rfl, rfl, rfl, rfl⟩
  · intro hearlier
    obtain ⟨j, hj, -⟩ := hearlier
    omega

end Netscribe.Generation
