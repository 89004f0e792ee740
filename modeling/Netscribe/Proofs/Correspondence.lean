import Mathlib.Data.List.Forall2
import Netscribe.Proofs.Generation
import Netscribe.Samples

/-!
# Nodes and their statements

The forward method of a module has one statement for each node, in node order, and the constructor
one for each node with a submodule. The constructor and the forward method use a submodule under the
same index, and the module returns what the forward statements assign to the terminal tensors.
-/

namespace Netscribe.Generation

structure UseOf (o : Options) (n : Node) (s : Statement Assignment) : Prop where
  node : s.node = n.name
  index : s.index = n.index
  targets : s.code.targets = Naming.outputNames n.index n.outputs.length
  text : s.code.text =
    commaJoin (Naming.outputNames n.index n.outputs.length) ++ " = " ++ s.code.rhs.text
  call : n.hasSubmodule o.table o.policy = true →
    ∃ arguments, s.code.rhs.text = Naming.submodule n.index ++ "(" ++ arguments ++ ")"

structure InitOf (n : Node) (s : Statement Assignment) : Prop where
  node : s.node = n.name
  index : s.index = n.index
  targets : s.code.targets = [Naming.submodule n.index]
  text : s.code.text = Naming.submodule n.index ++ " = " ++ s.code.rhs.text

/-- A name is what the forward statements of a module assign to a tensor, in one place only. -/
def ReturnOf (g : Graph) (m : Module Assignment) (x name : String) : Prop :=
  ∃ k, AssignsAt g m k ⟨x, name⟩ ∧ ∀ j y, AssignsAt g m j ⟨x, y⟩ → j = k ∧ y = name

/-! ### The statements of one node -/

theorem emission_useOf (o : Options) (earlier : List Node) (n : Node) :
    UseOf o n (emission o earlier n).use := by
  obtain ⟨hnode, hindex, htargets⟩ :=
    Emission.form_use_node o.table o.policy (.ofNodes (earlier ++ [n])) (inputCount earlier) n
      n.outputNames
  refine ⟨hnode, hindex, htargets, ?_, fun hsub => ?_⟩
  · rw [Assignment.text, emission_targets]
    rfl
  · obtain ⟨_, _, arguments, options, -, huse⟩ :=
      Emission.form_init_some o.table o.policy (.ofNodes (earlier ++ [n])) (inputCount earlier) n
        n.outputNames hsub
    refine ⟨(Call.mk (.submodule n.index) arguments options).arguments, ?_⟩
    rw [emission, huse]
    rfl

theorem emission_init_none (o : Options) (earlier : List Node) (n : Node)
    (h : n.hasSubmodule o.table o.policy = false) : (emission o earlier n).init = none :=
  Emission.form_init_none o.table o.policy _ _ n _ h

theorem emission_init_some (o : Options) (earlier : List Node) (n : Node)
    (h : n.hasSubmodule o.table o.policy = true) :
    ∃ s, (emission o earlier n).init = some s ∧ InitOf n s := by
  obtain ⟨_, _, _, _, hinit, -⟩ :=
    Emission.form_init_some o.table o.policy (.ofNodes (earlier ++ [n])) (inputCount earlier) n
      n.outputNames h
  exact ⟨_, hinit, rfl, rfl, rfl, rfl⟩

/-! ### The statements of all nodes -/

theorem emissions_uses (o : Options) (earlier nodes : List Node) :
    List.Forall₂ (UseOf o) nodes ((emissions o earlier nodes).map (·.use)) := by
  induction nodes generalizing earlier with
  | nil => exact .nil
  | cons n rest ih => exact .cons (emission_useOf o earlier n) (ih (earlier ++ [n]))

theorem emissions_inits (o : Options) (earlier nodes : List Node) :
    List.Forall₂ InitOf (nodes.filter (·.hasSubmodule o.table o.policy))
      ((emissions o earlier nodes).filterMap (·.init)) := by
  induction nodes generalizing earlier with
  | nil => exact .nil
  | cons n rest ih =>
    have hrest := ih (earlier ++ [n])
    cases hsub : n.hasSubmodule o.table o.policy with
    | false =>
      have hnone := emission_init_none o earlier n hsub
      rw [List.filter_cons_of_neg (by simp [hsub]), emissions, List.filterMap_cons_none hnone]
      exact hrest
    | true =>
      obtain ⟨s, hsome, hinit⟩ := emission_init_some o earlier n hsub
      rw [List.filter_cons_of_pos hsub, emissions, List.filterMap_cons_some hsome]
      exact .cons hinit hrest

/-- The table of all nodes names a terminal tensor as one forward statement assigns it. -/
theorem returnOf_symbol (o : Options) (g : Graph) (h : AdmitsAll o [] g.nodes) (x : String)
    (hx : x ∈ g.nodes.flatMap (·.outputs)) :
    ReturnOf g (moduleOf o g) x ((SymbolTable.ofNodes g.nodes).symbol x).name := by
  have hall : g.nodes.take g.nodes.length = g.nodes := List.take_length
  have hdef : (SymbolTable.ofNodes (g.nodes.take g.nodes.length)).Has x := by
    rw [hall, SymbolTable.ofNodes_has]
    exact hx
  obtain ⟨k, -, hassigns⟩ := assignsAt_of_has o g g.nodes.length x hdef
  rw [hall] at hassigns
  exact ⟨k, hassigns, fun j y hj => assignsAt_unique o g h _ j k x y _ hj hassigns⟩

/-- Statements and nodes correspond one to one and in order, and so do terminal tensors and returned
names. -/
theorem statements_match_nodes (o : Options) (g : Graph) (m : Module Assignment)
    (h : build o g = .ok m) :
    List.Forall₂ (UseOf o) g.nodes m.forwards ∧
      List.Forall₂ InitOf (g.nodes.filter (·.hasSubmodule o.table o.policy)) m.inits ∧
      ∃ names, m.returns = some names ∧ List.Forall₂ (ReturnOf g m) g.outputs names := by
  obtain ⟨hadmitted, -, hproduced⟩ := (build_yields o g).holds h
  obtain rfl := (build_yields o g).value h
  refine ⟨emissions_uses o [] g.nodes, emissions_inits o [] g.nodes, _, rfl, ?_⟩
  rw [List.forall₂_map_right_iff, List.forall₂_same]
  exact fun x hx => returnOf_symbol o g hadmitted x (hproduced x hx)

theorem residual_block_statements_match :
    ∃ m, build { policy := .quant [] } Sample.residualBlock = .ok m ∧ m.inits.length = 7 ∧
      List.Forall₂ (UseOf { policy := .quant [] }) Sample.residualBlock.nodes m.forwards ∧
      List.Forall₂ InitOf (Sample.residualBlock.nodes.filter (·.hasSubmodule .default (.quant [])))
        m.inits ∧
      ∃ names, m.returns = some names ∧
        List.Forall₂ (ReturnOf Sample.residualBlock m) Sample.residualBlock.outputs names :=
  ⟨_, rfl, rfl, statements_match_nodes { policy := .quant [] } Sample.residualBlock _ rfl⟩

end Netscribe.Generation
