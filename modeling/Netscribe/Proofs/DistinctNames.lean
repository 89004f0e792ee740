import Netscribe.Proofs.Correspondence

/-!
# The names of a module are distinct

The forward method assigns the names of all outputs, the constructor those of the submodules. Both
are made from node indices, which are all different, so no name is assigned twice.
-/

namespace Netscribe

def Node.submoduleNames (n : Node) : List String := [Naming.submodule n.index]

namespace Generation

/-! ### Names by node -/

theorem outputNames_nodup (n : Node) : n.outputNames.Nodup := by
  unfold List.Nodup
  rw [List.pairwise_iff_getElem]
  intro k l hk hl hkl heq
  have hname : n.outputNames[k]? = some n.outputNames[l] := by
    rw [← heq]
    exact List.getElem?_eq_getElem hk
  have hsame := Naming.getElem?_outputNames_inj n.index n.index n.outputs.length n.outputs.length
    k l n.outputNames[l] hname (List.getElem?_eq_getElem hl)
  omega

theorem index_eq_of_mem_outputNames (n n' : Node) (x : String) (hx : x ∈ n.outputNames)
    (hx' : x ∈ n'.outputNames) : n.index = n'.index := by
  obtain ⟨k, hk⟩ := List.mem_iff_getElem?.mp hx
  obtain ⟨l, hl⟩ := List.mem_iff_getElem?.mp hx'
  exact (Naming.getElem?_outputNames_inj _ _ _ _ k l x hk hl).1

theorem index_eq_of_mem_submoduleNames (n n' : Node) (x : String) (hx : x ∈ n.submoduleNames)
    (hx' : x ∈ n'.submoduleNames) : n.index = n'.index := by
  have hsame : Naming.submodule n.index = Naming.submodule n'.index :=
    (List.mem_singleton.mp hx).symm.trans (List.mem_singleton.mp hx')
  exact GeneratedName.submodule_injective _ _ hsame

theorem not_mem_submoduleNames (n n' : Node) (x : String) (hx : x ∈ n.outputNames) :
    x ∉ n'.submoduleNames := by
  intro hx'
  obtain ⟨k, hk⟩ := List.mem_iff_getElem?.mp hx
  obtain ⟨-, htext⟩ := (Naming.getElem?_outputNames n.index n.outputs.length k x).mp hk
  rw [List.mem_singleton.mp hx'] at htext
  have hname := GeneratedName.text_injective (.submodule n'.index) _ htext
  unfold GeneratedName.ofOrdinal at hname
  split at hname <;> cases hname

/-! ### Names of all nodes -/

/-- Names that tell the index of their node are distinct among nodes of distinct indices. -/
theorem flatMap_names_nodup (names : Node → List String) (nodes : List Node)
    (hindices : (nodes.map (·.index)).Nodup) (hown : ∀ n, (names n).Nodup)
    (hindex : ∀ n n' x, x ∈ names n → x ∈ names n' → n.index = n'.index) :
    (nodes.flatMap names).Nodup := by
  unfold List.Nodup at hindices ⊢
  rw [List.pairwise_flatMap]
  refine ⟨fun n _ => hown n, ?_⟩
  refine (List.pairwise_map.mp hindices).imp fun {n n'} hne x hx y hy hxy => hne ?_
  rw [← hxy] at hy
  exact hindex n n' x hx hy

theorem flatMap_targets {R : Node → Statement Assignment → Prop} {nodes : List Node}
    {statements : List (Statement Assignment)} (names : Node → List String)
    (h : List.Forall₂ R nodes statements) (hR : ∀ n s, R n s → s.code.targets = names n) :
    statements.flatMap (·.code.targets) = nodes.flatMap names := by
  induction h with
  | nil => rfl
  | cons hs _ ih => rw [List.flatMap_cons, List.flatMap_cons, hR _ _ hs, ih]

/-- No name is assigned twice in a module, and no output name is generated for two outputs. -/
theorem assigned_names_distinct :
    (∀ (o : Options) (g : Graph) (m : Module Assignment), build o g = .ok m →
      (m.forwards.flatMap (·.code.targets)).Nodup ∧ (m.inits.flatMap (·.code.targets)).Nodup ∧
        ∀ x ∈ m.forwards.flatMap (·.code.targets), x ∉ m.inits.flatMap (·.code.targets)) ∧
      ∀ (i j : Int) (c d k l : Nat) (name : String), (Naming.outputNames i c)[k]? = some name →
        (Naming.outputNames j d)[l]? = some name → i = j ∧ k = l ∧ (c = 1 ↔ d = 1) := by
  refine ⟨?_, Naming.getElem?_outputNames_inj⟩
  intro o g m h
  have hadmitted := (admitsAll_iff o [] g.nodes).mp ((build_yields o g).holds h).1
  obtain rfl := (build_yields o g).value h
  have hindices : (g.nodes.map (·.index)).Nodup := by
    rw [indices_nodup_iff]
    exact fun k n hk => (hadmitted k n hk).index_new
  have hforwards : (moduleOf o g).forwards.flatMap (·.code.targets) =
      g.nodes.flatMap Node.outputNames :=
    flatMap_targets _ (emissions_uses o [] g.nodes) fun _ _ hs => hs.targets
  have hinits : (moduleOf o g).inits.flatMap (·.code.targets) =
      (g.nodes.filter (·.hasSubmodule o.table o.policy)).flatMap (·.submoduleNames) :=
    flatMap_targets _ (emissions_inits o [] g.nodes) fun _ _ hs => hs.targets
  rw [hforwards, hinits]
  refine ⟨?_, ?_, fun x hx hx' => ?_⟩
  · exact flatMap_names_nodup _ _ hindices outputNames_nodup index_eq_of_mem_outputNames
  · refine flatMap_names_nodup _ _ ?_ (fun _ => List.pairwise_singleton _ _)
      index_eq_of_mem_submoduleNames
    exact (List.filter_sublist.map Node.index).nodup hindices
  · obtain ⟨n, -, hname⟩ := List.mem_flatMap.mp hx
    obtain ⟨n', -, hsub⟩ := List.mem_flatMap.mp hx'
    exact not_mem_submoduleNames n n' x hname hsub

theorem residual_block_names_distinct :
    ∃ m, build { policy := .quant [] } Sample.residualBlock = .ok m ∧
      m.forwards.length = 8 ∧ m.inits.length = 7 ∧
      (m.forwards.flatMap (·.code.targets)).Nodup ∧ (m.inits.flatMap (·.code.targets)).Nodup ∧
      ∀ x ∈ m.forwards.flatMap (·.code.targets), x ∉ m.inits.flatMap (·.code.targets) :=
  ⟨_, rfl, rfl, rfl, assigned_names_distinct.1 { policy := .quant [] } Sample.residualBlock _ rfl⟩

end Generation

end Netscribe
