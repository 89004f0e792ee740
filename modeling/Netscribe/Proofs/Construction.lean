import Netscribe.Proofs.Generation
import Netscribe.Samples

/-!
# What the constructor of a module reads

The attributes of a module with state are arguments of its constructor call. They are rendered
against the symbols defined up to the node, as those of every other call, and these symbols have no
value before the forward method runs. So the constructor reads nothing of the forward method exactly
if no such attribute refers to a tensor that is produced at its node or before.
-/

namespace Netscribe

/-- The tensors that the constructor call of a node mentions. Only a module with state passes its
attributes there. -/
def Node.constructorTensors (table : OperatorTable) (n : Node) : List String :=
  if n.override? = none ∧ (n.entry table).kind = .statefulModule then
    (n.renderedValues table).flatMap Value.tensors
  else []

theorem Node.stateful_of_mem_constructorTensors (table : OperatorTable) (n : Node) (x : String)
    (h : x ∈ n.constructorTensors table) :
    n.override? = none ∧ (n.entry table).kind = .statefulModule := by
  unfold Node.constructorTensors at h
  split at h
  · assumption
  · cases h

namespace Emission

/-- The operator type that a wrapper takes first is plain text. -/
theorem construction_symbols (p : Policy) (e : OperatorEntry) (n : Node) (keywords : List Keyword) :
    (construction p e n keywords).code.rhs.symbols = keywords.flatMap (·.value.symbols) := by
  simp only [construction, statement, Rhs.symbols, Call.symbols, Callee.symbols, List.nil_append]
  cases (p.constructor n.op.type e).wrapper <;> rfl

theorem form_init_symbols (table : OperatorTable) (p : Policy) (t : SymbolTable) (count : Nat)
    (n : Node) (targets : List String) (h : n.Emittable table p t.Has)
    (s : Statement Assignment) (hs : (form table p t count n targets).init = some s) :
    s.code.rhs.symbols = t.symbolsOf (n.constructorTensors table) := by
  unfold form at hs
  cases ho : n.override? with
  | some o => simp [ho] at hs
  | none =>
    have hflat := h.values_flat
    by_cases hk : (n.entry table).kind = .statefulModule
    · simp only [ho, if_pos hk, statefulForm, Option.some.injEq] at hs
      simp only [Node.renderedValues, ho] at hflat
      rw [← hs, construction_symbols, t.keywords_symbols n.op _ hflat]
      simp only [Node.constructorTensors, Node.renderedValues, ho, hk, and_self, if_true]
    · simp only [ho, if_neg hk, statelessForm] at hs
      have hnone : n.constructorTensors table = [] := by simp [Node.constructorTensors, hk]
      rw [hnone]
      cases hd : p.dispatch with
      | direct => simp [hd, directForm] at hs
      | submodule =>
        simp only [hd, submoduleForm, Option.some.injEq] at hs
        rw [← hs, construction_symbols]
        rfl

end Emission

namespace Generation

theorem mem_inits_iff (o : Options) (g : Graph) (s : Statement Assignment) :
    s ∈ (moduleOf o g).inits ↔
      ∃ (k : Nat) (n : Node), g.nodes[k]? = some n ∧
        (emission o (g.nodes.take k) n).init = some s := by
  have hinits : (moduleOf o g).inits = (emissions o [] g.nodes).filterMap (·.init) := rfl
  rw [hinits, List.mem_filterMap]
  constructor
  · intro hmem
    obtain ⟨e, he, hs⟩ := hmem
    obtain ⟨k, hk⟩ := List.mem_iff_getElem?.mp he
    rw [emissions_getElem?, List.nil_append, Option.map_eq_some_iff] at hk
    obtain ⟨n, hn, rfl⟩ := hk
    exact ⟨k, n, hn, hs⟩
  · intro hat
    obtain ⟨k, n, hn, hs⟩ := hat
    refine ⟨_, List.mem_of_getElem? (i := k) ?_, hs⟩
    rw [emissions_getElem?, hn]
    rfl

/-- The constructor statement of the node at a position reads the symbols of the tensors that its
call mentions, under the table of the nodes up to it. -/
theorem emission_init_symbols (o : Options) (g : Graph) (h : AdmitsAll o [] g.nodes) (k : Nat)
    (n : Node) (hk : g.nodes[k]? = some n) (s : Statement Assignment)
    (hs : (emission o (g.nodes.take k) n).init = some s) :
    s.code.rhs.symbols =
      (SymbolTable.ofNodes (g.nodes.take (k + 1))).symbolsOf (n.constructorTensors o.table) := by
  have he := ((admitsAll_iff o [] g.nodes).mp h k n hk).emittable
  rw [List.nil_append, ← SymbolTable.ofNodes_has] at he
  rw [← take_append_node g.nodes k n hk]
  exact Emission.form_init_symbols o.table o.policy _ _ n _ he s hs

theorem mem_init_symbols (o : Options) (g : Graph) (h : AdmitsAll o [] g.nodes)
    (s : Statement Assignment) (hs : s ∈ (moduleOf o g).inits) (x : Symbol)
    (hx : x ∈ s.code.rhs.symbols) :
    ∃ (k : Nat) (n : Node), g.nodes[k]? = some n ∧ x.tensor ∈ n.constructorTensors o.table ∧
      x.tensor ∈ (g.nodes.take (k + 1)).flatMap (·.outputs) ∧
      ∃ j, AssignsAt g (moduleOf o g) j x := by
  obtain ⟨k, n, hk, hinit⟩ := (mem_inits_iff o g s).mp hs
  rw [emission_init_symbols o g h k n hk s hinit] at hx
  obtain ⟨hmentioned, hdef, hsym⟩ := (SymbolTable.mem_symbolsOf _ _ x).mp hx
  obtain ⟨j, -, hassigns⟩ := assignsAt_of_has o g (k + 1) x.tensor hdef
  rw [← hsym] at hassigns
  rw [SymbolTable.ofNodes_has] at hdef
  exact ⟨k, n, hk, hmentioned, hdef, j, hassigns⟩

/-- A tensor that a constructor call mentions is read there as soon as it is produced. -/
theorem exists_init_reading (o : Options) (g : Graph) (h : AdmitsAll o [] g.nodes) (k : Nat)
    (n : Node) (hk : g.nodes[k]? = some n) (x : String) (hx : x ∈ n.constructorTensors o.table)
    (hproduced : x ∈ (g.nodes.take (k + 1)).flatMap (·.outputs)) :
    ∃ s ∈ (moduleOf o g).inits, ∃ y ∈ s.code.rhs.symbols, y.tensor = x := by
  obtain ⟨ho, hkind⟩ := n.stateful_of_mem_constructorTensors o.table x hx
  have hsub : n.hasSubmodule o.table o.policy = true := by simp [Node.hasSubmodule, ho, hkind]
  obtain ⟨_, _, _, _, hinit, -⟩ := Emission.form_init_some o.table o.policy
    (.ofNodes (g.nodes.take k ++ [n])) (inputCount (g.nodes.take k)) n n.outputNames hsub
  refine ⟨_, (mem_inits_iff o g _).mpr ⟨k, n, hk, hinit⟩,
    (SymbolTable.ofNodes (g.nodes.take (k + 1))).symbol x, ?_, rfl⟩
  rw [emission_init_symbols o g h k n hk _ hinit, SymbolTable.mem_symbolsOf,
    SymbolTable.ofNodes_has]
  exact ⟨hx, hproduced, rfl⟩

/-- What a constructor statement reads is assigned in the forward method, and no constructor statement
reads anything exactly if no constructor call mentions a tensor produced up to its node. -/
theorem inits_read_nothing_iff (o : Options) (g : Graph) (m : Module Assignment)
    (h : build o g = .ok m) :
    (∀ s ∈ m.inits, ∀ x ∈ s.code.rhs.symbols, ∃ j, AssignsAt g m j x) ∧
      ((∀ s ∈ m.inits, s.code.rhs.symbols = []) ↔
        ∀ (k : Nat) (n : Node), g.nodes[k]? = some n → ∀ x ∈ n.constructorTensors o.table,
          x ∉ (g.nodes.take (k + 1)).flatMap (·.outputs)) := by
  have hadmitted := ((build_yields o g).holds h).1
  obtain rfl := (build_yields o g).value h
  refine ⟨fun s hs x hx => ?_, fun hnothing k n hk x hx hproduced => ?_, fun hnone s hs => ?_⟩
  · obtain ⟨-, -, -, -, -, hassigned⟩ := mem_init_symbols o g hadmitted s hs x hx
    exact hassigned
  · obtain ⟨s, hs, y, hy, -⟩ := exists_init_reading o g hadmitted k n hk x hx hproduced
    rw [hnothing s hs] at hy
    cases hy
  · rw [List.eq_nil_iff_forall_not_mem]
    intro x hx
    obtain ⟨k, n, hk, hmentioned, hproduced, -⟩ := mem_init_symbols o g hadmitted s hs x hx
    exact hnone k n hk x.tensor hmentioned hproduced

theorem residual_block_inits_read_nothing :
    ∃ m, build {} Sample.residualBlock = .ok m ∧ m.inits.length = 2 ∧
      ∀ s ∈ m.inits, s.code.rhs.symbols = [] := by
  refine ⟨_, rfl, rfl, ((inits_read_nothing_iff {} Sample.residualBlock _ rfl).2).mpr ?_⟩
  intro k n hk x hx
  have hnone : ∀ n ∈ Sample.residualBlock.nodes, n.constructorTensors .default = [] := by decide
  rw [hnone n (List.mem_of_getElem? hk)] at hx
  cases hx

def computedSize : Graph :=
  Sample.graphOf "Resize" ["t2"]
    [⟨"x", "input", [], [], ["t0"]⟩,
     ⟨"shape", "size", [("dim", .int 2)], ["t0"], ["t1"]⟩,
     ⟨"up", "upsample", [("size", .tensor "t1")], ["t0"], ["t2"]⟩]

theorem computed_size_read_by_constructor :
    ∃ m s x, build {} computedSize = .ok m ∧ m.inits = [s] ∧
      s.code.text = "self.module_2 = torch.nn.Upsample(size=self.output_module_1)" ∧
      x ∈ s.code.rhs.symbols ∧ x.name = "self.output_module_1" ∧ AssignsAt computedSize m 1 x := by
  refine ⟨_, _, ⟨"t1", "self.output_module_1"⟩, rfl, rfl, rfl, ?_, rfl, ?_⟩
  · exact List.mem_singleton.mpr rfl
  · exact ⟨_, _, 0, rfl, rfl, rfl, rfl⟩

end Generation

end Netscribe
