import Mathlib.Data.List.Forall2
import Mathlib.Data.List.Nodup
import Netscribe.Proofs.Generation
import Netscribe.Proofs.Renaming
import Netscribe.Samples

/-!
# Generated code does not depend on names

Generated names are made from node indices. So the names of tensors and nodes in a graph are free, as
long as no two tensors get one name and raw names that reach the text stay: a graph and the renamed
one have modules with the same code, statement by statement.
-/

namespace Netscribe

def Node.tensorNames (n : Node) : List String := n.mentions ++ n.outputs

def Graph.tensorNames (g : Graph) : List String := g.nodes.flatMap Node.tensorNames ++ g.outputs

/-! ### Tables of renamed nodes -/

theorem lookup_map_key (r : String → String) (entries : List (String × String)) (x : String)
    (h : ∀ e ∈ entries, r e.1 = r x → e.1 = x) :
    (entries.map (Prod.map r id)).lookup (r x) = entries.lookup x := by
  induction entries with
  | nil => rfl
  | cons e rest ih =>
    obtain ⟨key, name⟩ := e
    have hrest := ih fun e he => h e (List.mem_cons_of_mem _ he)
    have hkey : (r x == r key) = (x == key) := by
      rw [Bool.eq_iff_iff, beq_iff_eq, beq_iff_eq]
      exact ⟨fun heq => (h _ (List.mem_cons_self ..) heq.symm).symm, congrArg r⟩
    simp only [List.map_cons, Prod.map_apply, id_eq, List.lookup_cons, hkey, hrest]

theorem Node.outputNames_rename (r ν : String → String) (n : Node) :
    (n.rename r ν).outputNames = n.outputNames := by
  simp only [outputNames, rename, List.length_map]

theorem Node.bindings_rename (r ν : String → String) (n : Node) :
    (n.rename r ν).bindings = n.bindings.map (Prod.map r id) := by
  unfold bindings
  rw [outputNames_rename]
  exact List.zip_map_left

theorem SymbolTable.ofNodes_rename (r ν : String → String) (nodes : List Node) (x : String)
    (h : ∀ y ∈ nodes.flatMap (·.outputs), r y = r x → y = x) :
    (ofNodes (nodes.map (Node.rename r ν))).resolve? (r x) = (ofNodes nodes).resolve? x := by
  have hbindings : (nodes.map (Node.rename r ν)).flatMap Node.bindings =
      (nodes.flatMap Node.bindings).map (Prod.map r id) := by
    simp only [List.flatMap_map, List.map_flatMap, Node.bindings_rename]
  rw [ofNodes, ofNodes, resolve?_ofList, resolve?_ofList, hbindings]
  refine lookup_map_key r _ x fun e he => h e.1 ?_
  rw [← bindings_tensors]
  exact List.mem_map_of_mem he

namespace Generation

theorem outputs_rename (r ν : String → String) (nodes : List Node) :
    (nodes.map (Node.rename r ν)).flatMap (·.outputs) = (nodes.flatMap (·.outputs)).map r := by
  rw [List.flatMap_map, List.map_flatMap]
  rfl

theorem inputCount_rename (r ν : String → String) (nodes : List Node) :
    inputCount (nodes.map (Node.rename r ν)) = inputCount nodes := by
  unfold inputCount
  rw [List.countP_map]
  rfl

/-! ### Admission and statements -/

section

variable {r : String → String} (ν : String → String) (names : List String)

/-- The renaming keeps each rendered reference to a tensor that has no symbol where it is rendered. -/
def KeepsRaw (o : Options) (r : String → String) (earlier : List Node) (n : Node) : Prop :=
  ∀ v ∈ n.renderedValues o.table, ∀ x ∈ v.tensors,
    x ∉ (earlier ++ [n]).flatMap (·.outputs) → r x = x

theorem outputs_of_tensorNames (nodes : List Node) (h : ∀ n ∈ nodes, ∀ x ∈ n.tensorNames, x ∈ names)
    (x : String) (hx : x ∈ nodes.flatMap (·.outputs)) : x ∈ names := by
  obtain ⟨n, hn, hx⟩ := List.mem_flatMap.mp hx
  exact h n hn x (List.mem_append_right _ hx)

theorem admits_rename (o : Options) (hinj : Set.InjOn r {x | x ∈ names}) (earlier : List Node)
    (n : Node) (hnames : ∀ m ∈ earlier ++ [n], ∀ x ∈ m.tensorNames, x ∈ names)
    (h : Admits o earlier n) : Admits o (earlier.map (Node.rename r ν)) (n.rename r ν) := by
  have hn : ∀ x ∈ n.tensorNames, x ∈ names := hnames n (by simp)
  have hearlier := outputs_of_tensorNames names earlier fun m hm => hnames m (by simp [hm])
  have hown : ∀ x ∈ n.outputs, x ∈ names := fun x hx => hn x (List.mem_append_right _ hx)
  refine ⟨?_, ?_, fun x hx hx' => ?_, ?_, ?_⟩
  · simpa [Node.rename] using h.outputs_ne_nil
  · exact h.outputs_nodup.map_on fun x hx y hy => hinj (hown x hx) (hown y hy)
  · rw [outputs_rename] at hx'
    obtain ⟨y, hy, rfl⟩ := List.mem_map.mp hx
    obtain ⟨z, hz, hzy⟩ := List.mem_map.mp hx'
    rw [hinj (hearlier z hz) (hown y hy) hzy] at hz
    exact h.outputs_new y hy hz
  · refine n.emittable_rename r ν o.table o.policy _ _
      (fun x hx y hy => hinj (hn x (List.mem_append_left _ hx)) (hn y (List.mem_append_left _ hy)))
      (fun x hx => ?_) h.emittable
    rw [← List.map_singleton, ← List.map_append, outputs_rename]
    exact List.mem_map_of_mem hx
  · have hindices : (earlier.map (Node.rename r ν)).map (·.index) = earlier.map (·.index) := by
      rw [List.map_map]
      rfl
    rw [hindices]
    exact h.index_new

theorem emission_renamed (o : Options) (hinj : Set.InjOn r {x | x ∈ names}) (earlier : List Node)
    (n : Node) (hnames : ∀ m ∈ earlier ++ [n], ∀ x ∈ m.tensorNames, x ∈ names)
    (h : Admits o earlier n) (hraw : KeepsRaw o r earlier n) :
    Emission.RenamedTo ν (emission o earlier n)
      (emission o (earlier.map (Node.rename r ν)) (n.rename r ν)) := by
  have hmentions : ∀ x ∈ n.mentions, x ∈ names :=
    fun x hx => hnames n (by simp) x (List.mem_append_left _ hx)
  have houtputs := outputs_of_tensorNames names (earlier ++ [n]) hnames
  have hresolve : ∀ x ∈ n.mentions,
      (SymbolTable.ofNodes ((earlier ++ [n]).map (Node.rename r ν))).resolve? (r x) =
        (SymbolTable.ofNodes (earlier ++ [n])).resolve? x := fun x hx =>
    SymbolTable.ofNodes_rename r ν _ x fun y hy => hinj (houtputs y hy) (hmentions x hx)
  unfold emission
  rw [inputCount_rename, Node.outputNames_rename, ← List.map_singleton, ← List.map_append]
  refine Emission.form_renamed ν o.table o.policy _ n _
    (fun x hx y hy => hinj (hmentions x hx) (hmentions y hy))
    (fun x hx => hresolve x (List.mem_append_left _ hx)) (fun v hv x hx => ?_)
    h.emittable.has_input
  refine ⟨hresolve x (n.mem_mentions_of_rendered o.table v hv x hx), fun hnone => ?_⟩
  rw [SymbolTable.resolve?_eq_none, SymbolTable.ofNodes_has] at hnone
  exact hraw v hv x hx hnone

/-- The nodes of a pass stay admitted under new names, and their statements keep their code. -/
theorem pass_renamed (o : Options) (hinj : Set.InjOn r {x | x ∈ names}) (earlier nodes : List Node)
    (hnames : ∀ m ∈ earlier ++ nodes, ∀ x ∈ m.tensorNames, x ∈ names)
    (h : AdmitsAll o earlier nodes)
    (hraw : ∀ k n, nodes[k]? = some n → KeepsRaw o r (earlier ++ nodes.take k) n) :
    AdmitsAll o (earlier.map (Node.rename r ν)) (nodes.map (Node.rename r ν)) ∧
      List.Forall₂ (Emission.RenamedTo ν) (emissions o earlier nodes)
        (emissions o (earlier.map (Node.rename r ν)) (nodes.map (Node.rename r ν))) := by
  induction nodes generalizing earlier with
  | nil => exact ⟨trivial, .nil⟩
  | cons n rest ih =>
    obtain ⟨hn, hrest⟩ := h
    obtain ⟨hrawn, hrawrest⟩ := (forall_position_cons (KeepsRaw o r) earlier n rest).mp hraw
    have hsplit : earlier ++ n :: rest = earlier ++ [n] ++ rest := by simp
    rw [hsplit] at hnames
    have hupto : ∀ m ∈ earlier ++ [n], ∀ x ∈ m.tensorNames, x ∈ names :=
      fun m hm => hnames m (List.mem_append_left _ hm)
    obtain ⟨hadmits, hsame⟩ := ih (earlier ++ [n]) hnames hrest hrawrest
    rw [List.map_append] at hadmits hsame
    exact ⟨⟨admits_rename ν names o hinj earlier n hupto hn, hadmits⟩,
      .cons (emission_renamed ν names o hinj earlier n hupto hn hrawn) hsame⟩

end

/-! ### Modules -/

/-- A graph whose tensors and nodes are renamed has a module with the same code. -/
theorem renaming_keeps_code (o : Options) (g : Graph) (m : Module Assignment)
    (h : build o g = .ok m) (r ν : String → String)
    (hinj : Set.InjOn r {x | x ∈ g.tensorNames})
    (hraw : ∀ k n, g.nodes[k]? = some n → KeepsRaw o r (g.nodes.take k) n) :
    ∃ m', build o (g.rename r ν) = .ok m' ∧ m'.className = m.className ∧
      m'.variant = m.variant ∧ m'.imports = m.imports ∧ m'.returns = m.returns ∧
      List.Forall₂ (Statement.RenamedTo ν) m.inits m'.inits ∧
      List.Forall₂ (Statement.RenamedTo ν) m.forwards m'.forwards := by
  obtain ⟨hadmitted, hne, hproduced⟩ := (build_yields o g).holds h
  obtain rfl := (build_yields o g).value h
  have hnames : ∀ n ∈ g.nodes, ∀ x ∈ n.tensorNames, x ∈ g.tensorNames := fun n hn x hx =>
    List.mem_append_left _ (List.mem_flatMap.mpr ⟨n, hn, hx⟩)
  obtain ⟨hadmits, hsame⟩ := pass_renamed ν g.tensorNames o hinj [] g.nodes hnames hadmitted hraw
  refine ⟨moduleOf o (g.rename r ν), ((build_yields o (g.rename r ν)) _).mpr ⟨?_, rfl⟩, rfl, rfl, rfl,
    ?_, ?_, ?_⟩
  · refine ⟨hadmits, by simpa [Graph.rename] using hne, fun x hx => ?_⟩
    obtain ⟨y, hy, rfl⟩ := List.mem_map.mp hx
    have hnodes : (g.rename r ν).nodes = g.nodes.map (Node.rename r ν) := rfl
    rw [hnodes, outputs_rename]
    exact List.mem_map_of_mem (hproduced y hy)
  · have hterminal : ∀ x ∈ g.outputs,
        ((SymbolTable.ofNodes (g.nodes.map (Node.rename r ν))).symbol (r x)).name =
          ((SymbolTable.ofNodes g.nodes).symbol x).name := by
      intro x hx
      refine SymbolTable.symbol_name_rename x (SymbolTable.ofNodes_rename r ν _ x fun y hy => ?_)
      exact hinj (outputs_of_tensorNames _ g.nodes hnames y hy) (List.mem_append_right _ hx)
    simp only [moduleOf, Graph.rename, List.map_map]
    exact congrArg some (List.map_congr_left hterminal)
  · exact List.rel_filterMap (fun _ _ he => he.init) hsame
  · exact List.rel_map (fun _ _ he => he.use) hsame

/-- A product with a tensor from outside of the graph, and its concatenation with the graph input. -/
def outsideFactor : Graph :=
  Sample.graphOf "Scaled" ["t2"]
    [⟨"x", "input", [], [], ["t0"]⟩,
     ⟨"scale", "mul", [("other", .tensor "weights")], ["t0"], ["t1"]⟩,
     ⟨"join", "cat", [("tensors", .list [.tensor "t1", .tensor "t0"])], ["t1", "t0"], ["t2"]⟩]

/-- The names of the first two tensors exchanged. -/
def swapNames (x : String) : String := if x = "t0" then "t1" else if x = "t1" then "t0" else x

theorem outside_factor_swapped :
    ∃ m m', build {} outsideFactor = .ok m ∧
      build {} (outsideFactor.rename swapNames fun _ => "node") = .ok m' ∧
      m.forwards.map (·.code.text) =
        ["self.output_module_0 = args[0]",
         "self.output_module_1 = torch.mul(self.output_module_0, other=weights)",
         "self.output_module_2 = torch.cat(tensors=[self.output_module_1,self.output_module_0])"] ∧
      m'.returns = m.returns ∧
      List.Forall₂ (Statement.RenamedTo fun _ => "node") m.forwards m'.forwards := by
  have hinj : ∀ x ∈ outsideFactor.tensorNames, ∀ y ∈ outsideFactor.tensorNames,
      swapNames x = swapNames y → x = y := by decide
  have hraw : ∀ k < 3, ∀ n ∈ outsideFactor.nodes[k]?, ∀ v ∈ n.renderedValues .default,
      ∀ x ∈ v.tensors, x ∉ (outsideFactor.nodes.take k ++ [n]).flatMap (·.outputs) →
        swapNames x = x := by decide
  obtain ⟨m', hm', -, -, -, hreturns, -, hforwards⟩ := renaming_keeps_code {} outsideFactor _ rfl
    swapNames (fun _ => "node") (fun x hx y hy => hinj x hx y hy)
    fun k n hk => hraw k (List.getElem?_eq_some_iff.mp hk).1 n hk
  exact ⟨_, m', rfl, hm', rfl, hreturns, hforwards⟩

end Generation

end Netscribe
