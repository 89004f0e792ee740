import Netscribe.Generation
import Netscribe.Proofs.Emission

/-!
# A generation pass, node by node

What a pass has made after some nodes is a function of these nodes: the symbol table holds the
outputs of all of them under their generated names, and each statement is the form of its node under
the table of the nodes up to it. `step_yields` says this of one node, `run_yields` of any number of
nodes by induction, and `build_yields` of a whole pass.
-/

namespace Netscribe

namespace Node

def outputNames (n : Node) : List String := Naming.outputNames n.index n.outputs.length

def bindings (n : Node) : List (String × String) := n.outputs.zip n.outputNames

theorem length_outputNames (n : Node) : n.outputNames.length = n.outputs.length :=
  Naming.length_outputNames n.index n.outputs.length

theorem outputNames_ne_nil (n : Node) : n.outputNames ≠ [] ↔ n.outputs ≠ [] := by
  rw [← List.length_pos_iff, ← List.length_pos_iff, length_outputNames]

theorem bindings_fst (n : Node) : n.bindings.map (·.1) = n.outputs :=
  List.map_fst_zip (Nat.le_of_eq n.length_outputNames.symm)

end Node

/-- The table of the outputs of some nodes. -/
def SymbolTable.ofNodes (nodes : List Node) : SymbolTable := ofList (nodes.flatMap Node.bindings)

theorem SymbolTable.bindings_tensors (nodes : List Node) :
    (nodes.flatMap Node.bindings).map (·.1) = nodes.flatMap (·.outputs) := by
  simp only [List.map_flatMap, Node.bindings_fst]

theorem SymbolTable.ofNodes_has_iff (nodes : List Node) (x : String) :
    (ofNodes nodes).Has x ↔ x ∈ nodes.flatMap (·.outputs) := by
  have hempty : ¬ empty.Has x := by simp [empty, Has, resolve?]
  rw [ofNodes, ofList, has_extended, bindings_tensors]
  exact or_iff_right hempty

theorem SymbolTable.ofNodes_has (nodes : List Node) :
    (ofNodes nodes).Has = (· ∈ nodes.flatMap (·.outputs)) :=
  funext fun x => propext (ofNodes_has_iff nodes x)

theorem SymbolTable.fresh_ofNodes (nodes : List Node) (xs : List String) :
    (ofNodes nodes).Fresh xs ↔ xs.Nodup ∧ ∀ x ∈ xs, x ∉ nodes.flatMap (·.outputs) := by
  unfold Fresh
  rw [ofNodes_has]

theorem SymbolTable.ofNodes_append (nodes : List Node) (n : Node) :
    ofNodes (nodes ++ [n]) = (ofNodes nodes).extended n.bindings := by
  rw [ofNodes, ofNodes, ofList, ofList, extended_extended, List.flatMap_append,
    List.flatMap_singleton]

namespace Generation

def inputCount (nodes : List Node) : Nat :=
  nodes.countP fun n => decide (n.override? = some .input)

def emission (o : Options) (earlier : List Node) (n : Node) : Emission :=
  Emission.form o.table o.policy (.ofNodes (earlier ++ [n])) (inputCount earlier) n n.outputNames

def emissions (o : Options) : List Node → List Node → List Emission
  | _, [] => []
  | earlier, n :: rest => emission o earlier n :: emissions o (earlier ++ [n]) rest

/-- A node can come after the given ones: its outputs are there, new and all different, its index is
new, and it is emittable. -/
structure Admits (o : Options) (earlier : List Node) (n : Node) : Prop where
  outputs_ne_nil : n.outputs ≠ []
  outputs_nodup : n.outputs.Nodup
  outputs_new : ∀ x ∈ n.outputs, x ∉ earlier.flatMap (·.outputs)
  emittable : n.Emittable o.table o.policy (· ∈ (earlier ++ [n]).flatMap (·.outputs))
  index_new : n.index ∉ earlier.map (·.index)

def AdmitsAll (o : Options) : List Node → List Node → Prop
  | _, [] => True
  | earlier, n :: rest => Admits o earlier n ∧ AdmitsAll o (earlier ++ [n]) rest

/-- What a pass over a graph has made after some nodes. -/
def Progress.after (o : Options) (g : Graph) (nodes : List Node) : Progress where
  state := ⟨.ofNodes nodes, inputCount nodes⟩
  body :=
    { (Module.empty (className o g) o.policy.name o.policy.importLines : Module Assignment) with
      inits := (emissions o [] nodes).filterMap (·.init)
      forwards := (emissions o [] nodes).map (·.use) }

def moduleOf (o : Options) (g : Graph) : Module Assignment :=
  { (Progress.after o g g.nodes).body with
    returns := some (g.outputs.map fun x => ((SymbolTable.ofNodes g.nodes).symbol x).name) }

/-! ### Statements by position -/

theorem emissions_append (o : Options) (earlier nodes rest : List Node) :
    emissions o earlier (nodes ++ rest) =
      emissions o earlier nodes ++ emissions o (earlier ++ nodes) rest := by
  induction nodes generalizing earlier with
  | nil => simp [emissions]
  | cons m tail ih => simp [emissions, ih]

theorem emissions_getElem? (o : Options) (earlier nodes : List Node) (k : Nat) :
    (emissions o earlier nodes)[k]? = nodes[k]?.map (emission o (earlier ++ nodes.take k)) := by
  induction nodes generalizing earlier k with
  | nil => simp [emissions]
  | cons n rest ih =>
    cases k with
    | zero => simp [emissions]
    | succ k => simp [emissions, ih]

theorem emissions_use_index (o : Options) (earlier nodes : List Node) :
    (emissions o earlier nodes).map (·.use.index) = nodes.map (·.index) := by
  induction nodes generalizing earlier with
  | nil => rfl
  | cons n rest ih =>
    have hn : (emission o earlier n).use.index = n.index := (Emission.form_use_node ..).2.1
    simp only [emissions, List.map_cons, ih, hn]

/-- What is said of each node and the nodes before it, said of the first node and of the others. -/
theorem forall_position_cons (P : List Node → Node → Prop) (earlier : List Node) (m : Node)
    (rest : List Node) :
    (∀ k n, (m :: rest)[k]? = some n → P (earlier ++ (m :: rest).take k) n) ↔
      P earlier m ∧ ∀ k n, rest[k]? = some n → P (earlier ++ [m] ++ rest.take k) n := by
  constructor
  · intro h
    refine ⟨by simpa using h 0 m (by simp), fun k n hk => ?_⟩
    simpa using h (k + 1) n (by simpa using hk)
  · intro hall k n hk
    obtain ⟨hm, hrest⟩ := hall
    cases k with
    | zero =>
      obtain rfl : m = n := by simpa using hk
      simpa using hm
    | succ k => simpa using hrest k n (by simpa using hk)

theorem admitsAll_iff (o : Options) (earlier nodes : List Node) :
    AdmitsAll o earlier nodes ↔
      ∀ k n, nodes[k]? = some n → Admits o (earlier ++ nodes.take k) n := by
  induction nodes generalizing earlier with
  | nil => simp [AdmitsAll]
  | cons m rest ih => rw [AdmitsAll, ih, forall_position_cons]

theorem admitsAll_append (o : Options) (earlier nodes rest : List Node) :
    AdmitsAll o earlier (nodes ++ rest) ↔
      AdmitsAll o earlier nodes ∧ AdmitsAll o (earlier ++ nodes) rest := by
  induction nodes generalizing earlier with
  | nil => simp [AdmitsAll]
  | cons n tail ih => simp [AdmitsAll, ih, and_assoc]

theorem take_append_node (nodes : List Node) (k : Nat) (n : Node) (hk : nodes[k]? = some n) :
    nodes.take k ++ [n] = nodes.take (k + 1) := by
  rw [List.take_add_one, hk]
  rfl

theorem mem_take_iff (nodes : List Node) (k : Nat) (n : Node) :
    n ∈ nodes.take k ↔ ∃ j, j < k ∧ nodes[j]? = some n := by
  constructor
  · intro hn
    obtain ⟨j, hj⟩ := List.mem_iff_getElem?.mp hn
    have hjk : j < k := by
      have hlt := (List.getElem?_eq_some_iff.mp hj).1
      rw [List.length_take] at hlt
      omega
    rw [List.getElem?_take_of_lt hjk] at hj
    exact ⟨j, hjk, hj⟩
  · intro hat
    obtain ⟨j, hjk, hj⟩ := hat
    rw [← List.getElem?_take_of_lt hjk] at hj
    exact List.mem_of_getElem? hj

theorem mem_outputs_take (nodes : List Node) (k : Nat) (x : String) :
    x ∈ (nodes.take k).flatMap (·.outputs) ↔
      ∃ (j : Nat) (n : Node), j < k ∧ nodes[j]? = some n ∧ x ∈ n.outputs := by
  simp only [List.mem_flatMap, mem_take_iff]
  constructor
  · intro hproduced
    obtain ⟨n, ⟨j, hjk, hj⟩, hx⟩ := hproduced
    exact ⟨j, n, hjk, hj, hx⟩
  · intro hproduced
    obtain ⟨j, n, hjk, hj, hx⟩ := hproduced
    exact ⟨n, ⟨j, hjk, hj⟩, hx⟩

theorem outputs_new_at (o : Options) (nodes : List Node) (h : AdmitsAll o [] nodes) (j k : Nat)
    (n n' : Node) (hjk : j < k) (hj : nodes[j]? = some n') (hk : nodes[k]? = some n) (x : String)
    (hx : x ∈ n.outputs) : x ∉ n'.outputs := by
  have hadmits := (admitsAll_iff o [] nodes).mp h k n hk
  intro hx'
  apply hadmits.outputs_new x hx
  rw [List.nil_append, mem_outputs_take]
  exact ⟨j, n', hjk, hj, hx'⟩

/-! ### Distinctness node by node -/

/-- What nodes bring along is all different exactly if each node brings along different things that
no node before it has brought. -/
theorem nodup_flatMap_iff {α : Type} (f : Node → List α) (earlier nodes : List Node)
    (h : (earlier.flatMap f).Nodup) :
    ((earlier ++ nodes).flatMap f).Nodup ↔
      ∀ k n, nodes[k]? = some n →
        (f n).Nodup ∧ ∀ x ∈ f n, x ∉ (earlier ++ nodes.take k).flatMap f := by
  induction nodes generalizing earlier with
  | nil => simp [h]
  | cons m rest ih =>
    have hfirst : ((earlier ++ [m]).flatMap f).Nodup ↔
        (f m).Nodup ∧ ∀ x ∈ f m, x ∉ earlier.flatMap f := by
      rw [List.flatMap_append, List.flatMap_singleton, List.nodup_append]
      constructor
      · intro hall
        obtain ⟨-, hm, hne⟩ := hall
        exact ⟨hm, fun x hx hx' => hne x hx' x hx rfl⟩
      · intro hall
        obtain ⟨hm, hnew⟩ := hall
        refine ⟨h, hm, fun x hx y hy hxy => hnew y hy ?_⟩
        rwa [← hxy]
    rw [forall_position_cons fun before n =>
      (f n).Nodup ∧ ∀ x ∈ f n, x ∉ before.flatMap f, ← hfirst]
    have hsplit : earlier ++ m :: rest = earlier ++ [m] ++ rest := by simp
    rw [hsplit]
    constructor
    · intro hall
      have hm : ((earlier ++ [m]).flatMap f).Nodup := by
        rw [List.flatMap_append] at hall
        exact (List.nodup_append.mp hall).1
      exact ⟨hm, (ih _ hm).mp hall⟩
    · intro hall
      obtain ⟨hm, hrest⟩ := hall
      exact (ih _ hm).mpr hrest

theorem outputs_nodup_iff (nodes : List Node) :
    (nodes.flatMap (·.outputs)).Nodup ↔
      ∀ k n, nodes[k]? = some n →
        n.outputs.Nodup ∧ ∀ x ∈ n.outputs, x ∉ (nodes.take k).flatMap (·.outputs) := by
  simpa using nodup_flatMap_iff (·.outputs) [] nodes (by simp)

theorem indices_nodup_iff (nodes : List Node) :
    (nodes.map (·.index)).Nodup ↔
      ∀ k n, nodes[k]? = some n → n.index ∉ (nodes.take k).map (·.index) := by
  have hmap : ∀ ns : List Node, ns.flatMap (fun n => [n.index]) = ns.map (·.index) := by
    intro ns
    rw [List.map_eq_flatMap]
  have h := nodup_flatMap_iff (fun n => [n.index]) [] nodes (by simp)
  simp only [List.nil_append, hmap] at h
  simpa using h

/-! ### One node -/

theorem add_yields (m : Module Assignment) (init : Option (Statement Assignment))
    (use : Statement Assignment) :
    Yields (m.add init (some use)) (use.index ∉ m.forwards.map (·.index))
      { m with inits := m.inits ++ init.toList, forwards := m.forwards ++ [use] } := by
  cases hf : m.forwards.find? (·.index == use.index) with
  | none =>
    simp only [Module.add, hf]
    refine (Yields.ok _).congr (iff_of_true trivial ?_) fun _ => rfl
    rw [List.find?_eq_none] at hf
    rw [List.mem_map]
    intro hmem
    obtain ⟨s, hs, hi⟩ := hmem
    exact hf s hs (by simpa using hi)
  | some other =>
    simp only [Module.add, hf]
    refine Yields.error _ fun h => h ?_
    have hi : other.index = use.index := by simpa using List.find?_some hf
    rw [← hi]
    exact List.mem_map_of_mem (List.mem_of_find?_eq_some hf)

theorem emit_yields (o : Options) (earlier : List Node) (n : Node) :
    Yields
      (EmissionState.emit ⟨.ofNodes earlier, inputCount earlier⟩ o.table o.policy n)
      (n.outputs.Nodup ∧ (∀ x ∈ n.outputs, x ∉ earlier.flatMap (·.outputs)) ∧ n.outputs ≠ [] ∧
        n.Emittable o.table o.policy (· ∈ (earlier ++ [n]).flatMap (·.outputs)))
      (⟨.ofNodes (earlier ++ [n]), inputCount (earlier ++ [n])⟩, emission o earlier n) := by
  have hspec := (SymbolTable.ofNodes earlier).defineOutputs_eq_ok
  have htable : (SymbolTable.ofNodes earlier).extended (n.outputs.zip n.outputNames) =
      .ofNodes (earlier ++ [n]) := (SymbolTable.ofNodes_append earlier n).symm
  have hfresh := SymbolTable.fresh_ofNodes earlier n.outputs
  have hcount : inputCount (earlier ++ [n]) =
      if n.override? = some .input then inputCount earlier + 1 else inputCount earlier := by
    simp only [inputCount, List.countP_append, List.countP_singleton, decide_eq_true_eq]
    split <;> rfl
  unfold EmissionState.emit
  cases hd : (SymbolTable.ofNodes earlier).defineOutputs n.index n.outputs with
  | mk u r =>
    cases r with
    | error e =>
      refine Yields.error _ fun h => ?_
      have hok := (hspec _ n.index n.outputs n.outputNames).mpr
        ⟨hfresh.mpr ⟨h.1, h.2.1⟩, htable.symm, rfl⟩
      rw [hd] at hok
      cases hok
    | ok names =>
      obtain ⟨hnew, hu, hnames⟩ := (hspec u n.index n.outputs names).mp hd
      obtain ⟨hnodup, hnew⟩ := hfresh.mp hnew
      obtain rfl : u = .ofNodes (earlier ++ [n]) := hu.trans htable
      obtain rfl : names = n.outputNames := hnames
      have hne := (Emission.nonEmpty_yields n.outputNames "outputs" n.name).mapError
        fun e => Halt.error (.emptySequence e)
      have hemit := (Emission.ofNode_yields o.table o.policy (.ofNodes (earlier ++ [n]))
        (inputCount earlier) n n.outputNames).bind_pure
        fun e => ((⟨.ofNodes (earlier ++ [n]), inputCount (earlier ++ [n])⟩ : EmissionState), e)
      rw [hcount, SymbolTable.ofNodes_has] at hemit
      rw [hcount]
      refine (hne.bind fun _ => hemit).congr ⟨?_, ?_⟩ fun _ => rfl
      · intro hall
        obtain ⟨hn, he⟩ := hall
        exact ⟨hnodup, hnew, n.outputNames_ne_nil.mp hn, he⟩
      · intro hall
        obtain ⟨-, -, hn, he⟩ := hall
        exact ⟨n.outputNames_ne_nil.mpr hn, he⟩

theorem step_yields (o : Options) (g : Graph) (earlier : List Node) (n : Node) :
    Yields ((Progress.after o g earlier).step o n) (Admits o earlier n)
      (Progress.after o g (earlier ++ [n]), (emission o earlier n).route) := by
  have hadd := (add_yields (Progress.after o g earlier).body (emission o earlier n).init
    (emission o earlier n).use).mapError fun e => Halt.error (.rejected e)
  have hindex : (Progress.after o g earlier).body.forwards.map (·.index) =
      earlier.map (·.index) := by
    rw [← emissions_use_index o [] earlier]
    simp only [Progress.after, List.map_map]
    rfl
  have huse : (emission o earlier n).use.index = n.index := (Emission.form_use_node ..).2.1
  rw [hindex, huse] at hadd
  have hafter := hadd.bind_pure fun body =>
    ((⟨⟨.ofNodes (earlier ++ [n]), inputCount (earlier ++ [n])⟩, body⟩ : Progress),
      (emission o earlier n).route)
  refine ((emit_yields o earlier n).bind fun _ => hafter).congr ⟨?_, ?_⟩ fun _ => ?_
  · intro hall
    obtain ⟨⟨hnd, hnew, hne, he⟩, hi⟩ := hall
    exact ⟨hne, hnd, hnew, he, hi⟩
  · intro h
    exact ⟨⟨h.outputs_nodup, h.outputs_new, h.outputs_ne_nil, h.emittable⟩, h.index_new⟩
  · have happend := emissions_append o [] earlier [n]
    rw [List.nil_append] at happend
    simp only [Progress.after, happend, emissions, List.map_append, List.filterMap_append]
    cases hin : (emission o earlier n).init <;> simp [hin]

/-! ### All nodes -/

theorem Progress.run_cons (o : Options) (p : Progress) (n : Node) (rest : List Node) :
    (p.run o (n :: rest)).2 = p.step o n >>= fun r => (r.1.run o rest).2 := by
  simp only [Progress.run]
  cases p.step o n <;> rfl

/-- A pass goes through further nodes exactly if they are admitted one after another. -/
theorem run_yields (o : Options) (g : Graph) (earlier nodes : List Node) :
    Yields ((Progress.after o g earlier).run o nodes).2 (AdmitsAll o earlier nodes)
      (Progress.after o g (earlier ++ nodes)) := by
  induction nodes generalizing earlier with
  | nil =>
    rw [List.append_nil]
    exact Yields.ok _
  | cons n rest ih =>
    have hstep := step_yields o g earlier n
    rw [Progress.run_cons]
    have hrest := ih (earlier ++ [n])
    rw [List.append_assoc, List.singleton_append] at hrest
    exact hstep.bind fun _ => hrest

theorem terminals_yields (t : SymbolTable) (xs : List String) :
    Yields (terminals t xs) (∀ x ∈ xs, t.Has x) (xs.map fun x => (t.symbol x).name) := by
  induction xs with
  | nil => exact (Yields.ok _).congr (by simp) fun _ => rfl
  | cons x rest ih =>
    have hlookup := (t.lookup_yields x).mapError
      fun e => EmissionError.inOutputs (.missingProducer e)
    refine (hlookup.bind fun _ => ih.bind_pure ((t.symbol x).name :: ·)).congr ?_ fun _ => rfl
    rw [List.forall_mem_cons]

theorem finish_yields (o : Options) (g : Graph) :
    Yields ((Progress.after o g g.nodes).finish g)
      (g.outputs ≠ [] ∧ ∀ x ∈ g.outputs, x ∈ g.nodes.flatMap (·.outputs)) (moduleOf o g) := by
  have hne := (Emission.nonEmpty_yields g.outputs "terminal outputs" "").mapError
    EmissionError.emptySequence
  have hterminals := terminals_yields (.ofNodes g.nodes) g.outputs
  rw [SymbolTable.ofNodes_has] at hterminals
  exact hne.bind fun _ => hterminals.bind_pure fun returns =>
    ({ (Progress.after o g g.nodes).body with returns := some returns } : Module Assignment)

/-- A pass gives a module exactly if all nodes are admitted one after another and there are terminal
tensors, all of them outputs of nodes. -/
theorem build_yields (o : Options) (g : Graph) :
    Yields (build o g)
      (AdmitsAll o [] g.nodes ∧ g.outputs ≠ [] ∧
        ∀ x ∈ g.outputs, x ∈ g.nodes.flatMap (·.outputs))
      (moduleOf o g) := by
  have hrun := run_yields o g [] g.nodes
  rw [List.nil_append] at hrun
  exact hrun.bind fun _ => (finish_yields o g).mapError Halt.error

/-! ### Assigned symbols -/

/-- The node at position `j` produces a tensor, and its forward statement assigns the name to it. -/
def AssignsAt (g : Graph) (m : Module Assignment) (j : Nat) (x : Symbol) : Prop :=
  ∃ (n : Node) (s : Statement Assignment) (i : Nat), g.nodes[j]? = some n ∧ m.forwards[j]? = some s ∧
    n.outputs[i]? = some x.tensor ∧ s.code.targets[i]? = some x.name

theorem forwards_getElem? (o : Options) (g : Graph) (k : Nat) :
    (moduleOf o g).forwards[k]? =
      g.nodes[k]?.map fun n => (emission o (g.nodes.take k) n).use := by
  have h : (moduleOf o g).forwards = (emissions o [] g.nodes).map (·.use) := rfl
  rw [h, List.getElem?_map, emissions_getElem?, Option.map_map, List.nil_append]
  rfl

theorem emission_targets (o : Options) (earlier : List Node) (n : Node) :
    (emission o earlier n).use.code.targets = n.outputNames := (Emission.form_use_node ..).2.2

/-- The table of a prefix of the nodes names a tensor as a statement of the prefix assigns it. -/
theorem assignsAt_of_has (o : Options) (g : Graph) (k : Nat) (x : String)
    (h : (SymbolTable.ofNodes (g.nodes.take k)).Has x) :
    ∃ j, j < k ∧ AssignsAt g (moduleOf o g) j ((SymbolTable.ofNodes (g.nodes.take k)).symbol x) := by
  have hmem := SymbolTable.symbol_mem_of_has _ x h
  obtain ⟨n, hn, hb⟩ := List.mem_flatMap.mp hmem
  obtain ⟨j, hjk, hj⟩ := (mem_take_iff g.nodes k n).mp hn
  obtain ⟨i, hi⟩ := List.mem_iff_getElem?.mp hb
  obtain ⟨hout, hname⟩ := List.getElem?_zip_eq_some.mp hi
  refine ⟨j, hjk, n, (emission o (g.nodes.take j) n).use, i, hj, ?_, hout, ?_⟩
  · rw [forwards_getElem?, hj]
    rfl
  · rw [emission_targets]
    exact hname

theorem mem_outputs_of_assignsAt {g : Graph} {m : Module Assignment} {j : Nat} {x : Symbol}
    {n : Node} (h : AssignsAt g m j x) (hn : g.nodes[j]? = some n) : x.tensor ∈ n.outputs := by
  obtain ⟨n', s, i, hn', -, hout, -⟩ := h
  rw [hn] at hn'
  cases hn'
  exact List.mem_of_getElem? hout

/-- A tensor is assigned by one statement, under one name. -/
theorem assignsAt_unique (o : Options) (g : Graph) (h : AdmitsAll o [] g.nodes)
    (m : Module Assignment) (j k : Nat) (x y z : String) (hj : AssignsAt g m j ⟨x, y⟩)
    (hk : AssignsAt g m k ⟨x, z⟩) : j = k ∧ y = z := by
  obtain ⟨n, s, i, hn, hs, hout, hname⟩ := hj
  obtain ⟨n', s', i', hn', hs', hout', hname'⟩ := hk
  have hx : x ∈ n.outputs := List.mem_of_getElem? hout
  have hx' : x ∈ n'.outputs := List.mem_of_getElem? hout'
  have hjk : j = k := by
    apply Nat.le_antisymm
    · apply Nat.le_of_not_lt
      intro hlt
      exact outputs_new_at o g.nodes h k j n n' hlt hn' hn x hx hx'
    · apply Nat.le_of_not_lt
      intro hlt
      exact outputs_new_at o g.nodes h j k n' n hlt hn hn' x hx' hx
  subst hjk
  rw [hn] at hn'
  cases hn'
  rw [hs] at hs'
  cases hs'
  have hnodup := ((admitsAll_iff o [] g.nodes).mp h j n hn).outputs_nodup
  have hi : i < n.outputs.length := (List.getElem?_eq_some_iff.mp hout).1
  obtain rfl : i = i' := (List.getElem?_inj hi hnodup).mp (hout.trans hout'.symm)
  rw [hname] at hname'
  exact ⟨rfl, Option.some.inj hname'⟩

end Generation

end Netscribe
