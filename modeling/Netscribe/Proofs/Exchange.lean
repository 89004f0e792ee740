import Mathlib.Data.List.Nodup
import Netscribe.Proofs.Correspondence
import Netscribe.Proofs.Locality

/-!
# Independent nodes can be exchanged

Two nodes that stand side by side, of which neither mentions a tensor of the other, can be emitted in
either order. Each of the two sees the same names for the tensors it mentions, and all nodes behind
them see the same names.
-/

namespace Netscribe

/-- Neither node mentions a tensor that the other one produces. -/
def Node.Independent (a b : Node) : Prop :=
  (∀ x ∈ a.mentions, x ∉ b.outputs) ∧ ∀ x ∈ b.mentions, x ∉ a.outputs

theorem Node.Independent.symm {a b : Node} (h : a.Independent b) : b.Independent a := ⟨h.2, h.1⟩

theorem Node.type_of_override?_input (n : Node) (h : n.override? = some .input) :
    n.op.type = "input" := by
  obtain ⟨before, after, hall, -⟩ := List.lookup_eq_some_iff.mp h
  have hmem : (n.op.type, Override.input) ∈ Override.all := by
    rw [hall]
    simp
  simpa [Override.all] using hmem

/-! ### Tables of the same nodes in another order -/

namespace SymbolTable

theorem resolve?_eq_some_iff (bs : List (String × String)) (h : (bs.map (·.1)).Nodup)
    (x name : String) : (ofList bs).resolve? x = some name ↔ (x, name) ∈ bs := by
  rw [resolve?_ofList]
  constructor
  · intro hr
    obtain ⟨before, after, he, -⟩ := List.lookup_eq_some_iff.mp hr
    rw [he]
    simp
  · intro hmem
    have hx : (ofList bs).Has x := (has_extended _ bs x).mpr (.inr (List.mem_map_of_mem hmem))
    have hsame := List.inj_on_of_nodup_map h (symbol_mem_of_has bs x hx) hmem rfl
    rw [← resolve?_ofList, resolve?_of_has _ x hx, (Prod.mk.inj hsame).2]

theorem ofNodes_perm (nodes nodes' : List Node) (h : nodes.Perm nodes')
    (hnodup : (nodes.flatMap (·.outputs)).Nodup) (x : String) :
    (ofNodes nodes).resolve? x = (ofNodes nodes').resolve? x := by
  have hnodup' : (nodes'.flatMap (·.outputs)).Nodup := (h.flatMap_right _).nodup_iff.mp hnodup
  rw [← bindings_tensors] at hnodup hnodup'
  apply Option.ext
  intro name
  rw [ofNodes, ofNodes, resolve?_eq_some_iff _ hnodup, resolve?_eq_some_iff _ hnodup']
  exact (h.flatMap_right Node.bindings).mem_iff

/-- A node that does not produce a tensor has no say in its name. -/
theorem ofNodes_skip (before after : List Node) (n : Node) (x : String) (hx : x ∉ n.outputs) :
    (ofNodes (before ++ [n] ++ after)).resolve? x = (ofNodes (before ++ after)).resolve? x := by
  have hnone : n.bindings.lookup x = none := by
    have hkeys : ¬ (ofNodes [n]).Has x := by simpa [ofNodes_has] using hx
    have hr := (resolve?_eq_none (ofNodes [n]) x).mpr hkeys
    rwa [ofNodes, resolve?_ofList, List.flatMap_singleton] at hr
  simp [ofNodes, resolve?_ofList, List.lookup_append, hnone]

end SymbolTable

namespace Generation

/-! ### Admission -/

theorem admits_perm (o : Options) (earlier earlier' : List Node) (h : earlier.Perm earlier')
    (n : Node) (ha : Admits o earlier n) : Admits o earlier' n := by
  have houtputs : ∀ x, x ∈ earlier.flatMap (·.outputs) ↔ x ∈ earlier'.flatMap (·.outputs) :=
    fun x => (h.flatMap_right _).mem_iff
  refine ⟨ha.outputs_ne_nil, ha.outputs_nodup, fun x hx hx' => ?_, ?_, fun hi => ?_⟩
  · exact ha.outputs_new x hx ((houtputs x).mpr hx')
  · refine ha.emittable.of_defined _ fun x _ hx => ?_
    exact ((h.append_right [n]).flatMap_right _).mem_iff.mp hx
  · exact ha.index_new ((h.map _).mem_iff.mpr hi)

theorem admitsAll_perm (o : Options) (earlier earlier' : List Node) (h : earlier.Perm earlier')
    (nodes : List Node) (ha : AdmitsAll o earlier nodes) : AdmitsAll o earlier' nodes := by
  induction nodes generalizing earlier earlier' with
  | nil => trivial
  | cons n rest ih =>
    exact ⟨admits_perm o earlier earlier' h n ha.1, ih _ _ (h.append_right [n]) ha.2⟩

/-- The second of two independent nodes can come first. -/
theorem admits_first (o : Options) (earlier : List Node) (a b : Node) (hab : a.Independent b)
    (hb : Admits o (earlier ++ [a]) b) : Admits o earlier b := by
  refine ⟨hb.outputs_ne_nil, hb.outputs_nodup, fun x hx hx' => ?_, ?_, fun hi => ?_⟩
  · apply hb.outputs_new x hx
    rw [List.flatMap_append]
    exact List.mem_append_left _ hx'
  · refine hb.emittable.of_defined _ fun x hx hdef => ?_
    have hnot : x ∉ a.outputs := hab.2 x (List.mem_append_left _ hx)
    simp only [List.flatMap_append, List.flatMap_singleton, List.mem_append] at hdef ⊢
    rcases hdef with (hdef | hdef) | hdef
    · exact .inl hdef
    · exact absurd hdef hnot
    · exact .inr hdef
  · apply hb.index_new
    rw [List.map_append]
    exact List.mem_append_left _ hi

/-- The first of two nodes can come second if the other one was admitted behind it. -/
theorem admits_second (o : Options) (earlier : List Node) (a b : Node) (ha : Admits o earlier a)
    (hb : Admits o (earlier ++ [a]) b) : Admits o (earlier ++ [b]) a := by
  refine ⟨ha.outputs_ne_nil, ha.outputs_nodup, fun x hx hx' => ?_, ?_, fun hi => ?_⟩
  · rw [List.flatMap_append, List.flatMap_singleton, List.mem_append] at hx'
    rcases hx' with hx' | hx'
    · exact ha.outputs_new x hx hx'
    · exact hb.outputs_new x hx' (by simp [hx])
  · refine ha.emittable.of_defined _ fun x _ hdef => ?_
    simp only [List.flatMap_append, List.flatMap_singleton, List.mem_append] at hdef ⊢
    exact hdef.imp_left .inl
  · rw [List.map_append, List.mem_append] at hi
    rcases hi with hi | hi
    · exact ha.index_new hi
    · apply hb.index_new
      have hsame : a.index = b.index := List.mem_singleton.mp hi
      rw [← hsame]
      simp

theorem perm_exchange (before after : List Node) (a b : Node) :
    (before ++ a :: b :: after).Perm (before ++ b :: a :: after) :=
  (List.Perm.swap b a after).append_left before

theorem admitsAll_exchange (o : Options) (before after : List Node) (a b : Node)
    (hab : a.Independent b) (h : AdmitsAll o [] (before ++ a :: b :: after)) :
    AdmitsAll o [] (before ++ b :: a :: after) := by
  rw [admitsAll_append, List.nil_append] at h ⊢
  obtain ⟨hbefore, ha, hb, hafter⟩ := h
  refine ⟨hbefore, admits_first o before a b hab hb, admits_second o before a b ha hb, ?_⟩
  rw [List.append_assoc] at hafter ⊢
  exact admitsAll_perm o _ _ (perm_exchange before [] a b) after hafter

/-! ### Statements -/

theorem outputs_nodup_of_admitsAll (o : Options) (nodes : List Node) (h : AdmitsAll o [] nodes) :
    (nodes.flatMap (·.outputs)).Nodup := by
  rw [outputs_nodup_iff]
  intro k n hk
  have ha := (admitsAll_iff o [] nodes).mp h k n hk
  exact ⟨ha.outputs_nodup, ha.outputs_new⟩

theorem inputCount_perm (nodes nodes' : List Node) (h : nodes.Perm nodes') :
    inputCount nodes = inputCount nodes' := h.countP_eq _

/-- The statements of further nodes do not depend on the order of the nodes before them. -/
theorem emissions_perm (o : Options) (earlier earlier' nodes : List Node)
    (h : earlier.Perm earlier') (ha : AdmitsAll o [] (earlier ++ nodes)) :
    emissions o earlier nodes = emissions o earlier' nodes := by
  induction nodes generalizing earlier earlier' with
  | nil => rfl
  | cons n rest ih =>
    have hperm : (earlier ++ [n]).Perm (earlier' ++ [n]) := h.append_right [n]
    have hsplit : AdmitsAll o [] (earlier ++ [n] ++ rest) := by
      rw [List.append_assoc]
      exact ha
    have hupto : AdmitsAll o [] (earlier ++ [n]) := ((admitsAll_append o [] _ rest).mp hsplit).1
    have hn : Admits o earlier n := ((admitsAll_append o [] earlier [n]).mp hupto).2.1
    have hsame : emission o earlier n = emission o earlier' n := by
      unfold emission
      rw [inputCount_perm earlier earlier' h]
      refine Emission.form_congr o.table o.policy _ n _ (fun x _ => ?_) hn.emittable.has_input
      exact SymbolTable.ofNodes_perm _ _ hperm (outputs_nodup_of_admitsAll o _ hupto) x
    simp only [emissions, hsame, ih _ _ hperm hsplit]

/-- The statements of a node stay the same if a node comes before it that produces nothing it mentions
and is not a graph input like itself. -/
theorem emission_skip (o : Options) (earlier : List Node) (a b : Node) (ha : Admits o earlier a)
    (hab : ∀ x ∈ a.mentions, x ∉ b.outputs)
    (hin : ¬ (a.op.type = "input" ∧ b.op.type = "input")) :
    emission o (earlier ++ [b]) a = emission o earlier a := by
  unfold emission
  have htable : SymbolTable.AgreeOn (.ofNodes (earlier ++ [b] ++ [a])) (.ofNodes (earlier ++ [a]))
      a.mentions := fun x hx => SymbolTable.ofNodes_skip earlier [a] b x (hab x hx)
  rw [Emission.form_congr o.table o.policy _ a _ htable ha.emittable.has_input]
  by_cases hinput : a.override? = some .input
  · -- the other node is no graph input, so the count is the same
    have hother : ¬ b.override? = some .input := fun hb =>
      hin ⟨a.type_of_override?_input hinput, b.type_of_override?_input hb⟩
    have hcount : inputCount (earlier ++ [b]) = inputCount earlier := by
      simp [inputCount, List.countP_append, hother]
    rw [hcount]
  · exact Emission.form_count o.table o.policy _ _ _ a _ hinput

/-! ### Modules -/

/-- Two modules are equal up to the order of the statements of two nodes, the first of which has its
forward statement at the given position. -/
def Exchanged (o : Options) (position : Nat) (a b : Node) (m m' : Module Assignment) : Prop :=
  ∃ (fs fs' is is' : List (Statement Assignment)) (ea eb : Emission),
    fs.length = position ∧ UseOf o a ea.use ∧ UseOf o b eb.use ∧
    (ea.init.isSome = a.hasSubmodule o.table o.policy ∧ ∀ s ∈ ea.init, InitOf a s) ∧
    (eb.init.isSome = b.hasSubmodule o.table o.policy ∧ ∀ s ∈ eb.init, InitOf b s) ∧
    m.forwards = fs ++ ea.use :: eb.use :: fs' ∧
    m.inits = is ++ (ea.init.toList ++ eb.init.toList) ++ is' ∧
    m' = { m with
      forwards := fs ++ eb.use :: ea.use :: fs'
      inits := is ++ (eb.init.toList ++ ea.init.toList) ++ is' }

theorem emission_init (o : Options) (earlier : List Node) (n : Node) :
    (emission o earlier n).init.isSome = n.hasSubmodule o.table o.policy ∧
      ∀ s ∈ (emission o earlier n).init, InitOf n s := by
  cases hsub : n.hasSubmodule o.table o.policy with
  | false =>
    rw [emission_init_none o earlier n hsub]
    exact ⟨rfl, fun s hs => by cases hs⟩
  | true =>
    obtain ⟨s, hs, hinit⟩ := emission_init_some o earlier n hsub
    rw [hs]
    refine ⟨rfl, fun s' hs' => ?_⟩
    cases hs'
    exact hinit

theorem length_emissions (o : Options) (earlier nodes : List Node) :
    (emissions o earlier nodes).length = nodes.length := by
  induction nodes generalizing earlier with
  | nil => rfl
  | cons n rest ih => simp only [emissions, List.length_cons, ih]

theorem emissions_exchange (o : Options) (before after : List Node) (a b : Node)
    (hab : a.Independent b) (hin : ¬ (a.op.type = "input" ∧ b.op.type = "input"))
    (h : AdmitsAll o [] (before ++ a :: b :: after)) :
    ∃ (es es' : List Emission), es.length = before.length ∧
      emissions o [] (before ++ a :: b :: after) =
        es ++ emission o before a :: emission o before b :: es' ∧
      emissions o [] (before ++ b :: a :: after) =
        es ++ emission o before b :: emission o before a :: es' := by
  have hexchanged := admitsAll_exchange o before after a b hab h
  have hadmitted := (admitsAll_append o [] before (a :: b :: after)).mp h
  have ha : Admits o before a := hadmitted.2.1
  have hb : Admits o before b := ((admitsAll_append o [] before (b :: a :: after)).mp hexchanged).2.1
  have hskipa := emission_skip o before a b ha hab.1 hin
  have hskipb := emission_skip o before b a hb hab.2 fun hboth => hin hboth.symm
  have hafter : emissions o (before ++ [a] ++ [b]) after =
      emissions o (before ++ [b] ++ [a]) after := by
    refine emissions_perm o _ _ after ?_ (by simpa using h)
    simpa using perm_exchange before [] a b
  refine ⟨emissions o [] before, emissions o (before ++ [b] ++ [a]) after,
    length_emissions o [] before, ?_, ?_⟩
  · rw [emissions_append, List.nil_append, emissions, emissions, hskipb, hafter]
  · rw [emissions_append, List.nil_append, emissions, emissions, hskipa]

theorem moduleOf_exchange (o : Options) (g : Graph) (before after : List Node) (a b : Node)
    (hg : g.nodes = before ++ a :: b :: after) (hab : a.Independent b)
    (hin : ¬ (a.op.type = "input" ∧ b.op.type = "input")) (h : AdmitsAll o [] g.nodes) :
    Exchanged o before.length a b (moduleOf o g)
      (moduleOf o { g with nodes := before ++ b :: a :: after }) := by
  have hnodup := outputs_nodup_of_admitsAll o g.nodes h
  rw [hg] at h hnodup
  obtain ⟨es, es', hlength, hes, hes'⟩ := emissions_exchange o before after a b hab hin h
  refine ⟨es.map (·.use), es'.map (·.use), es.filterMap (·.init), es'.filterMap (·.init),
    emission o before a, emission o before b, by rw [List.length_map, hlength],
    emission_useOf o before a, emission_useOf o before b, emission_init o before a,
    emission_init o before b, ?_, ?_, ?_⟩
  · simp [moduleOf, Progress.after, hg, hes]
  · simp only [moduleOf, Progress.after, hg, hes, List.filterMap_append, List.filterMap_cons]
    cases (emission o before a).init <;> cases (emission o before b).init <;> simp
  · have hreturns : ∀ x, (SymbolTable.ofNodes (before ++ b :: a :: after)).symbol x =
        (SymbolTable.ofNodes (before ++ a :: b :: after)).symbol x := by
      intro x
      have hresolve := SymbolTable.ofNodes_perm _ _ (perm_exchange before after a b) hnodup x
      simp only [SymbolTable.symbol, hresolve]
    simp only [moduleOf, Progress.after, hg, hes', hreturns, List.filterMap_append,
      List.filterMap_cons, List.map_append, List.map_cons]
    cases (emission o before a).init <;> cases (emission o before b).init <;>
      simp [Module.empty, className]

/-- Two independent nodes side by side, not both of them graph inputs, can be exchanged: the pass
succeeds in both orders or in none, and the modules differ in the order of their statements only. -/
theorem independent_nodes_commute (o : Options) (g : Graph) (before after : List Node) (a b : Node)
    (hg : g.nodes = before ++ a :: b :: after) (hab : a.Independent b)
    (hin : ¬ (a.op.type = "input" ∧ b.op.type = "input")) :
    ((∃ m, build o g = .ok m) ↔
        ∃ m, build o { g with nodes := before ++ b :: a :: after } = .ok m) ∧
      ∀ m m', build o g = .ok m → build o { g with nodes := before ++ b :: a :: after } = .ok m' →
        Exchanged o before.length a b m m' := by
  refine ⟨?_, fun m m' hm hm' => ?_⟩
  · have hproduced : ∀ x, x ∈ (before ++ b :: a :: after).flatMap (·.outputs) ↔
        x ∈ g.nodes.flatMap (·.outputs) := by
      intro x
      rw [hg]
      exact ((perm_exchange before after b a).flatMap_right _).mem_iff
    rw [(build_yields o g).exists_iff, (build_yields o _).exists_iff]
    simp only [hproduced, hg]
    refine and_congr_left fun _ => ⟨?_, ?_⟩
    · exact admitsAll_exchange o before after a b hab
    · exact admitsAll_exchange o before after b a hab.symm
  · have hadmitted := ((build_yields o g).holds hm).1
    obtain rfl := (build_yields o g).value hm
    obtain rfl := (build_yields o _).value hm'
    exact moduleOf_exchange o g before after a b hg hab hin hadmitted

/-- A linear layer and an activation of one input, and their sum. -/
def twoBranches : Graph :=
  Sample.graphOf "Branches" ["t3"]
    [⟨"x", "input", [], [], ["t0"]⟩,
     ⟨"left", "dense", [("in_features", .int 4), ("out_features", .int 4)], ["t0"], ["t1"]⟩,
     ⟨"right", "relu", [], ["t0"], ["t2"]⟩,
     ⟨"sum", "add", [("input", .tensor "t2"), ("other", .tensor "t1")], ["t1", "t2"], ["t3"]⟩]

theorem two_branches_commute :
    ∃ (before after : List Node) (a b : Node) (m m' : Module Assignment),
      twoBranches.nodes = before ++ a :: b :: after ∧ a.name = "left" ∧ b.name = "right" ∧
      a.Independent b ∧ build {} twoBranches = .ok m ∧
      build {} { twoBranches with nodes := before ++ b :: a :: after } = .ok m' ∧
      m.inits.map (·.code.text) =
        ["self.module_1 = torch.nn.Linear(in_features=4, out_features=4)",
         "self.module_2 = torch.nn.ReLU()"] ∧
      Exchanged {} 1 a b m m' := by
  have hind : ∀ a ∈ twoBranches.nodes[1]?, ∀ b ∈ twoBranches.nodes[2]?, a.Independent b := by
    unfold Node.Independent
    decide
  have hab := hind _ rfl _ rfl
  refine ⟨[_], [_], _, _, _, _, rfl, rfl, rfl, hab, rfl, rfl, rfl, ?_⟩
  exact (independent_nodes_commute {} twoBranches [_] [_] _ _ rfl hab (by decide)).2 _ _ rfl rfl

end Generation

end Netscribe
