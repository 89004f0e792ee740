import Mathlib.Data.List.Nodup
import Netscribe.Operator.Catalog
import Netscribe.Proofs.Construction
import Netscribe.Proofs.Correspondence
import Netscribe.Proofs.Dispatch

/-!
# Which keywords a call has twice

No keyword stands twice in a call of the forward method: an operator without state is checked for it,
and all other calls there have fixed keywords or none. A constructor call takes the attributes that
the entry asks for as they come. It repeats a keyword exactly if these names repeat an attribute of
the node, by the template of the entry or, under an empty or generic one, by the node's own list.
-/

namespace Netscribe

def Rhs.keywordNames : Rhs → List String
  | .call c => c.keywords.map (·.name)
  | _ => []

namespace Node

/-- The keywords of the constructor call of a node. Only a module with state has any. -/
def constructorKeywords (table : OperatorTable) (n : Node) : List String :=
  if n.override? = none ∧ (n.entry table).kind = .statefulModule then
    n.op.definedAmong ((n.entry table).attributeNames n.op)
  else []

/-- A module with state that has an attribute whose name is asked for more than once. -/
structure RepeatsKeyword (table : OperatorTable) (n : Node) : Prop where
  not_overridden : n.override? = none
  stateful : (n.entry table).kind = .statefulModule
  repeated : ∃ name, (n.op.attribute? name).isSome = true ∧
    1 < ((n.entry table).attributeNames n.op).count name

end Node

theorem Operator.count_definedAmong (op : Operator) (names : List String) (name : String) :
    (op.definedAmong names).count name =
      if (op.attribute? name).isSome then names.count name else 0 := by
  split
  · next hdefined => exact List.count_filter hdefined
  · next hmissing =>
    apply List.count_eq_zero_of_not_mem
    intro hmem
    exact hmissing (List.mem_filter.mp hmem).2

theorem Operator.definedAmong_nodup_iff (op : Operator) (names : List String) :
    (op.definedAmong names).Nodup ↔
      ∀ name, (op.attribute? name).isSome = true → names.count name ≤ 1 := by
  rw [List.nodup_iff_count_le_one]
  constructor
  · intro h name hdefined
    have hcount := h name
    rw [count_definedAmong, if_pos hdefined] at hcount
    exact hcount
  · intro h name
    rw [count_definedAmong]
    split
    · next hdefined => exact h name hdefined
    · omega

theorem Node.constructorKeywords_nodup_iff (table : OperatorTable) (n : Node) :
    (n.constructorKeywords table).Nodup ↔ ¬ n.RepeatsKeyword table := by
  unfold constructorKeywords
  split
  · next hmodule =>
    rw [Operator.definedAmong_nodup_iff]
    constructor
    · intro h hrepeats
      obtain ⟨name, hdefined, hcount⟩ := hrepeats.repeated
      have hle := h name hdefined
      omega
    · intro h name hdefined
      apply Nat.le_of_not_lt
      intro hcount
      exact h ⟨hmodule.1, hmodule.2, name, hdefined, hcount⟩
  · next hother =>
    simp only [List.nodup_nil, true_iff]
    intro hrepeats
    exact hother ⟨hrepeats.not_overridden, hrepeats.stateful⟩

namespace Emission

/-! ### The calls of one node -/

theorem construction_keywordNames (p : Policy) (e : OperatorEntry) (n : Node)
    (keywords : List Keyword) :
    (construction p e n keywords).code.rhs.keywordNames = keywords.map (·.name) := rfl

theorem form_init_keywordNames (table : OperatorTable) (p : Policy) (t : SymbolTable) (count : Nat)
    (n : Node) (targets : List String) (s : Statement Assignment)
    (h : (form table p t count n targets).init = some s) :
    s.code.rhs.keywordNames = n.constructorKeywords table := by
  unfold form at h
  cases ho : n.override? with
  | some o => simp [ho] at h
  | none =>
    by_cases hk : (n.entry table).kind = .statefulModule
    · simp only [ho, if_pos hk, statefulForm, Option.some.injEq] at h
      rw [← h, construction_keywordNames, t.keywords_names]
      simp only [Node.constructorKeywords, ho, hk, and_self, if_true]
    · simp only [ho, if_neg hk, statelessForm] at h
      have hnone : n.constructorKeywords table = [] := by simp [Node.constructorKeywords, hk]
      cases hd : p.dispatch with
      | direct => simp [hd, directForm] at h
      | submodule =>
        simp only [hd, submoduleForm, Option.some.injEq] at h
        rw [← h, construction_keywordNames, hnone]
        rfl

theorem override_keywordNames_nodup (o : Override) (t : SymbolTable) (count : Nat) (n : Node) :
    (o.form t count n).keywordNames.Nodup := by
  cases o with
  | const =>
    have hnames : (Override.const.form t count n).keywordNames =
        n.op.definedAmong Override.constAttributes := t.keywords_names n.op _
    rw [hnames]
    exact List.Nodup.filter _ (by decide)
  | _ => exact List.nodup_nil

/-- The receiver of a method is the first keyword where a submodule takes it. -/
theorem receiverKeyword_names (t : SymbolTable) (e : OperatorEntry) (n : Node)
    (h : e.kind = .methodCall → n.inputs ≠ []) :
    (receiverKeyword (CallSite.form t e n)).map (·.name) =
      if CallSite.takesReceiver e .submodule then [CallSite.receiverKeyword] else [] := by
  unfold receiverKeyword CallSite.form CallSite.receiverInput CallSite.takesReceiver
  by_cases hm : e.kind = .methodCall
  · obtain ⟨x, rest, hx⟩ := List.exists_cons_of_ne_nil (h hm)
    simp [hm, hx]
  · simp [hm]

/-- The keywords of a stateless call are the ones that were checked. -/
theorem statelessForm_keywordNames (p : Policy) (t : SymbolTable) (e : OperatorEntry) (n : Node)
    (targets : List String) (h : e.kind = .methodCall → n.inputs ≠ []) :
    (statelessForm p t e n targets).use.code.rhs.keywordNames =
      CallSite.nodeKeywords p.dispatch e n := by
  have hattributes := t.keywords_names n.op (e.attributeNames n.op)
  unfold statelessForm CallSite.nodeKeywords
  cases p.dispatch with
  | direct =>
    simp only [directForm, statement, Rhs.keywordNames, CallSite.form, hattributes,
      CallSite.takesReceiver]
    simp
  | submodule =>
    simp only [submoduleForm, statement, Rhs.keywordNames, List.map_append,
      receiverKeyword_names t e n h]
    rw [← hattributes]
    rfl

theorem form_use_keywordNames_nodup (table : OperatorTable) (p : Policy) (t : SymbolTable)
    (count : Nat) (n : Node) (targets : List String) (h : n.Emittable table p t.Has) :
    (form table p t count n targets).use.code.rhs.keywordNames.Nodup := by
  unfold form
  cases ho : n.override? with
  | some o => exact override_keywordNames_nodup o t count n
  | none =>
    obtain ⟨hsupported, -, hinputs, -, hunambiguous⟩ :=
      (emittable_classified table p t.Has n ho).mp h
    by_cases hk : (n.entry table).kind = .statefulModule
    · simp only [if_pos hk]
      exact List.nodup_nil
    · have hstateless := OperatorClass.isStateless_of_isSupported _ hsupported hk
      simp only [if_neg hk]
      rw [statelessForm_keywordNames p t _ n targets fun hm => hinputs (.inr hm)]
      exact (hunambiguous hstateless).1

end Emission

/-! ### The default table -/

/-- Every module with state of the default table declares its attributes, each of them once. -/
theorem OperatorTable.default_stateful_attributes (type : String)
    (h : (OperatorTable.default.lookup type).kind = .statefulModule) :
    (OperatorTable.default.lookup type).declares = true ∧
      (OperatorTable.default.lookup type).attributes.Nodup := by
  have hentries : ∀ e ∈ OperatorTable.default.entries.map (·.2), e.kind = .statefulModule →
      e.declares = true ∧ e.attributes.Nodup := by decide +kernel
  unfold lookup at h ⊢
  cases hfound : OperatorTable.default.entries.lookup type with
  | none =>
    rw [hfound] at h
    cases h
  | some e =>
    rw [hfound] at h
    obtain ⟨before, after, hsplit, -⟩ := List.lookup_eq_some_iff.mp hfound
    refine hentries e (List.mem_map.mpr ⟨(type, e), ?_, rfl⟩) h
    rw [hsplit]
    exact List.mem_append_right before List.mem_cons_self

theorem Node.not_repeatsKeyword_default (n : Node) : ¬ n.RepeatsKeyword .default := by
  intro hrepeats
  obtain ⟨hdeclares, hnodup⟩ := OperatorTable.default_stateful_attributes n.op.type hrepeats.stateful
  obtain ⟨name, -, hcount⟩ := hrepeats.repeated
  have hnames : (n.entry .default).attributeNames n.op = (n.entry .default).attributes :=
    if_pos hdeclares
  rw [hnames] at hcount
  have hle := List.nodup_iff_count_le_one.mp hnodup name
  simp only [Node.entry] at hcount
  omega

namespace Generation

theorem forward_keywords_nodup (o : Options) (g : Graph) (h : AdmitsAll o [] g.nodes) :
    ∀ s ∈ (moduleOf o g).forwards, s.code.rhs.keywordNames.Nodup := by
  intro s hs
  obtain ⟨k, hk⟩ := List.mem_iff_getElem?.mp hs
  rw [forwards_getElem?, Option.map_eq_some_iff] at hk
  obtain ⟨n, hn, rfl⟩ := hk
  have hemittable := ((admitsAll_iff o [] g.nodes).mp h k n hn).emittable
  rw [List.nil_append, ← SymbolTable.ofNodes_has] at hemittable
  exact Emission.form_use_keywordNames_nodup o.table o.policy _ _ n _ hemittable

theorem init_keywords_nodup_iff (o : Options) (g : Graph) :
    (∀ s ∈ (moduleOf o g).inits, s.code.rhs.keywordNames.Nodup) ↔
      ∀ n ∈ g.nodes, ¬ n.RepeatsKeyword o.table := by
  constructor
  · intro h n hn hrepeats
    obtain ⟨k, hk⟩ := List.mem_iff_getElem?.mp hn
    have hsubmodule : n.hasSubmodule o.table o.policy = true := by
      simp [Node.hasSubmodule, hrepeats.not_overridden, hrepeats.stateful]
    obtain ⟨s, hinit, -⟩ := emission_init_some o (g.nodes.take k) n hsubmodule
    have hnames := Emission.form_init_keywordNames o.table o.policy _ _ n _ s hinit
    have hnodup := h s ((mem_inits_iff o g s).mpr ⟨k, n, hk, hinit⟩)
    rw [hnames, Node.constructorKeywords_nodup_iff] at hnodup
    exact hnodup hrepeats
  · intro h s hs
    obtain ⟨k, n, hk, hinit⟩ := (mem_inits_iff o g s).mp hs
    rw [Emission.form_init_keywordNames o.table o.policy _ _ n _ s hinit,
      Node.constructorKeywords_nodup_iff]
    exact h n (List.mem_of_getElem? hk)

/-- No forward call has a keyword twice, and no constructor call does exactly if no module with state
repeats one; under the default table none does. -/
theorem constructor_keywords_distinct_iff (o : Options) (g : Graph) (m : Module Assignment)
    (h : build o g = .ok m) :
    (∀ s ∈ m.forwards, s.code.rhs.keywordNames.Nodup) ∧
      ((∀ s ∈ m.inits, s.code.rhs.keywordNames.Nodup) ↔
        ∀ n ∈ g.nodes, ¬ n.RepeatsKeyword o.table) ∧
      (o.table = .default → ∀ s ∈ m.inits, s.code.rhs.keywordNames.Nodup) := by
  have hadmitted := ((build_yields o g).holds h).1
  obtain rfl := (build_yields o g).value h
  have hiff := init_keywords_nodup_iff o g
  refine ⟨forward_keywords_nodup o g hadmitted, hiff, fun htable => ?_⟩
  rw [hiff, htable]
  exact fun n _ => n.not_repeatsKeyword_default

def openModule : OperatorTable := ⟨[("scale", ⟨.statefulModule, "torch.nn.Scale", []⟩)]⟩

def scaled (attributes : List (String × Value)) : Graph :=
  Sample.graphOf "Scaled" ["t1"]
    [⟨"x", "input", [], [], ["t0"]⟩, ⟨"scale", "scale", attributes, ["t0"], ["t1"]⟩]

theorem differing_factors_distinct :
    ∃ m s, build { table := openModule } (scaled [("factor", .int 2), ("bias", .int 1)]) = .ok m ∧
      m.inits = [s] ∧ s.code.text = "self.module_1 = torch.nn.Scale(factor=2, bias=1)" ∧
      s.code.rhs.keywordNames.Nodup := by
  refine ⟨_, _, rfl, rfl, rfl, ?_⟩
  have hdistinct := constructor_keywords_distinct_iff { table := openModule }
    (scaled [("factor", .int 2), ("bias", .int 1)]) _ rfl
  refine hdistinct.2.1.mpr ?_ _ (List.mem_singleton.mpr rfl)
  intro n hn hrepeats
  have hnone : ∀ n ∈ (scaled [("factor", .int 2), ("bias", .int 1)]).nodes,
      (n.constructorKeywords openModule).Nodup := by decide
  exact (n.constructorKeywords_nodup_iff openModule).mp (hnone n hn) hrepeats

theorem factor_passed_twice :
    ∃ m s, build { table := openModule } (scaled [("factor", .int 2), ("factor", .int 3)]) = .ok m ∧
      m.inits = [s] ∧ s.code.text = "self.module_1 = torch.nn.Scale(factor=2, factor=2)" ∧
      ¬ s.code.rhs.keywordNames.Nodup :=
  ⟨_, _, rfl, rfl, rfl, by decide⟩

end Generation

end Netscribe
