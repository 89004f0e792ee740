import Netscribe.Proofs.Generation
import Netscribe.Samples

/-!
# Direct calls and calls of submodules

Two policies with different dispatch make the same passes, except for methods: a submodule takes the
receiver of a method under a keyword, so that no other input can be passed by position and no
attribute can have that keyword's name. Where both give a module, the forward methods are the same up
to what is called and how the receiver of a method is passed.
-/

namespace Netscribe

theorem Dispatch.eq_direct (d : Dispatch) (h : d ≠ .submodule) : d = .direct := by
  cases d with
  | direct => rfl
  | submodule => exact absurd rfl h

theorem OperatorClass.isStateless_of_isSupported (k : OperatorClass) (hs : k.isSupported = true)
    (hk : k ≠ .statefulModule) : k.isStateless = true := by
  cases k with
  | statefulModule => exact absurd rfl hk
  | unrecognized => cases hs
  | other name => cases hs
  | _ => rfl

namespace Node

/-- The submodule of a method cannot take the arguments of the node: an input besides the receiver
has no attribute that refers to it, or an attribute has the name of the receiver's keyword. -/
def ReceiverConflict (table : OperatorTable) (n : Node) : Prop :=
  n.override? = none ∧ (n.entry table).kind = .methodCall ∧
    ((∃ x ∈ n.inputs.tail, ∀ v ∈ n.renderedValues table, x ∉ v.tensors) ∨
      CallSite.receiverKeyword ∈ n.op.definedAmong ((n.entry table).attributeNames n.op))

end Node

/-! ### Acceptance -/

namespace CallSite

theorem unambiguous_of_not_method (d d' : Dispatch) (e : OperatorEntry) (n : Node)
    (hm : e.kind ≠ .methodCall) : Unambiguous d e n ↔ Unambiguous d' e n := by
  have hnone : ∀ d, takesReceiver e d = false := by simp [takesReceiver, hm]
  simp only [Unambiguous, nodeKeywords, parameters, hnone]

/-- Beside the receiver's keyword nothing can be passed by position, as the receiver's parameter is
the first one. -/
theorem unambiguous_submodule_of_method (e : OperatorEntry) (n : Node)
    (hm : e.kind = .methodCall) :
    Unambiguous .submodule e n ↔
      Unambiguous .direct e n ∧ positionalInputs e n = [] ∧
        receiverKeyword ∉ n.op.definedAmong (e.attributeNames n.op) := by
  have htakes : takesReceiver e .submodule = true := by simp [takesReceiver, hm]
  have hleaves : takesReceiver e .direct = false := by simp [takesReceiver]
  simp only [Unambiguous, nodeKeywords, parameters, htakes, hleaves, if_true, Bool.false_eq_true,
    if_false, List.nil_append, List.singleton_append, List.nodup_cons, List.forall_mem_cons]
  cases hp : positionalInputs e n with
  | nil =>
    simp only [List.length_nil, List.take_zero, List.not_mem_nil, not_false_eq_true, implies_true,
      and_true, true_and]
    exact and_comm
  | cons x rest =>
    simp only [List.length_cons, List.take_succ_cons, List.mem_cons, true_or, not_true_eq_false,
      false_and, and_false, reduceCtorEq]

theorem positionalInputs_eq_nil_iff (e : OperatorEntry) (n : Node) (hm : e.kind = .methodCall) :
    positionalInputs e n = [] ↔
      ¬ ∃ x ∈ n.inputs.tail, ∀ v ∈ n.op.values (e.attributeNames n.op), x ∉ v.tensors := by
  have hother : otherInputs e n = n.inputs.tail := by simp [otherInputs, hm]
  simp only [positionalInputs, hother, List.filter_eq_nil_iff, referenced_eq_flatMap]
  simp

end CallSite

theorem Node.not_receiverConflict_iff (table : OperatorTable) (n : Node) (ho : n.override? = none)
    (hm : (n.entry table).kind = .methodCall) :
    ¬ n.ReceiverConflict table ↔
      CallSite.positionalInputs (n.entry table) n = [] ∧
        CallSite.receiverKeyword ∉ n.op.definedAmong ((n.entry table).attributeNames n.op) := by
  have hvalues : n.renderedValues table = n.op.values ((n.entry table).attributeNames n.op) := by
    simp only [Node.renderedValues, ho]
  rw [CallSite.positionalInputs_eq_nil_iff _ n hm, ← hvalues, ← not_or]
  simp only [Node.ReceiverConflict, ho, hm, true_and]

theorem CallSite.unambiguous_submodule_iff (table : OperatorTable) (n : Node)
    (ho : n.override? = none) :
    Unambiguous .submodule (n.entry table) n ↔
      Unambiguous .direct (n.entry table) n ∧ ¬ n.ReceiverConflict table := by
  by_cases hm : (n.entry table).kind = .methodCall
  · rw [unambiguous_submodule_of_method _ n hm, n.not_receiverConflict_iff table ho hm]
  · have hnone : ¬ n.ReceiverConflict table := fun h => hm h.2.1
    rw [unambiguous_of_not_method .submodule .direct _ n hm]
    exact (and_iff_left hnone).symm

/-- Submodules are emitted for the nodes that are called directly, less those with a conflict. -/
theorem Node.emittable_submodule_iff (table : OperatorTable) (direct sub : Policy)
    (hd : direct.dispatch ≠ .submodule) (hs : sub.dispatch = .submodule) (defined : String → Prop)
    (n : Node) :
    n.Emittable table sub defined ↔
      n.Emittable table direct defined ∧ ¬ n.ReceiverConflict table := by
  have hdirect := direct.dispatch.eq_direct hd
  constructor
  · intro h
    have hunambiguous : ∀ ho : n.override? = none, (n.entry table).kind.isStateless = true →
        CallSite.Unambiguous .direct (n.entry table) n ∧ ¬ n.ReceiverConflict table := by
      intro ho hk
      have hsub := h.unambiguous ho hk
      rw [hs] at hsub
      exact (CallSite.unambiguous_submodule_iff table n ho).mp hsub
    refine ⟨⟨h.supported, h.inputs_defined, h.has_input, h.values_flat, h.usable, ?_⟩, ?_⟩
    · rw [hdirect]
      exact fun ho hk => (hunambiguous ho hk).1
    · intro hconflict
      have hk : (n.entry table).kind.isStateless = true := by rw [hconflict.2.1]; rfl
      exact (hunambiguous hconflict.1 hk).2 hconflict
  · intro hall
    obtain ⟨h, hnone⟩ := hall
    refine ⟨h.supported, h.inputs_defined, h.has_input, h.values_flat, h.usable, ?_⟩
    intro ho hk
    have hdir := h.unambiguous ho hk
    rw [hdirect] at hdir
    rw [hs]
    exact (CallSite.unambiguous_submodule_iff table n ho).mpr ⟨hdir, hnone⟩

/-! ### Use statements -/

/-- The use statements of one node, called directly and called through a submodule. -/
inductive UsesAgree (table : OperatorTable) (n : Node) :
    Statement Assignment → Statement Assignment → Prop where
  /-- An overridden operator, or a module with state: one statement. -/
  | same (s : Statement Assignment)
      (h : n.override? ≠ none ∨ (n.entry table).kind = .statefulModule) : UsesAgree table n s s
  /-- A function: the arguments are the same. -/
  | function (targets : List String) (positional : List Atom) (keywords : List Keyword)
      (ho : n.override? = none)
      (hk : (n.entry table).kind = .freeFunction ∨ (n.entry table).kind = .primitive) :
      UsesAgree table n
        ⟨n.name, n.index, ⟨targets, .call ⟨.named (n.entry table).callee, positional, keywords⟩⟩,
          n.name⟩
        ⟨n.name, n.index, ⟨targets, .call ⟨.submodule n.index, positional, keywords⟩⟩, ""⟩
  /-- A method: the receiver is the object of the direct call and the first keyword of the other,
  and nothing is passed by position. -/
  | method (targets : List String) (receiver : Symbol) (keywords : List Keyword)
      (ho : n.override? = none) (hk : (n.entry table).kind = .methodCall)
      (hr : n.inputs.head? = some receiver.tensor) :
      UsesAgree table n
        ⟨n.name, n.index,
          ⟨targets, .call ⟨.method receiver (n.entry table).callee, [], keywords⟩⟩, n.name⟩
        ⟨n.name, n.index,
          ⟨targets, .call ⟨.submodule n.index, [],
            ⟨"input", .atom (.symbol receiver)⟩ :: keywords⟩⟩, ""⟩

namespace Emission

theorem stateless_uses_agree (table : OperatorTable) (p : Policy) (t : SymbolTable) (n : Node)
    (targets : List String) (ho : n.override? = none)
    (hk : (n.entry table).kind.isStateless = true)
    (hr : (n.entry table).kind = .methodCall → n.inputs ≠ []) (hc : ¬ n.ReceiverConflict table) :
    UsesAgree table n (directForm t (n.entry table) n targets).use
      (submoduleForm p t (n.entry table) n targets).use := by
  by_cases hm : (n.entry table).kind = .methodCall
  · have hpositional := ((n.not_receiverConflict_iff table ho hm).mp hc).1
    cases hn : n.inputs with
    | nil => exact absurd hn (hr hm)
    | cons x rest =>
      have hreceiver : CallSite.receiverInput (n.entry table) n = some x := by
        simp [CallSite.receiverInput, hm, hn]
      simp only [directForm, submoduleForm, statement, CallSite.form, directCallee,
        Emission.receiverKeyword, hreceiver, hpositional, Option.map_some, List.map_nil]
      exact .method targets (t.symbol x) _ ho hm (by rw [hn]; rfl)
  · have hreceiver : CallSite.receiverInput (n.entry table) n = none := by
      simp [CallSite.receiverInput, hm]
    simp only [directForm, submoduleForm, statement, CallSite.form, directCallee,
      Emission.receiverKeyword, hreceiver, Option.map_none, List.nil_append]
    refine .function targets _ _ ho ?_
    cases hkind : (n.entry table).kind with
    | freeFunction => exact .inl rfl
    | primitive => exact .inr rfl
    | methodCall => exact absurd hkind hm
    | _ =>
      rw [hkind] at hk
      cases hk

theorem form_uses_agree (table : OperatorTable) (direct sub : Policy)
    (hd : direct.dispatch ≠ .submodule) (hs : sub.dispatch = .submodule) (t : SymbolTable)
    (count : Nat) (n : Node) (targets : List String) (h : n.Emittable table sub t.Has) :
    UsesAgree table n (form table direct t count n targets).use
      (form table sub t count n targets).use := by
  have hc := ((n.emittable_submodule_iff table direct sub hd hs t.Has).mp h).2
  unfold form
  cases ho : n.override? with
  | some o => exact .same _ (.inl (by simp [ho]))
  | none =>
    by_cases hk : (n.entry table).kind = .statefulModule
    · simp only [if_pos hk]
      exact .same _ (.inr hk)
    · obtain ⟨hsupported, -, hne, -, -⟩ := (emittable_classified table sub t.Has n ho).mp h
      simp only [if_neg hk, statelessForm, hs, direct.dispatch.eq_direct hd]
      exact stateless_uses_agree table sub t n targets ho
        (OperatorClass.isStateless_of_isSupported _ hsupported hk) (fun hm => hne (.inr hm)) hc

end Emission

namespace Generation

/-! ### Passes -/

theorem admitsAll_submodule_iff (o : Options) (direct sub : Policy)
    (hd : direct.dispatch ≠ .submodule) (hs : sub.dispatch = .submodule) (nodes : List Node) :
    AdmitsAll { o with policy := sub } [] nodes ↔
      AdmitsAll { o with policy := direct } [] nodes ∧
        ∀ n ∈ nodes, ¬ n.ReceiverConflict o.table := by
  have hemittable := fun defined n =>
    Node.emittable_submodule_iff o.table direct sub hd hs defined n
  rw [admitsAll_iff, admitsAll_iff]
  constructor
  · intro h
    refine ⟨fun k n hk => ?_, fun n hn => ?_⟩
    · have ha := h k n hk
      exact ⟨ha.outputs_ne_nil, ha.outputs_nodup, ha.outputs_new,
        ((hemittable _ n).mp ha.emittable).1, ha.index_new⟩
    · obtain ⟨k, hk⟩ := List.mem_iff_getElem?.mp hn
      exact ((hemittable _ n).mp (h k n hk).emittable).2
  · intro hall k n hk
    obtain ⟨h, hnone⟩ := hall
    have ha := h k n hk
    exact ⟨ha.outputs_ne_nil, ha.outputs_nodup, ha.outputs_new,
      (hemittable _ n).mpr ⟨ha.emittable, hnone n (List.mem_of_getElem? hk)⟩, ha.index_new⟩

theorem build_submodule_iff (o : Options) (direct sub : Policy)
    (hd : direct.dispatch ≠ .submodule) (hs : sub.dispatch = .submodule) (g : Graph) :
    (∃ m, build { o with policy := sub } g = .ok m) ↔
      (∃ m, build { o with policy := direct } g = .ok m) ∧
        ∀ n ∈ g.nodes, ¬ n.ReceiverConflict o.table := by
  rw [(build_yields _ g).exists_iff, (build_yields _ g).exists_iff,
    admitsAll_submodule_iff o direct sub hd hs]
  constructor
  · intro hall
    obtain ⟨⟨hadmits, hnone⟩, hterminals⟩ := hall
    exact ⟨⟨hadmits, hterminals⟩, hnone⟩
  · intro hall
    obtain ⟨⟨hadmits, hterminals⟩, hnone⟩ := hall
    exact ⟨⟨hadmits, hnone⟩, hterminals⟩

theorem error_iff_not_ok (o : Options) (g : Graph) :
    (∃ e, build o g = .error e) ↔ ¬ ∃ m, build o g = .ok m := by
  cases build o g <;> simp

theorem forwards_nodes (o : Options) (earlier nodes : List Node) :
    ((emissions o earlier nodes).map (·.use)).map (fun s => (s.node, s.index)) =
      nodes.map fun n => (n.name, n.index) := by
  induction nodes generalizing earlier with
  | nil => rfl
  | cons n rest ih =>
    obtain ⟨hnode, hindex, -⟩ := Emission.form_use_node o.table o.policy
      (.ofNodes (earlier ++ [n])) (inputCount earlier) n n.outputNames
    have hn : (emission o earlier n).use.node = n.name := hnode
    have hi : (emission o earlier n).use.index = n.index := hindex
    simp only [emissions, List.map_cons, ih, hn, hi]

/-- What passes with submodules and passes with direct calls have in common. -/
theorem submodules_agree_with_direct_calls (o : Options) (direct sub : Policy)
    (hd : direct.dispatch ≠ .submodule) (hs : sub.dispatch = .submodule) (g : Graph) :
    ((∃ m, build { o with policy := sub } g = .ok m) →
        ∃ m, build { o with policy := direct } g = .ok m) ∧
      ((∃ m, build { o with policy := direct } g = .ok m) →
        ((∃ e, build { o with policy := sub } g = .error e) ↔
          ∃ n ∈ g.nodes, n.ReceiverConflict o.table)) ∧
      ∀ md ms, build { o with policy := direct } g = .ok md →
        build { o with policy := sub } g = .ok ms →
        md.className = ms.className ∧ md.returns = ms.returns ∧
          md.forwards.map (fun s => (s.node, s.index)) =
            ms.forwards.map (fun s => (s.node, s.index)) ∧
          ∀ (k : Nat) (n : Node), g.nodes[k]? = some n → ∃ d s, md.forwards[k]? = some d ∧
            ms.forwards[k]? = some s ∧ UsesAgree o.table n d s := by
  have hiff := build_submodule_iff o direct sub hd hs g
  refine ⟨fun h => (hiff.mp h).1, fun hdirect => ?_, ?_⟩
  · rw [error_iff_not_ok, hiff]
    simp [hdirect]
  · intro md ms hmd hms
    have hadmitted := ((build_yields _ g).holds hms).1
    obtain rfl := (build_yields _ g).value hmd
    obtain rfl := (build_yields _ g).value hms
    refine ⟨rfl, rfl, ?_, fun k n hk => ?_⟩
    · exact (forwards_nodes _ [] g.nodes).trans (forwards_nodes _ [] g.nodes).symm
    · have he := ((admitsAll_iff _ [] g.nodes).mp hadmitted k n hk).emittable
      rw [List.nil_append, ← SymbolTable.ofNodes_has] at he
      refine ⟨_, _, by rw [forwards_getElem?, hk]; rfl, by rw [forwards_getElem?, hk]; rfl, ?_⟩
      exact Emission.form_uses_agree o.table direct sub hd hs _ _ n _ he

def strayInput : Graph :=
  Sample.graphOf "Stray" ["c"]
    [⟨"a", "input", [], [], ["a"]⟩, ⟨"b", "input", [], [], ["b"]⟩,
     ⟨"wide", "expand", [], ["a", "b"], ["c"]⟩]

theorem residual_block_agrees_and_stray_input_conflicts :
    (∃ md ms n d s, build { policy := .plain } Sample.residualBlock = .ok md ∧
      build { policy := .quant [] } Sample.residualBlock = .ok ms ∧ md.returns = ms.returns ∧
      Sample.residualBlock.nodes[4]? = some n ∧ md.forwards[4]? = some d ∧
      ms.forwards[4]? = some s ∧ UsesAgree .default n d s ∧
      d.code.text = "self.output_module_4_0,self.output_module_4_1 = " ++
        "self.output_module_3.chunk(chunks=2, dim=1)" ∧
      s.code.text = "self.output_module_4_0,self.output_module_4_1 = " ++
        "self.module_4(input=self.output_module_3, chunks=2, dim=1)") ∧
      (∃ m, build { policy := .plain } strayInput = .ok m) ∧
      ∃ e, build { policy := .quant [] } strayInput = .error e := by
  have hagree := submodules_agree_with_direct_calls {} .plain (.quant []) (by decide) rfl
  refine ⟨?_, ⟨_, rfl⟩, ?_⟩
  · obtain ⟨-, hreturns, -, huses⟩ := (hagree Sample.residualBlock).2.2 _ _ rfl rfl
    obtain ⟨d, s, hd, hs, huse⟩ := huses 4 _ rfl
    refine ⟨_, _, _, d, s, rfl, rfl, hreturns, rfl, hd, hs, huse, ?_, ?_⟩
    · cases hd
      rfl
    · cases hs
      rfl
  · refine ((hagree strayInput).2.1 ⟨_, rfl⟩).mpr ⟨_, List.mem_of_getElem? (i := 2) rfl, ?_⟩
    exact ⟨rfl, rfl, .inl ⟨"b", by decide, by decide⟩⟩

end Generation

end Netscribe
