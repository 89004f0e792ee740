import Netscribe.Operator.Catalog
import Netscribe.Proofs.Emission

/-!
# How the inputs of an operator without state reach its call

An attribute passes a tensor if its value is the tensor or a container that holds it. Every input of
the call is the receiver of a method, a positional argument, or passed by an attribute, and only
inputs that no attribute passes are positional. Two traversals meet here: the inputs to leave out are
collected from the attribute values at any depth, while values are rendered one level deep. They
agree because a value with a container inside a container is not rendered at all.
-/

namespace Netscribe

namespace Value

def isTensor (x : String) : Value → Bool
  | tensor name => x == name
  | _ => false

def passes (v : Value) (x : String) : Bool := v.isTensor x || v.items.any (isTensor x)

theorem mem_tensors_of_scalar (v : Value) (x : String) (h : v.isContainer = false) :
    x ∈ v.tensors ↔ v.isTensor x = true := by
  cases v with
  | tensor name => simp [tensors, isTensor]
  | tuple items => cases h
  | list items => cases h
  | _ => simp [tensors, isTensor]

theorem mem_tensorsAll_of_scalars (vs : List Value) (x : String)
    (h : ∀ v ∈ vs, v.isContainer = false) :
    x ∈ tensorsAll vs ↔ vs.any (isTensor x) = true := by
  rw [tensorsAll_eq_flatMap, List.mem_flatMap, List.any_eq_true]
  constructor
  · intro hmem
    obtain ⟨v, hv, hx⟩ := hmem
    exact ⟨v, hv, (mem_tensors_of_scalar v x (h v hv)).mp hx⟩
  · intro hany
    obtain ⟨v, hv, hx⟩ := hany
    exact ⟨v, hv, (mem_tensors_of_scalar v x (h v hv)).mpr hx⟩

/-- In a value that can be rendered, the tensors at any depth are those one level deep. -/
theorem mem_tensors_of_flat (v : Value) (x : String) (h : v.Flat) :
    x ∈ v.tensors ↔ v.passes x = true := by
  cases v with
  | tuple items =>
    rw [tensors, mem_tensorsAll_of_scalars items x h]
    rfl
  | list items =>
    rw [tensors, mem_tensorsAll_of_scalars items x h]
    rfl
  | tensor name => simp [tensors, passes, isTensor, Value.items]
  | _ => simp [tensors, passes, isTensor, Value.items]

end Value

def Node.passes (table : OperatorTable) (n : Node) (x : String) : Bool :=
  (n.op.values ((n.entry table).attributeNames n.op)).any fun v => v.passes x

namespace CallSite

theorem mem_referenced_iff (op : Operator) (names : List String) (x : String)
    (h : ∀ v ∈ op.values names, v.Flat) :
    x ∈ referenced op names ↔ (op.values names).any (fun v => v.passes x) = true := by
  rw [referenced_eq_flatMap, List.mem_flatMap, List.any_eq_true]
  constructor
  · intro hmem
    obtain ⟨v, hv, hx⟩ := hmem
    exact ⟨v, hv, (v.mem_tensors_of_flat x (h v hv)).mp hx⟩
  · intro hany
    obtain ⟨v, hv, hx⟩ := hany
    exact ⟨v, hv, (v.mem_tensors_of_flat x (h v hv)).mpr hx⟩

theorem positionalInputs_eq (table : OperatorTable) (n : Node)
    (h : ∀ v ∈ n.op.values ((n.entry table).attributeNames n.op), v.Flat) :
    positionalInputs (n.entry table) n =
      (otherInputs (n.entry table) n).filter fun x => !n.passes table x := by
  unfold positionalInputs
  apply List.filter_congr
  intro x _
  have hiff := mem_referenced_iff n.op ((n.entry table).attributeNames n.op) x h
  rw [← List.contains_iff_mem] at hiff
  rw [Bool.eq_iff_iff.mpr hiff]
  rfl

end CallSite

namespace SymbolTable

/-- Each keyword is an attribute of the operator, rendered. -/
theorem keywords_rendered (t : SymbolTable) (op : Operator) (names : List String)
    (h : ∀ v ∈ op.values names, v.Flat) (k : Keyword) (hk : k ∈ t.keywords op names) :
    ∃ v, op.attribute? k.name = some v ∧ t.infer v = .ok k.value := by
  obtain ⟨name, hname, hk⟩ := List.mem_filterMap.mp hk
  obtain ⟨v, hv, rfl⟩ := Option.map_eq_some_iff.mp hk
  have hflat : v.Flat := h v (List.mem_filterMap.mpr ⟨name, hname, hv⟩)
  exact ⟨v, hv, (t.infer_yields v _).mpr ⟨hflat, rfl⟩⟩

/-- The symbol of a defined tensor that an attribute passes occurs in a keyword. -/
theorem exists_keyword_of_passes (t : SymbolTable) (op : Operator) (names : List String) (x : String)
    (h : ∀ v ∈ op.values names, v.Flat) (hdefined : t.Has x)
    (hpassed : (op.values names).any (fun v => v.passes x) = true) :
    ∃ k ∈ t.keywords op names, t.symbol x ∈ k.value.symbols := by
  obtain ⟨v, hv, hx⟩ := List.any_eq_true.mp hpassed
  have hmention : x ∈ (op.values names).flatMap Value.tensors :=
    List.mem_flatMap.mpr ⟨v, hv, (v.mem_tensors_of_flat x (h v hv)).mpr hx⟩
  have hsymbol : t.symbol x ∈ (t.keywords op names).flatMap (·.value.symbols) := by
    rw [t.keywords_symbols op names h, mem_symbolsOf]
    exact ⟨hmention, hdefined, rfl⟩
  obtain ⟨k, hk, hin⟩ := List.mem_flatMap.mp hsymbol
  exact ⟨k, hk, hin⟩

end SymbolTable

/-- A node that is emitted in any state meets its conditions under the tensors defined up to it, and
its statements are those of the conditions. -/
theorem EmissionState.emit_ok (st st' : EmissionState) (table : OperatorTable) (p : Policy)
    (n : Node) (em : Emission) (h : st.emit table p n = .ok (st', em)) :
    n.Emittable table p st'.symbols.Has ∧
      ∃ targets, em = Emission.form table p st'.symbols st.inputs n targets := by
  cases hd : st.symbols.defineOutputs n.index n.outputs with
  | mk symbols named =>
    cases named with
    | error e =>
      unfold EmissionState.emit at h
      rw [hd] at h
      cases h
    | ok targets =>
      have hne := (Emission.nonEmpty_yields targets "outputs" n.name).mapError
        fun e => Halt.error (.emptySequence e)
      have hnode := Emission.ofNode_yields table p symbols st.inputs n targets
      have hall : Yields (st.emit table p n)
          (targets ≠ [] ∧ n.Emittable table p symbols.Has)
          (⟨symbols, if Override.ofType? n.op.type = some .input then st.inputs + 1 else st.inputs⟩,
            Emission.form table p symbols st.inputs n targets) := by
        unfold EmissionState.emit
        rw [hd]
        exact hne.bind fun _ => hnode.bind_pure _
      obtain ⟨-, hemittable⟩ := hall.holds h
      cases hall.value h
      exact ⟨hemittable, targets, rfl⟩

/-- The keywords of a call that stand for attributes, without that of the receiver. -/
def Call.attributeKeywords (e : OperatorEntry) (d : Dispatch) (c : Call) : List Keyword :=
  c.keywords.drop (if CallSite.takesReceiver e d then 1 else 0)

/-- What the call of an operator without state makes of the inputs of its node, where `e` is the entry
of the operator and `passed` tells the inputs that a rendered attribute passes. -/
structure Call.BindsInputs (t : SymbolTable) (d : Dispatch) (e : OperatorEntry) (n : Node)
    (passed : String → Bool) (c : Call) : Prop where
  inputs_defined : ∀ x ∈ n.inputs, t.Has x
  receiver : e.kind = .methodCall → ∃ x, n.inputs.head? = some x ∧
    match d with
    | .direct => c.callee = .method (t.symbol x) e.callee
    | .submodule => c.keywords.head? = some ⟨CallSite.receiverKeyword, .atom (.symbol (t.symbol x))⟩
  positional : c.positional =
    ((CallSite.otherInputs e n).filter fun x => !passed x).map fun x => .symbol (t.symbol x)
  attribute_names : (c.attributeKeywords e d).map (·.name) = n.op.definedAmong (e.attributeNames n.op)
  attribute_values : ∀ k ∈ c.attributeKeywords e d,
    ∃ v, n.op.attribute? k.name = some v ∧ t.infer v = .ok k.value
  others_by_attribute : ∀ x ∈ CallSite.otherInputs e n, passed x = true →
    ∃ k ∈ c.attributeKeywords e d, t.symbol x ∈ k.value.symbols
  keywords_nodup : (c.keywords.map (·.name)).Nodup
  keywords_not_filled : ∀ k ∈ c.keywords,
    k.name ∉ (CallSite.parameters e d).take c.positional.length

namespace CallSite

theorem otherInputs_subset (e : OperatorEntry) (n : Node) (x : String) (h : x ∈ otherInputs e n) :
    x ∈ n.inputs := by
  unfold otherInputs at h
  split at h
  · exact List.mem_of_mem_tail h
  · exact h

/-- The arguments of an accepted call bind the inputs, if the receiver of a method is passed as the
dispatch has it. -/
theorem bindsInputs_of_accepts (t : SymbolTable) (table : OperatorTable) (d : Dispatch) (n : Node)
    (c : Call) (leading : List Keyword) (h : Accepts t.Has d (n.entry table) n)
    (hpositional : c.positional = (form t (n.entry table) n).positional.map .symbol)
    (hkeywords : c.keywords = leading ++ (form t (n.entry table) n).keywords)
    (hleading : leading.map (·.name) =
      if takesReceiver (n.entry table) d then [CallSite.receiverKeyword] else [])
    (hreceiver : (n.entry table).kind = .methodCall → ∃ x, n.inputs.head? = some x ∧
      match d with
      | .direct => c.callee = .method (t.symbol x) (n.entry table).callee
      | .submodule =>
        c.keywords.head? = some ⟨CallSite.receiverKeyword, .atom (.symbol (t.symbol x))⟩) :
    c.BindsInputs t d (n.entry table) n (n.passes table) := by
  have hlength : leading.length = if takesReceiver (n.entry table) d then 1 else 0 := by
    have hlen := congrArg List.length hleading
    rw [List.length_map] at hlen
    rw [hlen]
    split <;> rfl
  have hattributes : c.attributeKeywords (n.entry table) d =
      t.keywords n.op ((n.entry table).attributeNames n.op) := by
    rw [Call.attributeKeywords, hkeywords, ← hlength, List.drop_left]
    rfl
  have hnames : c.keywords.map (·.name) = nodeKeywords d (n.entry table) n := by
    rw [hkeywords, List.map_append, hleading, nodeKeywords]
    exact congrArg _ (t.keywords_names n.op _)
  have hcount : c.positional.length = (positionalInputs (n.entry table) n).length := by
    rw [hpositional, List.length_map]
    exact List.length_map ..
  refine ⟨h.inputs_defined, hreceiver, ?_, ?_, ?_, ?_, ?_, ?_⟩
  · rw [hpositional, ← positionalInputs_eq table n h.values_flat]
    exact List.map_map
  · rw [hattributes]
    exact t.keywords_names n.op _
  · rw [hattributes]
    exact t.keywords_rendered n.op _ h.values_flat
  · rw [hattributes]
    intro x hx hpassed
    have hdefined := h.inputs_defined x (otherInputs_subset (n.entry table) n x hx)
    exact t.exists_keyword_of_passes n.op _ x h.values_flat hdefined hpassed
  · rw [hnames]
    exact h.unambiguous.1
  · intro k hk
    rw [hcount]
    refine h.unambiguous.2 k.name ?_
    rw [← hnames]
    exact List.mem_map_of_mem hk

end CallSite

/-- Every input of an operator without state that is emitted, in whatever state, is bound once: it is
the receiver, a positional argument or part of an attribute, and no parameter is given twice. -/
theorem stateless_call_binds_inputs (st st' : EmissionState) (table : OperatorTable) (p : Policy)
    (n : Node) (em : Emission) (h : st.emit table p n = .ok (st', em)) (ho : n.override? = none)
    (hs : (n.entry table).kind.isStateless = true) :
    ∃ c, em.use.code.rhs = .call c ∧
      c.BindsInputs st'.symbols p.dispatch (n.entry table) n (n.passes table) := by
  obtain ⟨hemittable, targets, rfl⟩ := st.emit_ok st' table p n em h
  have haccepts := (Emission.emittable_stateless table p st'.symbols.Has n ho hs).mpr hemittable
  have hkind := (OperatorClass.of_isStateless _ hs).1
  -- a method has a first input, which is the receiver of its call site
  have hreceiver : (n.entry table).kind = .methodCall → ∃ x, n.inputs.head? = some x ∧
      (CallSite.form st'.symbols (n.entry table) n).receiver = some (st'.symbols.symbol x) := by
    intro hm
    obtain ⟨x, rest, hx⟩ := List.exists_cons_of_ne_nil (haccepts.has_receiver hm)
    refine ⟨x, by rw [hx]; rfl, ?_⟩
    simp [CallSite.form, CallSite.receiverInput, hm, hx]
  simp only [Emission.form, ho, if_neg hkind, Emission.statelessForm]
  cases hd : p.dispatch with
  | direct =>
    rw [hd] at haccepts
    refine ⟨_, rfl, CallSite.bindsInputs_of_accepts st'.symbols table .direct n _ [] haccepts rfl rfl
      ?_ fun hm => ?_⟩
    · simp [CallSite.takesReceiver]
    · obtain ⟨x, hx, hr⟩ := hreceiver hm
      refine ⟨x, hx, ?_⟩
      simp only [Emission.directCallee, hr]
  | submodule =>
    rw [hd] at haccepts
    refine ⟨_, rfl, CallSite.bindsInputs_of_accepts st'.symbols table .submodule n _ _ haccepts rfl
      rfl ?_ fun hm => ?_⟩
    · by_cases hm : (n.entry table).kind = .methodCall
      · obtain ⟨x, -, hr⟩ := hreceiver hm
        simp [Emission.receiverKeyword, CallSite.takesReceiver, hr, hm]
      · simp [Emission.receiverKeyword, CallSite.takesReceiver, CallSite.form,
          CallSite.receiverInput, hm]
    · obtain ⟨x, hx, hr⟩ := hreceiver hm
      refine ⟨x, hx, ?_⟩
      simp only [Emission.receiverKeyword, hr]
      rfl

/-- A method of `a` that takes `b` twice by position and `c` in a tuple. -/
def tangledInputs : Node :=
  ⟨3, "tangle", ⟨"contiguous", [⟨"memory", .tuple [.tensor "c", .int 1]⟩]⟩, ["a", "b", "c", "b"], ["d"]⟩

theorem tangled_inputs_bound :
    ∃ st' em c,
      EmissionState.emit ⟨.ofList [("a", "self.a"), ("b", "self.b"), ("c", "self.c")], 3⟩ .default .plain
        tangledInputs = .ok (st', em) ∧
      em.use.code.rhs = .call c ∧ c.text = "self.a.contiguous(self.b,self.b, memory=(self.c,1))" ∧
      c.BindsInputs st'.symbols .direct (tangledInputs.entry .default) tangledInputs
        (tangledInputs.passes .default) := by
  have hemitted : ∃ st' em, EmissionState.emit
      ⟨.ofList [("a", "self.a"), ("b", "self.b"), ("c", "self.c")], 3⟩ .default .plain tangledInputs =
        .ok (st', em) := ⟨_, _, rfl⟩
  obtain ⟨st', em, h⟩ := hemitted
  obtain ⟨c, hrhs, hbinds⟩ := stateless_call_binds_inputs _ st' .default .plain tangledInputs em h rfl rfl
  refine ⟨st', em, c, h, hrhs, ?_, hbinds⟩
  cases h
  cases hrhs
  rfl

end Netscribe
