import Mathlib.Data.List.Basic
import Netscribe.Proofs.Emission

/-!
# What the statements of a node depend on

A node is rendered against a symbol table, of which only the tensors count that the node mentions:
two tables that agree on these give the same statements. The number of graph inputs before a node
counts for graph inputs only.
-/

namespace Netscribe

/-- The tensors that a node lists as inputs or anywhere inside its attribute values. -/
def Node.mentions (n : Node) : List String :=
  n.inputs ++ n.op.attributes.flatMap (·.value.tensors)

theorem Operator.tensors_of_attribute? (op : Operator) (name : String) (v : Value)
    (h : op.attribute? name = some v) (x : String) (hx : x ∈ v.tensors) :
    x ∈ op.attributes.flatMap (·.value.tensors) := by
  unfold Operator.attribute? at h
  obtain ⟨a, ha, rfl⟩ := Option.map_eq_some_iff.mp h
  exact List.mem_flatMap.mpr ⟨a, List.mem_of_find?_eq_some ha, hx⟩

theorem Operator.tensors_of_values (op : Operator) (names : List String) (v : Value)
    (h : v ∈ op.values names) (x : String) (hx : x ∈ v.tensors) :
    x ∈ op.attributes.flatMap (·.value.tensors) := by
  obtain ⟨name, -, hv⟩ := List.mem_filterMap.mp h
  exact op.tensors_of_attribute? name v hv x hx

theorem Override.attribute?_of_bound? (n : Node) (name : String) (v : Value)
    (h : bound? n name = some v) : n.op.attribute? name = some v := by
  unfold bound? at h
  split at h
  · cases h
  · exact h

theorem Node.mem_mentions_of_rendered (table : OperatorTable) (n : Node) (v : Value)
    (h : v ∈ n.renderedValues table) (x : String) (hx : x ∈ v.tensors) : x ∈ n.mentions := by
  refine List.mem_append_right _ ?_
  unfold Node.renderedValues at h
  cases ho : n.override? with
  | none =>
    rw [ho] at h
    exact n.op.tensors_of_values _ v h x hx
  | some o =>
    rw [ho] at h
    cases o with
    | const => exact n.op.tensors_of_values _ v h x hx
    | index => exact n.op.tensors_of_values _ v h x hx
    | slice =>
      obtain ⟨name, -, hv⟩ := List.mem_filterMap.mp h
      exact n.op.tensors_of_attribute? name v (Override.attribute?_of_bound? n name v hv) x hx
    | _ => cases h

/-! ### Rendered values -/

namespace SymbolTable

def AgreeOn (t t' : SymbolTable) (xs : List String) : Prop :=
  ∀ x ∈ xs, t.resolve? x = t'.resolve? x

variable {t t' : SymbolTable}

theorem symbol_congr {xs : List String} (h : AgreeOn t t' xs) (x : String) (hx : x ∈ xs) :
    t.symbol x = t'.symbol x := by
  simp only [symbol, h x hx]

theorem atom_congr (v : Value) (h : AgreeOn t t' v.tensors) : t.atom v = t'.atom v := by
  cases v with
  | tensor name =>
    have hname : t.resolve? name = t'.resolve? name := h name (List.mem_singleton.mpr rfl)
    simp only [atom, atom?, hname]
  | _ => rfl

theorem atoms_congr (vs : List Value) (h : AgreeOn t t' (vs.flatMap Value.tensors)) :
    vs.map t.atom = vs.map t'.atom := by
  apply List.map_congr_left
  intro v hv
  exact atom_congr v fun x hx => h x (List.mem_flatMap.mpr ⟨v, hv, hx⟩)

theorem rendered_congr (v : Value) (h : AgreeOn t t' v.tensors) : t.rendered v = t'.rendered v := by
  cases v with
  | tuple items =>
    rw [Value.tensors, Value.tensorsAll_eq_flatMap] at h
    simp only [rendered, atoms_congr items h]
  | list items =>
    rw [Value.tensors, Value.tensorsAll_eq_flatMap] at h
    simp only [rendered, atoms_congr items h]
  | tensor name => exact congrArg Rendered.atom (atom_congr (.tensor name) h)
  | _ => rfl

theorem keywords_congr (op : Operator) (names : List String)
    (h : ∀ v ∈ op.values names, AgreeOn t t' v.tensors) :
    t.keywords op names = t'.keywords op names := by
  unfold keywords
  apply List.filterMap_congr
  intro name hname
  cases hv : op.attribute? name with
  | none => rfl
  | some v =>
    have hmem : v ∈ op.values names := List.mem_filterMap.mpr ⟨name, hname, hv⟩
    simp only [Option.map_some, rendered_congr v (h v hmem)]

end SymbolTable

/-! ### Statements -/

section

variable {t t' : SymbolTable}

theorem CallSite.form_congr (e : OperatorEntry) (n : Node)
    (hin : SymbolTable.AgreeOn t t' n.inputs)
    (hv : ∀ v ∈ n.op.values (e.attributeNames n.op), SymbolTable.AgreeOn t t' v.tensors) :
    form t e n = form t' e n := by
  have hreceiver : (receiverInput e n).map t.symbol = (receiverInput e n).map t'.symbol := by
    cases hr : receiverInput e n with
    | none => rfl
    | some x =>
      have hx : x ∈ n.inputs := receiverInput_mem e n x (by simp [hr])
      simp only [Option.map_some, SymbolTable.symbol_congr hin x hx]
  have hpositional : (positionalInputs e n).map t.symbol = (positionalInputs e n).map t'.symbol :=
    List.map_congr_left fun x hx =>
      SymbolTable.symbol_congr hin x (positionalInputs_mem e n x hx)
  simp only [form, hreceiver, hpositional, SymbolTable.keywords_congr n.op _ hv]

theorem Override.renderedBound_congr (n : Node) (name : String)
    (h : ∀ v ∈ (bound? n name).toList, SymbolTable.AgreeOn t t' v.tensors) :
    renderedBound t n name = renderedBound t' n name := by
  unfold renderedBound
  cases hb : bound? n name with
  | none => rfl
  | some v =>
    have hv := h v (by simp [hb])
    simp only [Option.map_some, SymbolTable.rendered_congr v hv]

theorem Override.form_congr (count : Nat) (n : Node) (o : Override)
    (hin : SymbolTable.AgreeOn t t' n.inputs)
    (hv : ∀ v ∈ o.values n, SymbolTable.AgreeOn t t' v.tensors)
    (hne : o.needsInput = true → n.inputs ≠ []) : o.form t count n = o.form t' count n := by
  have hfirst : o.needsInput = true → first t n = first t' n := by
    intro hneeds
    unfold first
    cases hn : n.inputs with
    | nil => exact absurd hn (hne hneeds)
    | cons x rest => exact SymbolTable.symbol_congr hin x (by simp [hn])
  have hall : n.inputs.map t.symbol = n.inputs.map t'.symbol :=
    List.map_congr_left fun x hx => SymbolTable.symbol_congr hin x hx
  cases o with
  | input => rfl
  | const => simp only [form, SymbolTable.keywords_congr n.op constAttributes hv]
  | identity => simp only [form, hfirst rfl]
  | tupleUnpack => simp only [form, hfirst rfl]
  | tuple => simp only [form, hall]
  | list => simp only [form, hall]
  | index =>
    simp only [form, hfirst rfl]
    cases ha : n.op.attribute? "index" with
    | none => rfl
    | some v =>
      have hmem : v ∈ index.values n := by simp [values, Operator.values, ha]
      simp only [Option.getD_some, SymbolTable.rendered_congr v (hv v hmem)]
  | slice =>
    rw [values_slice, List.forall_mem_append, List.forall_mem_append] at hv
    simp only [form, hfirst rfl, renderedBound_congr n "start" hv.1,
      renderedBound_congr n "end" hv.2.1, renderedBound_congr n "step" hv.2.2]

/-- The statements of a node are the same under tables that agree on what the node mentions. -/
theorem Emission.form_congr (table : OperatorTable) (p : Policy) (count : Nat) (n : Node)
    (targets : List String) (h : SymbolTable.AgreeOn t t' n.mentions)
    (hne : n.needsInput table = true → n.inputs ≠ []) :
    form table p t count n targets = form table p t' count n targets := by
  have hin : SymbolTable.AgreeOn t t' n.inputs := fun x hx => h x (List.mem_append_left _ hx)
  have hv : ∀ v ∈ n.renderedValues table, SymbolTable.AgreeOn t t' v.tensors :=
    fun v hv x hx => h x (n.mem_mentions_of_rendered table v hv x hx)
  unfold form
  cases ho : n.override? with
  | some o =>
    simp only [Node.renderedValues, Node.needsInput, ho] at hv hne
    simp only [o.form_congr count n hin hv hne]
  | none =>
    simp only [Node.renderedValues, ho] at hv
    have hall : n.inputs.map t.symbol = n.inputs.map t'.symbol :=
      List.map_congr_left fun x hx => SymbolTable.symbol_congr hin x hx
    by_cases hk : (n.entry table).kind = .statefulModule
    · simp only [if_pos hk, statefulForm, hall, SymbolTable.keywords_congr n.op _ hv]
    · simp only [if_neg hk, statelessForm, submoduleForm, directForm,
        CallSite.form_congr (n.entry table) n hin hv]

end

theorem Emission.form_count (table : OperatorTable) (p : Policy) (t : SymbolTable)
    (count count' : Nat) (n : Node) (targets : List String) (h : n.override? ≠ some .input) :
    form table p t count n targets = form table p t count' n targets := by
  unfold form
  cases ho : n.override? with
  | none => rfl
  | some o =>
    cases o with
    | input => exact absurd ho h
    | _ => rfl

theorem Node.Emittable.of_defined {table : OperatorTable} {p : Policy} {n : Node}
    {defined : String → Prop} (h : n.Emittable table p defined) (defined' : String → Prop)
    (hsub : ∀ x ∈ n.inputs, defined x → defined' x) : n.Emittable table p defined' :=
  ⟨h.supported, fun htakes x hx => hsub x hx (h.inputs_defined htakes x hx), h.has_input,
    h.values_flat, h.usable, h.unambiguous⟩

end Netscribe
