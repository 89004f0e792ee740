import Mathlib.Data.Set.Operations
import Netscribe.Proofs.Locality

/-!
# Nodes under other names

Tensors and nodes are renamed throughout a graph: inputs, outputs, and references at any depth of
attribute values. If a second symbol table has for the new name of each tensor what the first one has
for the old name, the statements of a renamed node under it have the text of the old ones. The new
names may not merge tensors, and raw names that reach the text have to stay as they are.
-/

namespace Netscribe

/-! ### Renamed values, operators, nodes and graphs -/

namespace Value

mutual

def rename (r : String → String) : Value → Value
  | tensor name => tensor (r name)
  | tuple items => tuple (renameAll r items)
  | list items => list (renameAll r items)
  | v => v

def renameAll (r : String → String) : List Value → List Value
  | [] => []
  | v :: rest => rename r v :: renameAll r rest

end

theorem renameAll_eq_map (r : String → String) (vs : List Value) :
    renameAll r vs = vs.map (rename r) := by
  induction vs with
  | nil => rfl
  | cons v rest ih => rw [renameAll, ih, List.map_cons]

mutual

theorem tensors_rename (r : String → String) (v : Value) :
    (v.rename r).tensors = v.tensors.map r := by
  cases v with
  | tuple items => exact tensorsAll_rename r items
  | list items => exact tensorsAll_rename r items
  | _ => rfl

theorem tensorsAll_rename (r : String → String) (vs : List Value) :
    tensorsAll (renameAll r vs) = (tensorsAll vs).map r := by
  cases vs with
  | nil => rfl
  | cons v rest =>
    rw [renameAll, tensorsAll, tensorsAll, tensors_rename r v, tensorsAll_rename r rest,
      List.map_append]

end

theorem isContainer_rename (r : String → String) (v : Value) :
    (v.rename r).isContainer = v.isContainer := by
  cases v <;> rfl

theorem flat_rename (r : String → String) (v : Value) : (v.rename r).Flat ↔ v.Flat := by
  have hitems : (v.rename r).items = v.items.map (rename r) := by
    cases v with
    | tuple items => exact renameAll_eq_map r items
    | list items => exact renameAll_eq_map r items
    | _ => rfl
  simp only [Flat, hitems, List.forall_mem_map, isContainer_rename]

end Value

namespace Operator

def rename (r : String → String) (op : Operator) : Operator :=
  ⟨op.type, op.attributes.map fun a => ⟨a.name, a.value.rename r⟩⟩

variable (r : String → String) (op : Operator)

theorem attribute?_rename (name : String) :
    (op.rename r).attribute? name = (op.attribute? name).map (Value.rename r) := by
  simp only [attribute?, rename, List.find?_map, Option.map_map]
  rfl

theorem attributeNames_rename (e : OperatorEntry) :
    e.attributeNames (op.rename r) = e.attributeNames op := by
  have hnames : (op.rename r).attributeNames = op.attributeNames := by
    simp only [attributeNames, rename, List.map_map]
    rfl
  simp only [OperatorEntry.attributeNames, hnames]

theorem values_rename (names : List String) :
    (op.rename r).values names = (op.values names).map (Value.rename r) := by
  simp only [values, List.map_filterMap, attribute?_rename]

theorem definedAmong_rename (names : List String) :
    (op.rename r).definedAmong names = op.definedAmong names := by
  simp only [definedAmong, attribute?_rename, Option.isSome_map]

theorem referenced_rename (names : List String) :
    CallSite.referenced (op.rename r) names = (CallSite.referenced op names).map r := by
  simp only [CallSite.referenced_eq_flatMap, values_rename, List.flatMap_map, List.map_flatMap,
    Value.tensors_rename]

end Operator

def Node.rename (r ν : String → String) (n : Node) : Node :=
  ⟨n.index, ν n.name, n.op.rename r, n.inputs.map r, n.outputs.map r⟩

namespace Node

variable (r ν : String → String) (n : Node)

@[simp] theorem rename_op : (n.rename r ν).op = n.op.rename r := rfl

@[simp] theorem rename_inputs : (n.rename r ν).inputs = n.inputs.map r := rfl

@[simp] theorem rename_override? : (n.rename r ν).override? = n.override? := rfl

@[simp] theorem rename_entry (table : OperatorTable) : (n.rename r ν).entry table = n.entry table :=
  rfl

end Node

def Graph.rename (r ν : String → String) (g : Graph) : Graph :=
  ⟨g.name, g.nodes.map (Node.rename r ν), g.outputs.map r,
    g.tensors.map fun e => (r e.1, e.2.map (Node.rename r ν))⟩

/-! ### What a node keeps -/

section

variable (r ν : String → String) (n : Node)

theorem Override.bound?_rename (name : String) :
    bound? (n.rename r ν) name = (bound? n name).map (Value.rename r) := by
  unfold bound?
  rw [Node.rename_op, Operator.attribute?_rename]
  cases n.op.attribute? name with
  | none => rfl
  | some v => cases v <;> rfl

theorem Override.values_rename (o : Override) :
    o.values (n.rename r ν) = (o.values n).map (Value.rename r) := by
  cases o with
  | const => exact n.op.values_rename r _
  | index => exact n.op.values_rename r _
  | slice => simp only [values, bound?_rename, List.map_filterMap]
  | _ => rfl

theorem Node.renderedValues_rename (table : OperatorTable) :
    (n.rename r ν).renderedValues table = (n.renderedValues table).map (Value.rename r) := by
  unfold renderedValues
  rw [rename_override?]
  cases n.override? with
  | none => simp only [rename_entry, rename_op, Operator.attributeNames_rename, Operator.values_rename]
  | some o => exact o.values_rename r ν n

theorem Override.usable_rename (o : Override) (h : o.Usable n) : o.Usable (n.rename r ν) := by
  cases o with
  | input =>
    intro v hv
    rw [Node.rename_op, Operator.attribute?_rename] at hv
    obtain ⟨w, hw, rfl⟩ := Option.map_eq_some_iff.mp hv
    obtain ⟨i, rfl⟩ := h w hw
    exact ⟨i, rfl⟩
  | index =>
    unfold Usable at h ⊢
    rw [Node.rename_op, Operator.attribute?_rename, ne_eq, Option.map_eq_none_iff]
    exact h
  | slice =>
    intro v hv
    rw [Node.rename_op, Operator.attribute?_rename] at hv
    obtain ⟨w, hw, rfl⟩ := Option.map_eq_some_iff.mp hv
    obtain ⟨d, rfl, hlt⟩ := h w hw
    exact ⟨d, rfl, hlt⟩
  | _ => trivial

theorem CallSite.positionalInputs_rename (e : OperatorEntry)
    (hinj : Set.InjOn r {x | x ∈ n.mentions}) :
    positionalInputs e (n.rename r ν) = (positionalInputs e n).map r := by
  have hother : otherInputs e (n.rename r ν) = (otherInputs e n).map r := by
    unfold otherInputs
    split
    · exact List.map_tail.symm
    · rfl
  have hinput : ∀ x ∈ otherInputs e n, x ∈ n.mentions := by
    intro x hx
    refine List.mem_append_left _ ?_
    unfold otherInputs at hx
    split at hx
    · exact List.mem_of_mem_tail hx
    · exact hx
  have hreferenced : ∀ x ∈ referenced n.op (e.attributeNames n.op), x ∈ n.mentions := by
    intro x hx
    rw [referenced_eq_flatMap] at hx
    obtain ⟨v, hv, hx⟩ := List.mem_flatMap.mp hx
    exact List.mem_append_right _ (n.op.tensors_of_values _ v hv x hx)
  unfold positionalInputs
  rw [hother, Node.rename_op, Operator.attributeNames_rename, Operator.referenced_rename,
    List.filter_map]
  refine congrArg (List.map r) (List.filter_congr fun x hx => ?_)
  -- a reference to the new name is a reference to the old one, as names are not merged
  have hmem : r x ∈ (referenced n.op (e.attributeNames n.op)).map r ↔
      x ∈ referenced n.op (e.attributeNames n.op) := by
    constructor
    · intro hm
      obtain ⟨y, hy, hyx⟩ := List.mem_map.mp hm
      rw [← hinj (hreferenced y hy) (hinput x hx) hyx]
      exact hy
    · exact List.mem_map_of_mem
  simp only [Function.comp_apply, List.contains_eq_mem, hmem]

theorem CallSite.unambiguous_rename (d : Dispatch) (e : OperatorEntry)
    (hinj : Set.InjOn r {x | x ∈ n.mentions}) (h : Unambiguous d e n) :
    Unambiguous d e (n.rename r ν) := by
  have hkeywords : nodeKeywords d e (n.rename r ν) = nodeKeywords d e n := by
    simp only [nodeKeywords, Node.rename_op, Operator.attributeNames_rename, Operator.definedAmong_rename]
  unfold Unambiguous
  rw [hkeywords, positionalInputs_rename r ν n e hinj, List.length_map]
  exact h

theorem Node.emittable_rename (table : OperatorTable) (p : Policy) (defined defined' : String → Prop)
    (hinj : Set.InjOn r {x | x ∈ n.mentions}) (hdefined : ∀ x, defined x → defined' (r x))
    (h : n.Emittable table p defined) : (n.rename r ν).Emittable table p defined' := by
  refine ⟨h.supported, fun htakes x hx => ?_, fun hneeds => ?_, ?_, fun o ho => ?_, fun ho hk => ?_⟩
  · obtain ⟨y, hy, rfl⟩ := List.mem_map.mp hx
    exact hdefined y (h.inputs_defined htakes y hy)
  · have hne : n.inputs ≠ [] := h.has_input hneeds
    simpa using hne
  · rw [renderedValues_rename]
    intro v hv
    obtain ⟨w, hw, rfl⟩ := List.mem_map.mp hv
    exact (Value.flat_rename r w).mpr (h.values_flat w hw)
  · exact o.usable_rename r ν n (h.usable o ho)
  · exact CallSite.unambiguous_rename r ν n p.dispatch _ hinj (h.unambiguous ho hk)

end

/-! ### Texts of rendered values -/

/-- A reference to a tensor reads the same after renaming: under the name that the tensor has in the
table, or raw. -/
structure SymbolTable.SameReference (r : String → String) (t t' : SymbolTable) (x : String) :
    Prop where
  resolve : t'.resolve? (r x) = t.resolve? x
  raw : t.resolve? x = none → r x = x

/-- A call is written down from the texts of its parts. -/
theorem Call.text_congr (c c' : Call) (hcallee : c.callee.text = c'.callee.text)
    (hpositional : c.positional.map Atom.render = c'.positional.map Atom.render)
    (hkeywords : c.keywords.map Keyword.text = c'.keywords.map Keyword.text) :
    c.text = c'.text := by
  have hempty : c.positional.isEmpty = c'.positional.isEmpty := by
    have hlength := congrArg List.length hpositional
    rw [List.length_map, List.length_map] at hlength
    rw [Bool.eq_iff_iff, List.isEmpty_iff_length_eq_zero, List.isEmpty_iff_length_eq_zero, hlength]
  simp only [Call.text, Call.arguments, hcallee, hempty, hpositional, hkeywords]

section

variable {r : String → String} {t t' : SymbolTable}

theorem SymbolTable.symbol_name_rename (x : String) (h : t'.resolve? (r x) = t.resolve? x) :
    (t'.symbol (r x)).name = (t.symbol x).name := by
  simp only [symbol, h]

theorem SymbolTable.atom_render_rename (v : Value)
    (hv : ∀ x ∈ v.tensors, SameReference r t t' x) :
    (t'.atom (v.rename r)).render = (t.atom v).render := by
  cases v with
  | tensor name =>
    obtain ⟨hresolve, hraw⟩ := hv name (List.mem_singleton.mpr rfl)
    simp only [Value.rename, atom, atom?, hresolve]
    cases hn : t.resolve? name with
    | some symbol => rfl
    | none => exact hraw hn
  | _ => rfl

theorem SymbolTable.atoms_render_rename (vs : List Value)
    (hv : ∀ x ∈ vs.flatMap Value.tensors, SameReference r t t' x) :
    ((vs.map (Value.rename r)).map t'.atom).map Atom.render = (vs.map t.atom).map Atom.render := by
  simp only [List.map_map]
  apply List.map_congr_left
  intro v hmem
  exact atom_render_rename v fun x hx => hv x (List.mem_flatMap.mpr ⟨v, hmem, hx⟩)

theorem SymbolTable.rendered_text_rename (v : Value)
    (hv : ∀ x ∈ v.tensors, SameReference r t t' x) :
    (t'.rendered (v.rename r)).text = (t.rendered v).text := by
  cases v with
  | tuple items =>
    rw [Value.tensors, Value.tensorsAll_eq_flatMap] at hv
    simp only [Value.rename, Value.renameAll_eq_map, rendered, Rendered.text,
      atoms_render_rename items hv]
  | list items =>
    rw [Value.tensors, Value.tensorsAll_eq_flatMap] at hv
    simp only [Value.rename, Value.renameAll_eq_map, rendered, Rendered.text,
      atoms_render_rename items hv]
  | tensor name => exact atom_render_rename (.tensor name) hv
  | _ => rfl

theorem SymbolTable.keywords_text_rename (op : Operator) (names : List String)
    (hv : ∀ v ∈ op.values names, ∀ x ∈ v.tensors, SameReference r t t' x) :
    (t'.keywords (op.rename r) names).map Keyword.text = (t.keywords op names).map Keyword.text := by
  simp only [keywords, List.map_filterMap, Operator.attribute?_rename, Option.map_map]
  apply List.filterMap_congr
  intro name hname
  cases ha : op.attribute? name with
  | none => rfl
  | some v =>
    have htext := rendered_text_rename v (hv v (List.mem_filterMap.mpr ⟨name, hname, ha⟩))
    simp only [Option.map_some, Function.comp_apply, Keyword.text, htext]

theorem SymbolTable.symbol_names_rename (xs : List String)
    (h : ∀ x ∈ xs, t'.resolve? (r x) = t.resolve? x) :
    ((xs.map r).map t'.symbol).map (·.name) = (xs.map t.symbol).map (·.name) := by
  simp only [List.map_map]
  apply List.map_congr_left
  intro x hx
  exact symbol_name_rename x (h x hx)

theorem SymbolTable.symbols_render_rename (xs : List String)
    (h : ∀ x ∈ xs, t'.resolve? (r x) = t.resolve? x) :
    (((xs.map r).map t'.symbol).map Atom.symbol).map Atom.render =
      ((xs.map t.symbol).map Atom.symbol).map Atom.render := by
  have hnames := symbol_names_rename xs h
  simp only [List.map_map] at hnames ⊢
  exact hnames

end

/-! ### Statements of a node -/

/-- A statement made again for a node of another name: the code is the same, and a comment is the
name of the node. -/
structure Statement.RenamedTo (ν : String → String) (s s' : Statement Assignment) : Prop where
  node : s'.node = ν s.node
  index : s'.index = s.index
  code : s'.code.text = s.code.text
  comment : s.comment = s.node ∧ s'.comment = s'.node ∨ s.comment = "" ∧ s'.comment = ""

structure Emission.RenamedTo (ν : String → String) (e e' : Emission) : Prop where
  init : Option.Rel (Statement.RenamedTo ν) e.init e'.init
  use : Statement.RenamedTo ν e.use e'.use

section

variable {r : String → String} {t t' : SymbolTable}

theorem Override.position_rename (ν : String → String) (count : Nat) (n : Node) :
    position count (n.rename r ν) = position count n := by
  unfold position
  rw [Node.rename_op, Operator.attribute?_rename]
  cases n.op.attribute? "index" with
  | none => rfl
  | some v => cases v <;> rfl

theorem Override.dimension_rename (ν : String → String) (n : Node) :
    dimension (n.rename r ν) = dimension n := by
  unfold dimension
  rw [Node.rename_op, Operator.attribute?_rename]
  cases n.op.attribute? "dim" with
  | none => rfl
  | some v => cases v <;> rfl

theorem Override.skipped_rename (ν : String → String) (n : Node) :
    skipped (n.rename r ν) = skipped n := by
  unfold skipped
  rw [dimension_rename]

theorem Override.boundText_rename (ν : String → String) (n : Node) (name : String)
    (hv : ∀ v ∈ (bound? n name).toList, ∀ x ∈ v.tensors, SymbolTable.SameReference r t t' x) :
    Rhs.boundText (renderedBound t' (n.rename r ν) name) =
      Rhs.boundText (renderedBound t n name) := by
  unfold renderedBound
  rw [bound?_rename]
  cases hb : bound? n name with
  | none => rfl
  | some v => exact SymbolTable.rendered_text_rename v (hv v (by simp [hb]))

theorem Override.form_text_rename (ν : String → String) (count : Nat) (n : Node) (o : Override)
    (hin : ∀ x ∈ n.inputs, t'.resolve? (r x) = t.resolve? x)
    (hv : ∀ v ∈ o.values n, ∀ x ∈ v.tensors, SymbolTable.SameReference r t t' x)
    (hne : o.needsInput = true → n.inputs ≠ []) :
    (o.form t' count (n.rename r ν)).text = (o.form t count n).text := by
  have hfirst : o.needsInput = true → (first t' (n.rename r ν)).name = (first t n).name := by
    intro hneeds
    unfold first
    rw [Node.rename_inputs]
    cases hn : n.inputs with
    | nil => exact absurd hn (hne hneeds)
    | cons x rest => exact SymbolTable.symbol_name_rename x (hin x (by simp [hn]))
  have hall := SymbolTable.symbol_names_rename n.inputs hin
  cases o with
  | input => simp only [form, position_rename]
  | const =>
    exact Call.text_congr _ _ rfl rfl (SymbolTable.keywords_text_rename n.op constAttributes hv)
  | identity => exact hfirst rfl
  | tupleUnpack => exact hfirst rfl
  | tuple => simp only [form, Rhs.text, Node.rename_inputs, hall, List.length_map]
  | list => simp only [form, Rhs.text, Node.rename_inputs, hall]
  | index =>
    simp only [form, Rhs.text, hfirst rfl, Node.rename_op, Operator.attribute?_rename]
    cases hi : n.op.attribute? "index" with
    | none => rfl
    | some v =>
      have hmem : v ∈ index.values n := by simp [values, Operator.values, hi]
      simp only [Option.map_some, Option.getD_some, SymbolTable.rendered_text_rename v (hv v hmem)]
  | slice =>
    rw [values_slice, List.forall_mem_append, List.forall_mem_append] at hv
    simp only [form, Rhs.text, Rhs.boundsText, hfirst rfl, skipped_rename,
      boundText_rename ν n "start" hv.1, boundText_rename ν n "end" hv.2.1,
      boundText_rename ν n "step" hv.2.2]

namespace CallSite

theorem receiverInput_rename (ν : String → String) (e : OperatorEntry) (n : Node) :
    receiverInput e (n.rename r ν) = (receiverInput e n).map r := by
  unfold receiverInput
  split
  · exact List.head?_map
  · rfl

theorem directCallee_text_rename (ν : String → String) (e : OperatorEntry) (n : Node)
    (hin : ∀ x ∈ n.inputs, t'.resolve? (r x) = t.resolve? x) :
    (Emission.directCallee e (form t' e (n.rename r ν))).text =
      (Emission.directCallee e (form t e n)).text := by
  simp only [Emission.directCallee, form, receiverInput_rename]
  cases hr : receiverInput e n with
  | none => rfl
  | some x =>
    have hx := hin x (receiverInput_mem e n x (by simp [hr]))
    simp only [Option.map_some, Callee.text, SymbolTable.symbol_name_rename x hx]

theorem receiverKeyword_text_rename (ν : String → String) (e : OperatorEntry) (n : Node)
    (hin : ∀ x ∈ n.inputs, t'.resolve? (r x) = t.resolve? x) :
    (Emission.receiverKeyword (form t' e (n.rename r ν))).map Keyword.text =
      (Emission.receiverKeyword (form t e n)).map Keyword.text := by
  simp only [Emission.receiverKeyword, form, receiverInput_rename]
  cases hr : receiverInput e n with
  | none => rfl
  | some x =>
    have hx := hin x (receiverInput_mem e n x (by simp [hr]))
    simp only [Option.map_some, List.map_cons, List.map_nil, Keyword.text, Rendered.text,
      Atom.render, SymbolTable.symbol_name_rename x hx]

theorem positional_render_rename (ν : String → String) (e : OperatorEntry) (n : Node)
    (hinj : Set.InjOn r {x | x ∈ n.mentions})
    (hin : ∀ x ∈ n.inputs, t'.resolve? (r x) = t.resolve? x) :
    ((form t' e (n.rename r ν)).positional.map Atom.symbol).map Atom.render =
      ((form t e n).positional.map Atom.symbol).map Atom.render := by
  simp only [form, positionalInputs_rename r ν n e hinj]
  exact SymbolTable.symbols_render_rename _ fun x hx => hin x (positionalInputs_mem e n x hx)

theorem keywords_text_rename (ν : String → String) (e : OperatorEntry) (n : Node)
    (hv : ∀ v ∈ n.op.values (e.attributeNames n.op), ∀ x ∈ v.tensors,
      SymbolTable.SameReference r t t' x) :
    (form t' e (n.rename r ν)).keywords.map Keyword.text =
      (form t e n).keywords.map Keyword.text := by
  simp only [form, Node.rename_op, Operator.attributeNames_rename]
  exact SymbolTable.keywords_text_rename n.op _ hv

end CallSite

namespace Emission

theorem statement_renamed (ν : String → String) (n : Node) (targets : List String) (rhs rhs' : Rhs)
    (comment comment' : String) (htext : rhs'.text = rhs.text)
    (hcomment : comment = n.name ∧ comment' = ν n.name ∨ comment = "" ∧ comment' = "") :
    Statement.RenamedTo ν (statement n targets rhs comment)
      (statement (n.rename r ν) targets rhs' comment') where
  node := rfl
  index := rfl
  code := by simp only [statement, Assignment.text, htext]
  comment := hcomment

theorem construction_renamed (ν : String → String) (p : Policy) (e : OperatorEntry) (n : Node)
    (keywords keywords' : List Keyword)
    (h : keywords'.map Keyword.text = keywords.map Keyword.text) :
    Statement.RenamedTo ν (construction p e n keywords)
      (construction p e (n.rename r ν) keywords') :=
  statement_renamed ν n _ _ _ _ _ (Call.text_congr _ _ rfl rfl h) (.inl ⟨rfl, rfl⟩)

/-- The statements of a renamed node have the text of the old ones. -/
theorem form_renamed (ν : String → String) (table : OperatorTable) (p : Policy) (count : Nat)
    (n : Node) (targets : List String) (hinj : Set.InjOn r {x | x ∈ n.mentions})
    (hin : ∀ x ∈ n.inputs, t'.resolve? (r x) = t.resolve? x)
    (hv : ∀ v ∈ n.renderedValues table, ∀ x ∈ v.tensors, SymbolTable.SameReference r t t' x)
    (hne : n.needsInput table = true → n.inputs ≠ []) :
    RenamedTo ν (form table p t count n targets) (form table p t' count (n.rename r ν) targets) := by
  unfold form
  rw [Node.rename_override?, Node.rename_entry]
  cases ho : n.override? with
  | some o =>
    simp only [Node.renderedValues, Node.needsInput, ho] at hv hne
    exact ⟨.none, statement_renamed ν n targets _ _ _ _ (o.form_text_rename ν count n hin hv hne)
      (.inr ⟨rfl, rfl⟩)⟩
  | none =>
    simp only [Node.renderedValues, ho] at hv
    by_cases hk : (n.entry table).kind = .statefulModule
    · simp only [if_pos hk]
      refine ⟨.some (construction_renamed ν p _ n _ _ ?_),
        statement_renamed ν n targets _ _ _ _ ?_ (.inr ⟨rfl, rfl⟩)⟩
      · rw [Node.rename_op, Operator.attributeNames_rename]
        exact SymbolTable.keywords_text_rename n.op _ hv
      · exact Call.text_congr _ _ rfl (SymbolTable.symbols_render_rename n.inputs hin) rfl
    · have hpositional := CallSite.positional_render_rename ν (n.entry table) n hinj hin
      have hkeywords := CallSite.keywords_text_rename ν (n.entry table) n hv
      simp only [if_neg hk, statelessForm]
      cases p.dispatch with
      | direct =>
        refine ⟨.none, statement_renamed ν n targets _ _ _ _ ?_ (.inl ⟨rfl, rfl⟩)⟩
        exact Call.text_congr _ _ (CallSite.directCallee_text_rename ν _ n hin) hpositional hkeywords
      | submodule =>
        refine ⟨.some (construction_renamed ν p _ n _ _ rfl),
          statement_renamed ν n targets _ _ _ _ ?_ (.inr ⟨rfl, rfl⟩)⟩
        refine Call.text_congr _ _ rfl hpositional ?_
        simp only [List.map_append, CallSite.receiverKeyword_text_rename ν (n.entry table) n hin,
          hkeywords]

end Emission

end

end Netscribe
