import Netscribe.Emission.Node
import Netscribe.Proofs.CallSite
import Netscribe.Proofs.Override

/-!
# Emission of one node

`Node.Emittable` lists the conditions under which a node has statements, each said on the graph, the
table and the tensors defined so far. `Emission.form` gives the statements under these conditions,
and `Node.reads` the tensors that the use statement mentions.
-/

namespace Netscribe

namespace OperatorClass

def isStateless : OperatorClass → Bool
  | freeFunction => true
  | methodCall => true
  | primitive => true
  | _ => false

def isSupported : OperatorClass → Bool
  | statefulModule => true
  | freeFunction => true
  | methodCall => true
  | primitive => true
  | _ => false

theorem of_isStateless (k : OperatorClass) (h : k.isStateless = true) :
    k ≠ .statefulModule ∧ k.isSupported = true := by
  cases k <;> simp_all [isStateless, isSupported]

end OperatorClass

namespace Node

def override? (n : Node) : Option Override := Override.ofType? n.op.type

def entry (table : OperatorTable) (n : Node) : OperatorEntry := table.lookup n.op.type

def takesInputs (n : Node) : Bool :=
  match n.override? with
  | some o => o.takesInputs
  | none => true

def needsInput (table : OperatorTable) (n : Node) : Bool :=
  match n.override? with
  | some o => o.needsInput
  | none => (n.entry table).kind == .statefulModule || (n.entry table).kind == .methodCall

def renderedValues (table : OperatorTable) (n : Node) : List Value :=
  match n.override? with
  | some o => o.values n
  | none => n.op.values ((n.entry table).attributeNames n.op)

def hasSubmodule (table : OperatorTable) (p : Policy) (n : Node) : Bool :=
  n.override?.isNone && ((n.entry table).kind == .statefulModule || p.dispatch == .submodule)

/-- The conditions under which a node has statements, given the tensors defined up to its own. -/
structure Emittable (table : OperatorTable) (p : Policy) (defined : String → Prop) (n : Node) :
    Prop where
  supported : n.override? = none → (n.entry table).kind.isSupported = true
  inputs_defined : n.takesInputs = true → ∀ x ∈ n.inputs, defined x
  has_input : n.needsInput table = true → n.inputs ≠ []
  values_flat : ∀ v ∈ n.renderedValues table, v.Flat
  usable : ∀ o, n.override? = some o → o.Usable n
  unambiguous : n.override? = none → (n.entry table).kind.isStateless = true →
    CallSite.Unambiguous p.dispatch (n.entry table) n

end Node

namespace Emission

/-! ### Statements without failure -/

def statefulForm (p : Policy) (t : SymbolTable) (e : OperatorEntry) (n : Node)
    (targets : List String) : Emission :=
  ⟨some (construction p e n (t.keywords n.op (e.attributeNames n.op))),
    statement n targets (.call ⟨.submodule n.index, (n.inputs.map t.symbol).map .symbol, []⟩) "",
    .classified e.kind⟩

def directForm (t : SymbolTable) (e : OperatorEntry) (n : Node) (targets : List String) :
    Emission :=
  let c := CallSite.form t e n
  ⟨none,
    statement n targets (.call ⟨directCallee e c, c.positional.map .symbol, c.keywords⟩) n.name,
    .classified e.kind⟩

def submoduleForm (p : Policy) (t : SymbolTable) (e : OperatorEntry) (n : Node)
    (targets : List String) : Emission :=
  let c := CallSite.form t e n
  ⟨some (construction p e n []),
    statement n targets
      (.call ⟨.submodule n.index, c.positional.map .symbol, receiverKeyword c ++ c.keywords⟩) "",
    .classified e.kind⟩

def statelessForm (p : Policy) (t : SymbolTable) (e : OperatorEntry) (n : Node)
    (targets : List String) : Emission :=
  match p.dispatch with
  | .submodule => submoduleForm p t e n targets
  | .direct => directForm t e n targets

def form (table : OperatorTable) (p : Policy) (t : SymbolTable) (count : Nat) (n : Node)
    (targets : List String) : Emission :=
  match n.override? with
  | some o => ⟨none, statement n targets (o.form t count n) "", .override⟩
  | none =>
    if (n.entry table).kind = .statefulModule then statefulForm p t (n.entry table) n targets
    else statelessForm p t (n.entry table) n targets

/-! ### Acceptance -/

theorem nonEmpty_yields {α : Type} (items : List α) (what node : String) :
    Yields (nonEmpty items what node) (items ≠ []) items := by
  cases items with
  | nil => exact Yields.error _ (by simp)
  | cons x rest => exact (Yields.ok _).congr (by simp) fun _ => rfl

theorem stateful_yields (p : Policy) (t : SymbolTable) (e : OperatorEntry) (n : Node)
    (targets : List String) :
    Yields (stateful p t e n targets)
      ((∀ v ∈ n.op.values (e.attributeNames n.op), v.Flat) ∧ (∀ x ∈ n.inputs, t.Has x) ∧
        n.inputs ≠ [])
      (statefulForm p t e n targets) := by
  have hcollect := (t.collect_yields n.op (e.attributeNames n.op)).mapError
    fun x => EmissionError.inNode n.name (.ofAttribute x)
  have hlookup := (t.lookupInputs_yields n.name n.inputs).mapError EmissionError.missingProducer
  have hnonEmpty := (nonEmpty_yields (n.inputs.map t.symbol) "inputs" n.name).mapError
    EmissionError.emptySequence
  have hmap : n.inputs.map t.symbol ≠ [] ↔ n.inputs ≠ [] := by simp
  rw [← hmap]
  exact hcollect.bind fun _ => hlookup.bind fun _ => hnonEmpty.bind_pure _

theorem stateless_yields (p : Policy) (t : SymbolTable) (e : OperatorEntry) (n : Node)
    (targets : List String) :
    Yields (stateless p t e n targets) (CallSite.Accepts t.Has p.dispatch e n)
      (statelessForm p t e n targets) := by
  unfold stateless statelessForm
  cases p.dispatch with
  | submodule => exact (CallSite.ofNode_yields t .submodule e n).bind_pure _
  | direct => exact (CallSite.ofNode_yields t .direct e n).bind_pure _

/-- The conditions on a node whose operator is not overridden. -/
theorem emittable_classified (table : OperatorTable) (p : Policy) (defined : String → Prop) (n : Node)
    (ho : n.override? = none) :
    n.Emittable table p defined ↔
      (n.entry table).kind.isSupported = true ∧ (∀ x ∈ n.inputs, defined x) ∧
      ((n.entry table).kind = .statefulModule ∨ (n.entry table).kind = .methodCall →
        n.inputs ≠ []) ∧
      (∀ v ∈ n.op.values ((n.entry table).attributeNames n.op), v.Flat) ∧
      ((n.entry table).kind.isStateless = true →
        CallSite.Unambiguous p.dispatch (n.entry table) n) := by
  have htakes : n.takesInputs = true := by simp only [Node.takesInputs, ho]
  have hneeds : n.needsInput table = true ↔
      (n.entry table).kind = .statefulModule ∨ (n.entry table).kind = .methodCall := by
    simp [Node.needsInput, ho]
  have hvalues : n.renderedValues table = n.op.values ((n.entry table).attributeNames n.op) := by
    simp only [Node.renderedValues, ho]
  constructor
  · intro h
    have hflat := h.values_flat
    rw [hvalues] at hflat
    exact ⟨h.supported ho, h.inputs_defined htakes, fun hk => h.has_input (hneeds.mpr hk), hflat,
      h.unambiguous ho⟩
  · intro hall
    obtain ⟨hs, hd, hne, hv, hu⟩ := hall
    refine ⟨fun _ => hs, fun _ => hd, fun hn => hne (hneeds.mp hn), ?_, ?_, fun _ => hu⟩
    · rw [hvalues]
      exact hv
    · intro o h
      rw [ho] at h
      cases h

theorem emittable_stateless (table : OperatorTable) (p : Policy) (defined : String → Prop) (n : Node)
    (ho : n.override? = none) (hs : (n.entry table).kind.isStateless = true) :
    CallSite.Accepts defined p.dispatch (n.entry table) n ↔ n.Emittable table p defined := by
  obtain ⟨hk, hsupported⟩ := OperatorClass.of_isStateless _ hs
  rw [emittable_classified table p defined n ho]
  constructor
  · intro h
    exact ⟨hsupported, h.inputs_defined, fun hk' => h.has_receiver (hk'.resolve_left hk),
      h.values_flat, fun _ => h.unambiguous⟩
  · intro hall
    obtain ⟨-, hd, hne, hv, hu⟩ := hall
    exact ⟨hv, hd, fun hm => hne (.inr hm), hu hs⟩

theorem emittable_stateful (table : OperatorTable) (p : Policy) (defined : String → Prop) (n : Node)
    (ho : n.override? = none) (hk : (n.entry table).kind = .statefulModule) :
    ((∀ v ∈ n.op.values ((n.entry table).attributeNames n.op), v.Flat) ∧
        (∀ x ∈ n.inputs, defined x) ∧ n.inputs ≠ []) ↔
      n.Emittable table p defined := by
  rw [emittable_classified table p defined n ho, hk]
  constructor
  · intro hall
    obtain ⟨hv, hd, hne⟩ := hall
    exact ⟨rfl, hd, fun _ => hne, hv, fun hs => by cases hs⟩
  · intro hall
    obtain ⟨-, hd, hne, hv, -⟩ := hall
    exact ⟨hv, hd, hne (.inl rfl)⟩

theorem emittable_override (table : OperatorTable) (p : Policy) (defined : String → Prop) (n : Node)
    (o : Override) (ho : n.override? = some o) :
    o.Accepts defined n ↔ n.Emittable table p defined := by
  have htakes : n.takesInputs = o.takesInputs := by simp only [Node.takesInputs, ho]
  have hneeds : n.needsInput table = o.needsInput := by simp only [Node.needsInput, ho]
  have hvalues : n.renderedValues table = o.values n := by simp only [Node.renderedValues, ho]
  have hsome : n.override? ≠ none := by simp [ho]
  constructor
  · intro h
    refine ⟨fun hn => absurd hn hsome, ?_, ?_, ?_, ?_, fun hn => absurd hn hsome⟩
    · rw [htakes]
      exact h.inputs_defined
    · rw [hneeds]
      exact h.has_input
    · rw [hvalues]
      exact h.values_flat
    · intro o' ho'
      rw [ho] at ho'
      cases ho'
      exact h.usable
  · intro h
    refine ⟨?_, ?_, ?_, h.usable o ho⟩
    · rw [← htakes]
      exact h.inputs_defined
    · rw [← hneeds]
      exact h.has_input
    · rw [← hvalues]
      exact h.values_flat

theorem classified_yields (table : OperatorTable) (p : Policy) (t : SymbolTable) (count : Nat)
    (n : Node) (targets : List String) (ho : n.override? = none) :
    Yields (classified table p t n targets) (n.Emittable table p t.Has)
      (form table p t count n targets) := by
  have hstateless : (n.entry table).kind.isStateless = true →
      Yields (stateless p t (n.entry table) n targets) (n.Emittable table p t.Has)
        (form table p t count n targets) := by
    intro hs
    refine (stateless_yields p t (n.entry table) n targets).congr
      (emittable_stateless table p t.Has n ho hs) fun _ => ?_
    simp only [form, ho, if_neg (OperatorClass.of_isStateless _ hs).1]
  have hrefused : (n.entry table).kind.isSupported = false →
      ∀ e : EmissionError, Yields (.error e) (n.Emittable table p t.Has)
        (form table p t count n targets) := by
    intro hs e
    refine Yields.error _ fun h => ?_
    rw [h.supported ho] at hs
    cases hs
  have hentry : table.lookup n.op.type = n.entry table := rfl
  simp only [classified, hentry]
  cases hk : (n.entry table).kind with
  | statefulModule =>
    refine (stateful_yields p t (n.entry table) n targets).congr
      (emittable_stateful table p t.Has n ho hk) fun _ => ?_
    simp only [form, ho, if_pos hk]
  | freeFunction => exact hstateless (by rw [hk]; rfl)
  | methodCall => exact hstateless (by rw [hk]; rfl)
  | primitive => exact hstateless (by rw [hk]; rfl)
  | unrecognized => exact hrefused (by rw [hk]; rfl) _
  | other name => exact hrefused (by rw [hk]; rfl) _

theorem ofNode_override (table : OperatorTable) (p : Policy) (t : SymbolTable) (count : Nat)
    (n : Node) (targets : List String) (o : Override) (ho : n.override? = some o) :
    ofNode table p t count n targets = (o.rhs t count n).mapError (.inNode n.name) >>= fun rhs =>
      pure ⟨none, statement n targets rhs "", .override⟩ := by
  have htype : Override.ofType? n.op.type = some o := ho
  unfold ofNode
  rw [htype]

theorem ofNode_classified (table : OperatorTable) (p : Policy) (t : SymbolTable) (count : Nat)
    (n : Node) (targets : List String) (ho : n.override? = none) :
    ofNode table p t count n targets = (classified table p t n targets).mapError .error := by
  have htype : Override.ofType? n.op.type = none := ho
  unfold ofNode
  rw [htype]

/-- A node has statements exactly if it is emittable. -/
theorem ofNode_yields (table : OperatorTable) (p : Policy) (t : SymbolTable) (count : Nat)
    (n : Node) (targets : List String) :
    Yields (ofNode table p t count n targets) (n.Emittable table p t.Has)
      (form table p t count n targets) := by
  cases ho : n.override? with
  | none =>
    rw [ofNode_classified table p t count n targets ho]
    exact (classified_yields table p t count n targets ho).mapError Halt.error
  | some o =>
    rw [ofNode_override table p t count n targets o ho]
    have hrhs := (o.rhs_yields t count n).mapError (Halt.inNode n.name)
    refine (hrhs.bind_pure _).congr (emittable_override table p t.Has n o ho) fun _ => ?_
    simp only [form, ho]

/-! ### Statements -/

theorem form_use_node (table : OperatorTable) (p : Policy) (t : SymbolTable) (count : Nat)
    (n : Node) (targets : List String) :
    (form table p t count n targets).use.node = n.name ∧
      (form table p t count n targets).use.index = n.index ∧
      (form table p t count n targets).use.code.targets = targets := by
  unfold form statelessForm
  split
  · exact ⟨rfl, rfl, rfl⟩
  · split
    · exact ⟨rfl, rfl, rfl⟩
    · split <;> exact ⟨rfl, rfl, rfl⟩

theorem form_init_none (table : OperatorTable) (p : Policy) (t : SymbolTable) (count : Nat)
    (n : Node) (targets : List String) (h : n.hasSubmodule table p = false) :
    (form table p t count n targets).init = none := by
  unfold form statelessForm
  cases ho : n.override? with
  | some o => rfl
  | none =>
    simp only [Node.hasSubmodule, ho, Option.isNone_none, Bool.true_and, Bool.or_eq_false_iff,
      beq_eq_false_iff_ne] at h
    simp only [if_neg h.1]
    cases hd : p.dispatch with
    | submodule => exact absurd hd h.2
    | direct => rfl

/-- A node with a submodule constructs it and calls it, under one index. -/
theorem form_init_some (table : OperatorTable) (p : Policy) (t : SymbolTable) (count : Nat)
    (n : Node) (targets : List String) (h : n.hasSubmodule table p = true) :
    ∃ positional keywords arguments options,
      (form table p t count n targets).init =
        some (statement n [Naming.submodule n.index]
          (.call ⟨.named (p.constructor n.op.type (n.entry table)).callee, positional, keywords⟩)
          n.name) ∧
      (form table p t count n targets).use =
        statement n targets (.call ⟨.submodule n.index, arguments, options⟩) "" := by
  unfold form statelessForm
  cases ho : n.override? with
  | some o => simp [Node.hasSubmodule, ho] at h
  | none =>
    simp only [Node.hasSubmodule, ho, Option.isNone_none, Bool.true_and, Bool.or_eq_true,
      beq_iff_eq] at h
    by_cases hk : (n.entry table).kind = .statefulModule
    · simp only [if_pos hk]
      exact ⟨_, _, _, _, rfl, rfl⟩
    · simp only [if_neg hk, h.resolve_left hk]
      exact ⟨_, _, _, _, rfl, rfl⟩

/-! ### Symbols -/

theorem flatMap_atom_symbol (ss : List Symbol) :
    (ss.map Atom.symbol).flatMap Atom.symbols = ss := by
  induction ss with
  | nil => rfl
  | cons s rest ih => rw [List.map_cons, List.flatMap_cons, ih]; rfl

theorem directCallee_symbols (e : OperatorEntry) (c : CallSite) :
    (directCallee e c).symbols = c.receiver.toList := by
  unfold directCallee
  cases c.receiver <;> rfl

theorem receiverKeyword_symbols (c : CallSite) :
    (receiverKeyword c).flatMap (·.value.symbols) = c.receiver.toList := by
  unfold receiverKeyword
  cases c.receiver <;> rfl

/-- Both ways of calling an operator without state read the same symbols. -/
theorem statelessForm_symbols (p : Policy) (t : SymbolTable) (e : OperatorEntry) (n : Node)
    (targets : List String) (s : Symbol) :
    s ∈ (statelessForm p t e n targets).use.code.rhs.symbols ↔
      s ∈ (CallSite.form t e n).receiver.toList ++ (CallSite.form t e n).positional ++
        (CallSite.form t e n).keywords.flatMap (·.value.symbols) := by
  unfold statelessForm
  cases p.dispatch with
  | direct =>
    simp only [directForm, statement, Rhs.symbols, Call.symbols, flatMap_atom_symbol,
      directCallee_symbols]
  | submodule =>
    simp only [submoduleForm, statement, Rhs.symbols, Call.symbols, Callee.symbols,
      flatMap_atom_symbol, List.flatMap_append, receiverKeyword_symbols, List.nil_append,
      List.mem_append]
    constructor
    · intro h
      rcases h with h | h | h
      · exact .inl (.inr h)
      · exact .inl (.inl h)
      · exact .inr h
    · intro h
      rcases h with (h | h) | h
      · exact .inr (.inl h)
      · exact .inl h
      · exact .inr (.inr h)

end Emission

def Node.reads (table : OperatorTable) (n : Node) : List String :=
  match n.override? with
  | some o => o.reads n
  | none =>
    if (n.entry table).kind = .statefulModule then n.inputs
    else CallSite.reads (n.entry table) n

/-- The use statement reads the symbols of the tensors it mentions, as far as they are defined. -/
theorem Emission.form_use_symbols (table : OperatorTable) (p : Policy) (t : SymbolTable)
    (count : Nat) (n : Node) (targets : List String) (h : n.Emittable table p t.Has)
    (s : Symbol) :
    s ∈ (form table p t count n targets).use.code.rhs.symbols ↔ s ∈ t.symbolsOf (n.reads table) := by
  unfold form Node.reads
  cases ho : n.override? with
  | some o =>
    have haccepts := (emittable_override table p t.Has n o ho).mpr h
    simp only [statement, o.form_symbols t count n haccepts]
  | none =>
    have hd := h.inputs_defined (by simp only [Node.takesInputs, ho])
    have hv := h.values_flat
    simp only [Node.renderedValues, ho] at hv
    by_cases hk : (n.entry table).kind = .statefulModule
    · simp only [if_pos hk, statefulForm, statement, Rhs.symbols, Call.symbols, Callee.symbols,
        flatMap_atom_symbol, List.nil_append, List.flatMap_nil, List.append_nil,
        t.symbolsOf_eq_map n.inputs hd]
    · simp only [if_neg hk]
      rw [statelessForm_symbols, CallSite.form_symbols t (n.entry table) n hd hv]

end Netscribe
