import Netscribe.Emission.CallSite
import Netscribe.Proofs.Rendering

/-!
# Call sites: when a call has arguments, and which

The arguments of an operator without state depend on the graph and the table alone, up to the
symbols that stand for tensors. They exist exactly if the inputs are defined, a method has a
receiver, the attributes can be rendered, and no parameter is passed twice.
-/

namespace Netscribe.CallSite

def receiverInput (e : OperatorEntry) (n : Node) : Option String :=
  if e.kind == .methodCall then n.inputs.head? else none

def otherInputs (e : OperatorEntry) (n : Node) : List String :=
  if e.kind == .methodCall then n.inputs.tail else n.inputs

def positionalInputs (e : OperatorEntry) (n : Node) : List String :=
  (otherInputs e n).filter fun x => !(referenced n.op (e.attributeNames n.op)).contains x

def nodeKeywords (d : Dispatch) (e : OperatorEntry) (n : Node) : List String :=
  (if takesReceiver e d then [receiverKeyword] else []) ++ n.op.definedAmong (e.attributeNames n.op)

/-- No keyword is given twice, and none names a parameter that is filled by position. -/
def Unambiguous (d : Dispatch) (e : OperatorEntry) (n : Node) : Prop :=
  (nodeKeywords d e n).Nodup ∧
    ∀ k ∈ nodeKeywords d e n, k ∉ (parameters e d).take (positionalInputs e n).length

structure Accepts (defined : String → Prop) (d : Dispatch) (e : OperatorEntry) (n : Node) : Prop where
  values_flat : ∀ v ∈ n.op.values (e.attributeNames n.op), v.Flat
  inputs_defined : ∀ x ∈ n.inputs, defined x
  has_receiver : e.kind = .methodCall → n.inputs ≠ []
  unambiguous : Unambiguous d e n

def form (t : SymbolTable) (e : OperatorEntry) (n : Node) : CallSite where
  receiver := (receiverInput e n).map t.symbol
  positional := (positionalInputs e n).map t.symbol
  keywords := t.keywords n.op (e.attributeNames n.op)

/-! ### Acceptance -/

theorem conflict?_eq_none (filled before ks : List String) :
    conflict? filled before ks = none ↔
      ks.Nodup ∧ ∀ k ∈ ks, k ∉ filled ∧ k ∉ before := by
  induction ks generalizing before with
  | nil => simp [conflict?]
  | cons k rest ih =>
    by_cases hk : k ∈ filled ∨ k ∈ before
    · simp only [conflict?, Bool.or_eq_true, List.contains_iff_mem, if_pos hk, reduceCtorEq,
        List.forall_mem_cons, false_iff]
      intro hall
      obtain ⟨-, ⟨hf, hb⟩, -⟩ := hall
      exact hk.elim hf hb
    · simp only [conflict?, Bool.or_eq_true, List.contains_iff_mem, if_neg hk, ih, List.nodup_cons,
        List.forall_mem_cons, List.mem_append, List.mem_singleton]
      simp only [not_or] at hk ⊢
      constructor
      · intro hall
        obtain ⟨hnd, hrest⟩ := hall
        exact ⟨⟨fun hm => (hrest k hm).2.2 rfl, hnd⟩, hk,
          fun x hx => ⟨(hrest x hx).1, (hrest x hx).2.1⟩⟩
      · intro hall
        obtain ⟨⟨hnm, hnd⟩, -, hrest⟩ := hall
        exact ⟨hnd, fun x hx => ⟨(hrest x hx).1, (hrest x hx).2, fun he => hnm (he ▸ hx)⟩⟩

theorem splitReceiver_yields (t : SymbolTable) (e : OperatorEntry) (n : Node) :
    Yields (splitReceiver e n (n.inputs.map t.symbol)) (e.kind = .methodCall → n.inputs ≠ [])
      ((receiverInput e n).map t.symbol, (otherInputs e n).map t.symbol) := by
  unfold splitReceiver receiverInput otherInputs
  by_cases hm : e.kind = .methodCall
  · simp only [hm, beq_self_eq_true, if_true]
    cases hn : n.inputs with
    | nil => exact Yields.error _ (by simp)
    | cons x rest => exact (Yields.ok _).congr (by simp) fun _ => rfl
  · have hb : (e.kind == .methodCall) = false := by simpa using hm
    simp only [hb, Bool.false_eq_true, if_false]
    exact (Yields.ok _).congr (by simp [hm]) fun _ => rfl

theorem filter_map_symbol (t : SymbolTable) (used xs : List String) :
    ((xs.map t.symbol).filter fun s => !used.contains s.tensor) =
      (xs.filter fun x => !used.contains x).map t.symbol := by
  rw [List.filter_map]
  rfl

theorem keywordNames_eq (t : SymbolTable) (d : Dispatch) (e : OperatorEntry) (n : Node) :
    keywordNames e d (t.keywords n.op (e.attributeNames n.op)) = nodeKeywords d e n := by
  unfold keywordNames nodeKeywords
  rw [t.keywords_names]

theorem conflict_yields (t : SymbolTable) (d : Dispatch) (e : OperatorEntry) (n : Node) :
    Yields
      (match conflict? ((parameters e d).take (form t e n).positional.length) []
          (keywordNames e d (form t e n).keywords) with
        | some k => Except.error (EmissionError.argumentConflict n.name k)
        | none => .ok (form t e n))
      (Unambiguous d e n) (form t e n) := by
  have hiff := conflict?_eq_none ((parameters e d).take (form t e n).positional.length) []
    (keywordNames e d (form t e n).keywords)
  have hkeys : keywordNames e d (form t e n).keywords = nodeKeywords d e n :=
    keywordNames_eq t d e n
  have hlen : (form t e n).positional.length = (positionalInputs e n).length :=
    List.length_map ..
  rw [hkeys, hlen] at hiff ⊢
  have hua : Unambiguous d e n ↔
      conflict? ((parameters e d).take (positionalInputs e n).length) [] (nodeKeywords d e n) =
        none := by
    rw [hiff]
    simp [Unambiguous]
  cases hc : conflict? ((parameters e d).take (positionalInputs e n).length) []
      (nodeKeywords d e n) with
  | none => exact (Yields.ok _).congr (iff_of_true trivial (hua.mpr hc)) fun _ => rfl
  | some k =>
    refine Yields.error _ fun h => ?_
    rw [hua.mp h] at hc
    cases hc

/-- A call has arguments exactly if all conditions hold. -/
theorem ofNode_yields (t : SymbolTable) (d : Dispatch) (e : OperatorEntry) (n : Node) :
    Yields (ofNode t d e n) (Accepts t.Has d e n) (form t e n) := by
  have hcollect := (t.collect_yields n.op (e.attributeNames n.op)).mapError
    fun x => EmissionError.inNode n.name (.ofAttribute x)
  have hlookup := (t.lookupInputs_yields n.name n.inputs).mapError EmissionError.missingProducer
  have hsplit := (splitReceiver_yields t e n).mapError EmissionError.emptySequence
  have hconflict := conflict_yields t d e n
  have hpositional : (form t e n).positional =
      ((otherInputs e n).map t.symbol).filter fun s =>
        !(referenced n.op (e.attributeNames n.op)).contains s.tensor :=
    (filter_map_symbol t _ _).symm
  have hall : Yields (ofNode t d e n)
      ((∀ v ∈ n.op.values (e.attributeNames n.op), v.Flat) ∧ (∀ x ∈ n.inputs, t.Has x) ∧
        (e.kind = .methodCall → n.inputs ≠ []) ∧ Unambiguous d e n)
      (form t e n) := by
    refine hcollect.bind fun _ => hlookup.bind fun _ => hsplit.bind fun _ => ?_
    dsimp only
    rw [← hpositional]
    exact hconflict
  refine hall.congr ⟨?_, ?_⟩ fun _ => rfl
  · intro hconditions
    obtain ⟨hv, hd, hr, hu⟩ := hconditions
    exact ⟨hv, hd, hr, hu⟩
  · intro haccepts
    exact ⟨haccepts.values_flat, haccepts.inputs_defined, haccepts.has_receiver,
      haccepts.unambiguous⟩

/-! ### Symbols -/

theorem referenced_eq_flatMap (op : Operator) (names : List String) :
    referenced op names = (op.values names).flatMap Value.tensors := by
  induction names with
  | nil => rfl
  | cons name rest ih =>
    simp only [referenced, Operator.values, List.flatMap_cons, List.filterMap_cons] at ih ⊢
    rw [ih]
    cases op.attribute? name <;> rfl

def reads (e : OperatorEntry) (n : Node) : List String :=
  (receiverInput e n).toList ++ positionalInputs e n ++
    (n.op.values (e.attributeNames n.op)).flatMap Value.tensors

theorem receiverInput_mem (e : OperatorEntry) (n : Node) (x : String)
    (h : x ∈ (receiverInput e n).toList) : x ∈ n.inputs := by
  unfold receiverInput at h
  split at h
  · rw [Option.mem_toList] at h
    exact List.mem_of_head? h
  · simp at h

theorem positionalInputs_mem (e : OperatorEntry) (n : Node) (x : String)
    (h : x ∈ positionalInputs e n) : x ∈ n.inputs := by
  have hother : x ∈ otherInputs e n := (List.mem_filter.mp h).1
  unfold otherInputs at hother
  split at hother
  · exact List.mem_of_mem_tail hother
  · exact hother

/-- The receiver, the positional arguments and the keywords read the symbols of `reads`. -/
theorem form_symbols (t : SymbolTable) (e : OperatorEntry) (n : Node)
    (hd : ∀ x ∈ n.inputs, t.Has x)
    (hv : ∀ v ∈ n.op.values (e.attributeNames n.op), v.Flat) :
    (form t e n).receiver.toList ++ (form t e n).positional ++
        (form t e n).keywords.flatMap (·.value.symbols) =
      t.symbolsOf (reads e n) := by
  have hr := t.symbolsOf_eq_map (receiverInput e n).toList
    fun x hx => hd x (receiverInput_mem e n x hx)
  have hp := t.symbolsOf_eq_map (positionalInputs e n)
    fun x hx => hd x (positionalInputs_mem e n x hx)
  have hk := t.keywords_symbols n.op (e.attributeNames n.op) hv
  unfold reads form
  rw [t.symbolsOf_append, t.symbolsOf_append, hr, hp, ← hk]
  cases receiverInput e n <;> rfl

end Netscribe.CallSite
