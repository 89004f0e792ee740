import Netscribe.Proofs.Generation

/-!
# What the failures of a pass tell

A pass stops at its first error, and the error tells what is wrong with the graph: a tensor defined a
second time, an index used a second time, a consumed tensor that no node up to the consumer produces,
or a terminal tensor that no node produces. `step_fails` says so of one node, `run_fails` of any
number of nodes by induction, and `build_fails` of a whole pass.
-/

namespace Netscribe

/-- Every error of the computation satisfies `R`. -/
def FailsOnly {ε α : Type} (x : Except ε α) (R : ε → Prop) : Prop := ∀ e, x = .error e → R e

namespace FailsOnly

variable {ε ε' α β : Type} {R S : ε → Prop} {x : Except ε α}

theorem ok (a : α) : FailsOnly (.ok a) R := by
  intro e h
  cases h

theorem error {e : ε} (h : R e) : FailsOnly (.error e : Except ε α) R := by
  intro e' he
  cases he
  exact h

theorem mono (h : FailsOnly x R) (hRS : ∀ e, R e → S e) : FailsOnly x S :=
  fun e he => hRS e (h e he)

theorem mapError {x : Except ε' α} {f : ε' → ε} (h : FailsOnly x fun e => R (f e)) :
    FailsOnly (x.mapError f) R := by
  intro e he
  cases x with
  | ok a => cases he
  | error e' =>
    cases he
    exact h e' rfl

/-- A second step only runs on what the first one gave. -/
theorem bind {f : α → Except ε β} (h : FailsOnly x R) (hf : ∀ a, x = .ok a → FailsOnly (f a) R) :
    FailsOnly (x >>= f) R := by
  intro e he
  cases x with
  | error e' =>
    cases he
    exact h _ rfl
  | ok a => exact hf a rfl e he

theorem map (h : FailsOnly x R) (f : α → β) : FailsOnly (x.map f) R := by
  intro e he
  cases x with
  | error e' =>
    cases he
    exact h _ rfl
  | ok a => cases he

end FailsOnly

/-- An ending that is an error satisfies `R`; a panic need not. -/
def Halt.Tells (R : EmissionError → Prop) : Halt → Prop
  | error e => R e
  | panic _ => True

theorem FailsOnly.tells {α : Type} {x : Except EmissionError α} {R : EmissionError → Prop}
    (h : FailsOnly x R) : FailsOnly (x.mapError Halt.error) (Halt.Tells R) := .mapError h

theorem Halt.Tells.mono {R S : EmissionError → Prop} {h : Halt} (hR : h.Tells R)
    (hRS : ∀ e, R e → S e) : h.Tells S := by
  cases h with
  | error e => exact hRS e hR
  | panic message => trivial

namespace EmissionError

def isLocal : EmissionError → Bool
  | redefinition _ => false
  | missingProducer _ => false
  | rejected _ => false
  | inOutputs _ => false
  | inNode _ e => e.isLocal
  | inAttribute _ e => e.isLocal
  | _ => true

/-- The error comes from the statements of a node whose outputs are named: either it is local, or an
input of the node is not among the defined tensors. -/
structure OfStatements (defined : String → Prop) (n : Node) (e : EmissionError) : Prop where
  not_redefinition : ∀ r, e.reason ≠ .redefinition r
  not_rejected : ∀ r, e.reason ≠ .rejected r
  not_inOutputs : ∀ e', e ≠ .inOutputs e'
  unproduced : ∀ m, e.reason = .missingProducer m → m.tensor ∈ n.inputs ∧ ¬ defined m.tensor

theorem reason_of_isLocal (e : EmissionError) (h : e.isLocal = true) :
    (∀ r, e.reason ≠ .redefinition r) ∧ (∀ r, e.reason ≠ .rejected r) ∧
      ∀ m, e.reason ≠ .missingProducer m := by
  induction e with
  | inNode node e ih => exact ih h
  | inAttribute name e ih => exact ih h
  | redefinition r => cases h
  | missingProducer m => cases h
  | rejected r => cases h
  | inOutputs e => cases h
  | _ => simp [reason]

theorem OfStatements.of_isLocal {defined : String → Prop} {n : Node} {e : EmissionError}
    (h : e.isLocal = true) : OfStatements defined n e := by
  obtain ⟨hredefinition, hrejected, hmissing⟩ := reason_of_isLocal e h
  refine ⟨hredefinition, hrejected, ?_, fun m hm => absurd hm (hmissing m)⟩
  rintro e' rfl
  cases h

theorem OfStatements.of_missing {defined : String → Prop} {n : Node} {m : MissingProducer}
    (h : m.tensor ∈ n.inputs ∧ ¬ defined m.tensor) : OfStatements defined n (.missingProducer m) := by
  refine ⟨by simp [reason], by simp [reason], by simp, fun m' hm => ?_⟩
  simp only [reason, missingProducer.injEq] at hm
  rwa [← hm]

theorem OfStatements.inNode {defined : String → Prop} {n : Node} {e : EmissionError} (node : String)
    (h : OfStatements defined n e) : OfStatements defined n (.inNode node e) :=
  ⟨h.not_redefinition, h.not_rejected, by simp, h.unproduced⟩

end EmissionError

open EmissionError (OfStatements)

/-! ### The statements of a node -/

theorem SymbolTable.lookupInputs_fails (t : SymbolTable) (node : String) (xs : List String) :
    FailsOnly (t.lookupInputs node xs) fun m => m.tensor ∈ xs ∧ ¬ t.Has m.tensor := by
  induction xs with
  | nil => exact FailsOnly.ok _
  | cons x rest ih =>
    cases hx : t.resolve? x with
    | none =>
      simp only [lookupInputs, hx]
      exact FailsOnly.error ⟨List.mem_cons_self .., (t.resolve?_eq_none x).mp hx⟩
    | some name =>
      have hstep : t.lookupInputs node (x :: rest) =
          (t.lookupInputs node rest).map (⟨x, name⟩ :: ·) := by
        simp only [lookupInputs, hx]
        cases t.lookupInputs node rest <;> rfl
      rw [hstep]
      exact (ih.mono fun m hm => ⟨List.mem_cons_of_mem _ hm.1, hm.2⟩).map _

section

variable (t : SymbolTable) (n : Node)

theorem inputs_fails : FailsOnly ((t.lookupInputs n.name n.inputs).mapError EmissionError.missingProducer)
    (OfStatements t.Has n) :=
  .mapError ((t.lookupInputs_fails n.name n.inputs).mono fun _ => .of_missing)

theorem collect_fails (names : List String) (f : EmissionError → EmissionError)
    (hf : ∀ x, (f (.ofAttribute x)).isLocal = true) :
    FailsOnly ((t.collect n.op names).mapError fun x => f (.ofAttribute x))
      (OfStatements t.Has n) :=
  .mapError fun x _ => .of_isLocal (hf x)

namespace Override

theorem receiver_fails : FailsOnly (receiver t n) (OfStatements t.Has n) := by
  have hl := t.lookupInputs_fails n.name n.inputs
  unfold receiver
  cases hi : t.lookupInputs n.name n.inputs with
  | error m => exact .error (.of_missing (hl m hi))
  | ok ss =>
    cases ss with
    | nil => exact .error (.of_isLocal rfl)
    | cons s rest => exact .ok _

theorem inputPosition_fails (count : Nat) :
    FailsOnly (inputPosition count n) (OfStatements t.Has n) := by
  unfold inputPosition
  split
  · exact .ok _
  · exact .ok _
  · exact .error (.of_isLocal rfl)

theorem sliceDim_fails : FailsOnly (sliceDim n) (OfStatements t.Has n) := by
  unfold sliceDim
  split
  · exact .ok _
  · split
    · exact .ok _
    · exact .error (.of_isLocal rfl)
  · exact .error (.of_isLocal rfl)

theorem sliceBound_fails (name : String) :
    FailsOnly (sliceBound t n name) (OfStatements t.Has n) := by
  unfold sliceBound
  split
  · exact .ok _
  · exact .ok _
  · split
    · exact .ok _
    · exact .error (.of_isLocal rfl)

theorem item_fails : FailsOnly (item t n) (OfStatements t.Has n) := by
  refine (receiver_fails t n).bind fun s _ => ?_
  split
  · exact .error (.of_isLocal rfl)
  · exact FailsOnly.bind (.mapError fun _ _ => .of_isLocal rfl) fun _ _ => .ok _

theorem sliceParts_fails : FailsOnly (sliceParts t n) (OfStatements t.Has n) := by
  refine (receiver_fails t n).bind fun _ _ => (sliceDim_fails t n).bind fun _ _ => ?_
  exact (sliceBound_fails t n "start").bind fun _ _ => (sliceBound_fails t n "end").bind fun _ _ =>
    (sliceBound_fails t n "step").bind fun _ _ => .ok _

theorem rhs_fails (count : Nat) (o : Override) :
    FailsOnly (o.rhs t count n) (Halt.Tells (OfStatements t.Has n)) := by
  cases o with
  | input => exact ((inputPosition_fails t n count).map _).tells
  | const => exact ((collect_fails t n _ id fun _ => rfl).map _).tells
  | identity => exact ((receiver_fails t n).map _).tells
  | tupleUnpack => exact ((receiver_fails t n).map _).tells
  | tuple => exact ((inputs_fails t n).map _).tells
  | list => exact ((inputs_fails t n).map _).tells
  | index => exact (item_fails t n).tells
  | slice =>
    refine (sliceParts_fails t n).tells.bind fun parts _ => ?_
    unfold SliceParts.rhs
    split
    · exact .ok _
    · exact .error trivial

end Override

theorem CallSite.ofNode_fails (d : Dispatch) (e : OperatorEntry) :
    FailsOnly (CallSite.ofNode t d e n) (OfStatements t.Has n) := by
  refine (collect_fails t n _ (.inNode n.name) fun _ => rfl).bind fun _ _ => ?_
  refine (inputs_fails t n).bind fun _ _ => ?_
  refine FailsOnly.bind (.mapError fun _ _ => .of_isLocal rfl) fun _ _ => ?_
  dsimp only
  split
  · exact .error (.of_isLocal rfl)
  · exact .ok _

namespace Emission

theorem stateful_fails (p : Policy) (e : OperatorEntry) (targets : List String) :
    FailsOnly (stateful p t e n targets) (OfStatements t.Has n) := by
  refine (collect_fails t n _ (.inNode n.name) fun _ => rfl).bind fun _ _ => ?_
  refine (inputs_fails t n).bind fun _ _ => ?_
  exact FailsOnly.bind (.mapError fun _ _ => .of_isLocal rfl) fun _ _ => .ok _

theorem stateless_fails (p : Policy) (e : OperatorEntry) (targets : List String) :
    FailsOnly (stateless p t e n targets) (OfStatements t.Has n) := by
  unfold stateless
  split
  · exact (CallSite.ofNode_fails t n .submodule e).bind fun _ _ => .ok _
  · exact (CallSite.ofNode_fails t n .direct e).bind fun _ _ => .ok _

theorem classified_fails (table : OperatorTable) (p : Policy) (targets : List String) :
    FailsOnly (classified table p t n targets) (OfStatements t.Has n) := by
  unfold classified
  dsimp only
  split
  · exact stateful_fails t n p _ targets
  · exact stateless_fails t n p _ targets
  · exact stateless_fails t n p _ targets
  · exact stateless_fails t n p _ targets
  · exact .error (.of_isLocal rfl)
  · exact .error (.of_isLocal rfl)

theorem ofNode_fails (table : OperatorTable) (p : Policy) (count : Nat) (targets : List String) :
    FailsOnly (ofNode table p t count n targets) (Halt.Tells (OfStatements t.Has n)) := by
  cases ho : n.override? with
  | none =>
    rw [ofNode_classified table p t count n targets ho]
    exact (classified_fails t n table p targets).tells
  | some o =>
    rw [ofNode_override table p t count n targets o ho]
    refine FailsOnly.bind (.mapError ((o.rhs_fails t n count).mono fun h hh => ?_)) fun _ _ => .ok _
    cases h with
    | error e => exact EmissionError.OfStatements.inNode n.name hh
    | panic message => trivial

end Emission

end

/-! ### A node of a pass -/

namespace Generation

/-- What an error at a node tells about the node and the nodes before it. -/
structure NodeFault (earlier : List Node) (n : Node) (e : EmissionError) : Prop where
  redefined : ∀ r, e.reason = .redefinition r →
    ¬ (n.outputs.Nodup ∧ ∀ x ∈ n.outputs, x ∉ earlier.flatMap (·.outputs))
  index_used : ∀ r, e.reason = .rejected r → n.index ∈ earlier.map (·.index)
  unproduced : ∀ m, e.reason = .missingProducer m →
    m.tensor ∈ n.inputs ∧ m.tensor ∉ (earlier ++ [n]).flatMap (·.outputs)
  not_inOutputs : ∀ e', e ≠ .inOutputs e'

theorem NodeFault.of_isLocal {earlier : List Node} {n : Node} {e : EmissionError}
    (h : e.isLocal = true) : NodeFault earlier n e := by
  have hlocal : OfStatements (fun _ => False) n e := .of_isLocal h
  have hmissing := (EmissionError.reason_of_isLocal e h).2.2
  exact ⟨fun r hr => absurd hr (hlocal.not_redefinition r),
    fun r hr => absurd hr (hlocal.not_rejected r), fun m hm => absurd hm (hmissing m),
    hlocal.not_inOutputs⟩

theorem NodeFault.of_statements {earlier : List Node} {n : Node} {e : EmissionError}
    (h : OfStatements (SymbolTable.ofNodes (earlier ++ [n])).Has n e) : NodeFault earlier n e := by
  refine ⟨fun r hr => absurd hr (h.not_redefinition r), fun r hr => absurd hr (h.not_rejected r),
    ?_, h.not_inOutputs⟩
  have hunproduced := h.unproduced
  rwa [SymbolTable.ofNodes_has] at hunproduced

theorem emit_fails (o : Options) (earlier : List Node) (n : Node) :
    FailsOnly (EmissionState.emit ⟨.ofNodes earlier, inputCount earlier⟩ o.table o.policy n)
      (Halt.Tells (NodeFault earlier n)) := by
  have hspec := (SymbolTable.ofNodes earlier).defineOutputs_eq_ok
  unfold EmissionState.emit
  cases hd : (SymbolTable.ofNodes earlier).defineOutputs n.index n.outputs with
  | mk u named =>
    cases named with
    | error r =>
      refine .error ⟨fun _ _ hall => ?_, by simp [EmissionError.reason], by simp [EmissionError.reason],
        by simp⟩
      have hfresh := (SymbolTable.fresh_ofNodes earlier n.outputs).mpr hall
      have hok := (hspec _ n.index n.outputs _).mpr ⟨hfresh, rfl, rfl⟩
      rw [hd] at hok
      cases hok
    | ok names =>
      obtain ⟨-, hu, -⟩ := (hspec u n.index n.outputs names).mp hd
      have htable : u = .ofNodes (earlier ++ [n]) :=
        hu.trans (SymbolTable.ofNodes_append earlier n).symm
      subst htable
      refine FailsOnly.bind (.ok _) fun _ _ => ?_
      refine FailsOnly.bind (.mapError fun _ _ => NodeFault.of_isLocal rfl) fun targets _ => ?_
      refine FailsOnly.bind ?_ fun _ _ => .ok _
      refine (Emission.ofNode_fails (.ofNodes (earlier ++ [n])) n o.table o.policy
        (inputCount earlier) targets).mono fun h hh => ?_
      exact hh.mono fun _ => NodeFault.of_statements

theorem add_fails (m : Module Assignment) (init : Option (Statement Assignment))
    (use : Statement Assignment) :
    FailsOnly (m.add init (some use)) fun _ => use.index ∈ m.forwards.map (·.index) := by
  intro e he
  cases Decidable.em (use.index ∈ m.forwards.map (·.index)) with
  | inl h => exact h
  | inr h =>
    obtain ⟨b, hb⟩ := (add_yields m init use).exists_iff.mpr h
    rw [he] at hb
    cases hb

theorem step_fails (o : Options) (g : Graph) (earlier : List Node) (n : Node) :
    FailsOnly ((Progress.after o g earlier).step o n) (Halt.Tells (NodeFault earlier n)) := by
  refine (emit_fails o earlier n).bind fun r hr => ?_
  obtain rfl := (emit_yields o earlier n).value hr
  have hindices : (Progress.after o g earlier).body.forwards.map (·.index) =
      earlier.map (·.index) := by
    rw [← emissions_use_index o [] earlier]
    simp only [Progress.after, List.map_map]
    rfl
  have huse : (emission o earlier n).use.index = n.index := (Emission.form_use_node ..).2.1
  have hadd := add_fails (Progress.after o g earlier).body (emission o earlier n).init
    (emission o earlier n).use
  rw [hindices, huse] at hadd
  refine FailsOnly.bind (.mapError (hadd.mono fun r hused => ?_)) fun _ _ => .ok _
  show NodeFault earlier n (.rejected r)
  exact ⟨by simp [EmissionError.reason], fun _ _ => hused, by simp [EmissionError.reason], by simp⟩

/-- An error of a pass over further nodes is one at some node, after the nodes before it. -/
theorem run_fails (o : Options) (g : Graph) (earlier nodes : List Node) :
    FailsOnly ((Progress.after o g earlier).run o nodes).2 (Halt.Tells fun e =>
      ∃ k n, nodes[k]? = some n ∧ NodeFault (earlier ++ nodes.take k) n e) := by
  induction nodes generalizing earlier with
  | nil => exact .ok _
  | cons n rest ih =>
    rw [Progress.run_cons]
    refine ((step_fails o g earlier n).mono fun h hh => hh.mono fun e he => ?_).bind fun r hr => ?_
    · exact ⟨0, n, rfl, by simpa using he⟩
    · obtain rfl := (step_yields o g earlier n).value hr
      refine (ih (earlier ++ [n])).mono fun h hh => hh.mono fun e he => ?_
      obtain ⟨k, n', hk, hfault⟩ := he
      exact ⟨k + 1, n', by simpa using hk, by simpa using hfault⟩

/-! ### A whole pass -/

/-- An error of a pass after its last node: there are no terminal tensors, or one has no producer. -/
def TerminalFault (g : Graph) (e : EmissionError) : Prop :=
  e.isLocal = true ∨
    ∃ m, e = .inOutputs (.missingProducer m) ∧ m.tensor ∈ g.outputs ∧
      m.tensor ∉ g.nodes.flatMap (·.outputs)

theorem terminals_fails (t : SymbolTable) (xs : List String) :
    FailsOnly (terminals t xs) fun e =>
      ∃ m, e = .inOutputs (.missingProducer m) ∧ m.tensor ∈ xs ∧ ¬ t.Has m.tensor := by
  induction xs with
  | nil => exact .ok _
  | cons x rest ih =>
    refine FailsOnly.bind (.mapError ?_) fun _ _ => ?_
    · intro m hm
      unfold SymbolTable.lookup at hm
      split at hm
      · cases hm
      · next hx =>
        cases hm
        exact ⟨_, rfl, List.mem_cons_self .., (t.resolve?_eq_none x).mp hx⟩
    · refine FailsOnly.bind (ih.mono fun e he => ?_) fun _ _ => .ok _
      obtain ⟨m, rfl, hm, ht⟩ := he
      exact ⟨m, rfl, List.mem_cons_of_mem _ hm, ht⟩

theorem finish_fails (o : Options) (g : Graph) :
    FailsOnly ((Progress.after o g g.nodes).finish g) (TerminalFault g) := by
  refine FailsOnly.bind (.mapError fun _ _ => .inl rfl) fun outputs houtputs => ?_
  have hne := (Emission.nonEmpty_yields g.outputs "terminal outputs" "").mapError
    EmissionError.emptySequence
  obtain rfl := hne.value houtputs
  refine FailsOnly.bind ?_ fun _ _ => .ok _
  refine (terminals_fails (.ofNodes g.nodes) g.outputs).mono fun e he => .inr ?_
  rwa [SymbolTable.ofNodes_has] at he

/-- An error of a pass is one at a node or one about the terminal tensors. -/
theorem build_fails (o : Options) (g : Graph) :
    FailsOnly (build o g) (Halt.Tells fun e =>
      (∃ k n, g.nodes[k]? = some n ∧ NodeFault (g.nodes.take k) n e) ∨ TerminalFault g e) := by
  have hrun := run_fails o g [] g.nodes
  refine FailsOnly.bind (x := ((Progress.after o g []).run o g.nodes).2)
    (f := fun p => (p.finish g).mapError .error)
    (hrun.mono fun h hh => hh.mono fun e he => .inl ?_) fun p hp => ?_
  · simpa using he
  · have hvalue := (run_yields o g [] g.nodes).value hp
    rw [List.nil_append] at hvalue
    rw [hvalue]
    exact ((finish_fails o g).mono fun _ => .inr).tells

/-- Nodes with distinct outputs and distinct indices are never the reason that a pass fails for a
second definition or a second index. -/
theorem build_error_of_nodup (o : Options) (g : Graph) (e : EmissionError)
    (hindices : (g.nodes.map (·.index)).Nodup) (houtputs : (g.nodes.flatMap (·.outputs)).Nodup)
    (h : build o g = .error (.error e)) :
    (∀ r, e.reason ≠ .redefinition r) ∧ ∀ r, e.reason ≠ .rejected r := by
  rcases build_fails o g (.error e) h with ⟨k, n, hk, hfault⟩ | hlocal | ⟨m, rfl, -, -⟩
  · refine ⟨fun r hr => ?_, fun r hr => ?_⟩
    · exact hfault.redefined r hr ((outputs_nodup_iff g.nodes).mp houtputs k n hk)
    · exact (indices_nodup_iff g.nodes).mp hindices k n hk (hfault.index_used r hr)
  · obtain ⟨hredefinition, hrejected, -⟩ := EmissionError.reason_of_isLocal e hlocal
    exact ⟨hredefinition, hrejected⟩
  · simp [EmissionError.reason]

end Generation

end Netscribe
