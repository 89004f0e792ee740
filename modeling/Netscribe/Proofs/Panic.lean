import Netscribe.Proofs.Generation

/-!
# When a pass panics

The only step of a pass that can panic writes what stands for the dimensions before that of a slice.
`Panics` says when a computation panics and goes through the ways in which computations are put
together, as `Yields` does for success. Everything that is checked before the text is written comes
first: a pass panics exactly at an `Oversized` node that no error forestalls.
-/

namespace Netscribe

/-- The computation panics for a text that would be too long, exactly if `P` holds. -/
def Panics {α : Type} (x : Except Halt α) (P : Prop) : Prop :=
  ∀ message, x = .error (.panic message) ↔ P ∧ message = Override.overflow

namespace Panics

variable {α β : Type} {x : Except Halt α} {P Q R : Prop} {a : α}

theorem ok (a : α) : Panics (.ok a) False := by
  intro message
  simp

theorem error (e : EmissionError) : Panics (.error (.error e) : Except Halt α) False := by
  intro message
  simp

theorem panic : Panics (.error (.panic Override.overflow) : Except Halt α) True := by
  intro message
  simp [eq_comm]

theorem congr (h : Panics x P) (hPQ : P ↔ Q) : Panics x Q := by
  intro message
  rw [h message, hPQ]

/-- A computation all of whose failures are errors does not panic. -/
theorem mapError {ε : Type} (x : Except ε α) {f : ε → Halt} (hf : ∀ e, ∃ e', f e = .error e') :
    Panics (x.mapError f) False := by
  cases x with
  | error e =>
    obtain ⟨e', he⟩ := hf e
    change Panics (Except.error (f e)) False
    rw [he]
    exact error e'
  | ok a => exact ok a

theorem inNode (h : Panics x P) (node : String) : Panics (x.mapError (.inNode node)) P := by
  intro message
  rw [← h message]
  cases x with
  | ok a =>
    change (Except.ok a : Except Halt α) = .error (.panic message) ↔ _
    simp
  | error e =>
    change (Except.error (e.inNode node) : Except Halt α) = .error (.panic message) ↔ _
    cases e <;> simp [Halt.inNode]

/-- A second step panics only after a success of the first one. -/
theorem bind {f : α → Except Halt β} (h : Panics x P) (hx : Yields x Q a) (hf : Panics (f a) R) :
    Panics (x >>= f) (P ∨ Q ∧ R) := by
  intro message
  cases x with
  | error e =>
    have hQ : ¬ Q := fun hQ => by cases (hx a).mpr ⟨hQ, rfl⟩
    have hsame : (Except.error e : Except Halt α) >>= f = .error e := rfl
    have he := h message
    rw [Except.error.injEq] at he
    rw [hsame, Except.error.injEq, he]
    simp [hQ]
  | ok b =>
    obtain ⟨hQ, rfl⟩ := (hx b).mp rfl
    have hP : ¬ P := fun hP => by cases (h Override.overflow).mpr ⟨hP, rfl⟩
    have hsame : (Except.ok b : Except Halt α) >>= f = f b := rfl
    rw [hsame, hf message]
    simp [hP, hQ]

/-- A first step that gives no panic leaves it to the second one. -/
theorem bind_second {f : α → Except Halt β} (h : Panics x False) (hx : Yields x Q a)
    (hf : Panics (f a) R) : Panics (x >>= f) (Q ∧ R) :=
  (h.bind hx hf).congr (by simp)

/-- A second step that gives no panic leaves the first one its own. -/
theorem bind_first {f : α → Except Halt β} (h : Panics x P) (hf : ∀ a, Panics (f a) False) :
    Panics (x >>= f) P := by
  intro message
  rw [← h message]
  cases x with
  | error e =>
    have hsame : (Except.error e : Except Halt α) >>= f = .error e := rfl
    rw [hsame, Except.error.injEq, Except.error.injEq]
  | ok b =>
    have hnever := hf b message
    rw [false_and] at hnever
    exact iff_of_false hnever.mp (by simp)

end Panics

/-! ### A node -/

/-- The node is a slice that is fine in all respects, but has too many dimensions before its own. -/
structure Node.Oversized (n : Node) (defined : String → Prop) : Prop where
  is_slice : n.override? = some .slice
  sliceable : Override.Sliceable defined n
  too_large : Override.dimLimit ≤ Override.dimension n

theorem Override.slice_panics (t : SymbolTable) (count : Nat) (n : Node) :
    Panics (slice.rhs t count n) (Sliceable t.Has n ∧ dimLimit ≤ dimension n) := by
  have hparts := (sliceParts_yields t n).mapError Halt.error
  have hrhs : Panics (sliceForm t n).rhs (dimLimit ≤ dimension n) := by
    by_cases hlt : dimension n < dimLimit
    · rw [sliceForm_rhs_of_lt t count n hlt]
      exact (Panics.ok _).congr (iff_of_false not_false (Nat.not_le.mpr hlt))
    · rw [sliceForm_rhs_of_le t n (Nat.not_lt.mp hlt)]
      exact Panics.panic.congr (iff_of_true trivial (Nat.not_lt.mp hlt))
  exact (Panics.mapError (sliceParts t n) fun _ => ⟨_, rfl⟩).bind_second hparts hrhs

theorem Override.rhs_panics (t : SymbolTable) (count : Nat) (n : Node) (o : Override) :
    Panics (o.rhs t count n) (o = .slice ∧ Sliceable t.Has n ∧ dimLimit ≤ dimension n) := by
  cases o with
  | slice => exact (slice_panics t count n).congr (by simp)
  | _ => exact (Panics.mapError _ fun _ => ⟨_, rfl⟩).congr (by simp)

theorem Emission.ofNode_panics (table : OperatorTable) (p : Policy) (t : SymbolTable) (count : Nat)
    (n : Node) (targets : List String) :
    Panics (ofNode table p t count n targets) (n.Oversized t.Has) := by
  cases ho : n.override? with
  | none =>
    rw [ofNode_classified table p t count n targets ho]
    refine (Panics.mapError _ fun _ => ⟨_, rfl⟩).congr (iff_of_false not_false fun h => ?_)
    cases ho.symm.trans h.is_slice
  | some o =>
    rw [ofNode_override table p t count n targets o ho]
    refine (((o.rhs_panics t count n).inNode n.name).bind_first fun _ => Panics.ok _).congr ?_
    constructor
    · intro hall
      obtain ⟨rfl, hsliceable, hlarge⟩ := hall
      exact ⟨ho, hsliceable, hlarge⟩
    · intro h
      exact ⟨Option.some.inj (ho.symm.trans h.is_slice), h.sliceable, h.too_large⟩

namespace Generation

/-- A pass panics at the node that comes after the given ones: its outputs are named, and it is
oversized. Whether its index is new does not matter. -/
structure PanicsAt (earlier : List Node) (n : Node) : Prop where
  outputs_ne_nil : n.outputs ≠ []
  outputs_nodup : n.outputs.Nodup
  outputs_new : ∀ x ∈ n.outputs, x ∉ earlier.flatMap (·.outputs)
  oversized : n.Oversized (· ∈ (earlier ++ [n]).flatMap (·.outputs))

theorem emit_panics (o : Options) (earlier : List Node) (n : Node) :
    Panics (EmissionState.emit ⟨.ofNodes earlier, inputCount earlier⟩ o.table o.policy n)
      (PanicsAt earlier n) := by
  have hspec := (SymbolTable.ofNodes earlier).defineOutputs_eq_ok
  have hfresh := SymbolTable.fresh_ofNodes earlier n.outputs
  unfold EmissionState.emit
  cases hd : (SymbolTable.ofNodes earlier).defineOutputs n.index n.outputs with
  | mk u named =>
    cases named with
    | error r =>
      refine (Panics.error _).congr (iff_of_false not_false fun h => ?_)
      have hok := (hspec _ n.index n.outputs _).mpr
        ⟨hfresh.mpr ⟨h.outputs_nodup, h.outputs_new⟩, rfl, rfl⟩
      rw [hd] at hok
      cases hok
    | ok names =>
      obtain ⟨hnew, hu, hnames⟩ := (hspec u n.index n.outputs names).mp hd
      obtain ⟨hnodup, hnew⟩ := hfresh.mp hnew
      obtain rfl : u = .ofNodes (earlier ++ [n]) :=
        hu.trans (SymbolTable.ofNodes_append earlier n).symm
      obtain rfl : names = n.outputNames := hnames
      have hne := (Emission.nonEmpty_yields n.outputNames "outputs" n.name).mapError
        fun e => Halt.error (.emptySequence e)
      have hemit := (Emission.ofNode_panics o.table o.policy (.ofNodes (earlier ++ [n]))
        (inputCount earlier) n n.outputNames).bind_first
        (f := fun e => pure ((⟨.ofNodes (earlier ++ [n]),
          if Override.ofType? n.op.type = some .input then inputCount earlier + 1
          else inputCount earlier⟩ : EmissionState), e))
        fun _ => Panics.ok _
      rw [SymbolTable.ofNodes_has] at hemit
      refine ((Panics.mapError _ fun _ => ⟨_, rfl⟩).bind_second hne hemit).congr ?_
      constructor
      · intro hall
        obtain ⟨hn, hover⟩ := hall
        exact ⟨n.outputNames_ne_nil.mp hn, hnodup, hnew, hover⟩
      · intro h
        exact ⟨n.outputNames_ne_nil.mpr h.outputs_ne_nil, h.oversized⟩

theorem step_panics (o : Options) (g : Graph) (earlier : List Node) (n : Node) :
    Panics ((Progress.after o g earlier).step o n) (PanicsAt earlier n) := by
  refine (emit_panics o earlier n).bind_first fun r => ?_
  exact (Panics.mapError _ fun _ => ⟨_, rfl⟩).bind_first fun _ => Panics.ok _

/-! ### A whole pass -/

/-- A pass over further nodes panics exactly if it comes to a node at which it panics. -/
theorem run_panics (o : Options) (g : Graph) (earlier nodes : List Node) :
    Panics ((Progress.after o g earlier).run o nodes).2
      (∃ k n, nodes[k]? = some n ∧ AdmitsAll o earlier (nodes.take k) ∧
        PanicsAt (earlier ++ nodes.take k) n) := by
  induction nodes generalizing earlier with
  | nil => exact (Panics.ok _).congr (by simp)
  | cons n rest ih =>
    rw [Progress.run_cons]
    refine ((step_panics o g earlier n).bind (step_yields o g earlier n) (ih (earlier ++ [n]))).congr ?_
    constructor
    · intro h
      rcases h with hnow | ⟨hadmits, k, n', hk, hall, hpanics⟩
      · exact ⟨0, n, rfl, trivial, by simpa using hnow⟩
      · exact ⟨k + 1, n', by simpa using hk, ⟨hadmits, hall⟩, by simpa using hpanics⟩
    · intro h
      obtain ⟨k, n', hk, hall, hpanics⟩ := h
      cases k with
      | zero =>
        obtain rfl : n = n' := by simpa using hk
        exact .inl (by simpa using hpanics)
      | succ k => exact .inr ⟨hall.1, k, n', by simpa using hk, hall.2, by simpa using hpanics⟩

/-- A pass panics exactly if all nodes before some node are admitted one after another, and it panics
at that node. -/
theorem build_panics (o : Options) (g : Graph) :
    Panics (build o g)
      (∃ k n, g.nodes[k]? = some n ∧ AdmitsAll o [] (g.nodes.take k) ∧
        PanicsAt (g.nodes.take k) n) := by
  have hrun := run_panics o g [] g.nodes
  simp only [List.nil_append] at hrun
  exact hrun.bind_first fun p => Panics.mapError (p.finish g) fun _ => ⟨_, rfl⟩

end Generation

end Netscribe
