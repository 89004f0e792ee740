import Netscribe.Emission.Override
import Netscribe.Proofs.Rendering

/-!
# What overridden operators accept and read

The conditions under which an overridden operator has a right-hand side are told apart by what they
are about: inputs that are defined, a first input, values that can be rendered, and settings of the
operator. `form` is the right-hand side under these conditions, and `reads` the tensors it mentions.
A slice needs a dimension below a limit in addition to what makes it `Sliceable`.
-/

namespace Netscribe.Override

def takesInputs : Override → Bool
  | input => false
  | const => false
  | _ => true

def needsInput : Override → Bool
  | identity => true
  | tupleUnpack => true
  | index => true
  | slice => true
  | _ => false

def constAttributes : List String := ["data", "dtype", "device"]

def boundAttributes : List String := ["start", "end", "step"]

/-- The value of a slice bound, if it is given and not none. -/
def bound? (n : Node) (name : String) : Option Value :=
  match n.op.attribute? name with
  | some .none => none
  | v => v

def values (n : Node) : Override → List Value
  | const => n.op.values constAttributes
  | index => n.op.values ["index"]
  | slice => boundAttributes.filterMap (bound? n)
  | _ => []

/-- The dimensions that a slice can have: two bytes are written for each dimension before, and the
longest texts have 2 ^ 63 - 1 bytes. -/
def dimLimit : Nat := 4611686018427387904

/-- The settings of a node are usable: the position of a graph input is an integer, an item has an
index, and the dimension of a slice is a natural number below the limit. -/
def Usable (n : Node) : Override → Prop
  | input => ∀ v, n.op.attribute? "index" = some v → ∃ i : Int, v = .int i
  | index => n.op.attribute? "index" ≠ none
  | slice => ∀ v, n.op.attribute? "dim" = some v → ∃ d : Nat, v = .int d ∧ d < dimLimit
  | _ => True

def NaturalDim (n : Node) : Prop := ∀ v, n.op.attribute? "dim" = some v → ∃ d : Nat, v = .int d

structure Accepts (defined : String → Prop) (n : Node) (o : Override) : Prop where
  inputs_defined : o.takesInputs = true → ∀ x ∈ n.inputs, defined x
  has_input : o.needsInput = true → n.inputs ≠ []
  values_flat : ∀ v ∈ o.values n, v.Flat
  usable : o.Usable n

/-- The conditions on a slice apart from the limit of its dimension. -/
structure Sliceable (defined : String → Prop) (n : Node) : Prop where
  inputs_defined : ∀ x ∈ n.inputs, defined x
  has_input : n.inputs ≠ []
  values_flat : ∀ v ∈ slice.values n, v.Flat
  natural_dim : NaturalDim n

/-! ### Right-hand sides without failure -/

def position (count : Nat) (n : Node) : Int :=
  match n.op.attribute? "index" with
  | some (.int i) => i
  | _ => count

def dimension (n : Node) : Nat :=
  match n.op.attribute? "dim" with
  | some (.int i) => i.toNat
  | _ => 0

/-- What is written for the dimensions before that of a slice. -/
def skipped (n : Node) : Copies ":," := (Copies.ofNat? (dimension n)).getD .zero

def first (t : SymbolTable) (n : Node) : Symbol := t.symbol (n.inputs.headD "")

def renderedBound (t : SymbolTable) (n : Node) (name : String) : Option Rendered :=
  (bound? n name).map t.rendered

def form (t : SymbolTable) (count : Nat) (n : Node) : Override → Rhs
  | input => .argument (position count n)
  | const => .call ⟨.named "torch.tensor", [], t.keywords n.op constAttributes⟩
  | identity => .symbol (first t n)
  | tupleUnpack => .symbol (first t n)
  | tuple => .tuple (n.inputs.map t.symbol)
  | list => .list (n.inputs.map t.symbol)
  | index => .item (first t n) (t.rendered ((n.op.attribute? "index").getD .unset))
  | slice => .slice (first t n) (skipped n) (renderedBound t n "start") (renderedBound t n "end")
      (renderedBound t n "step")

/-! ### Acceptance -/

theorem values_slice (n : Node) :
    slice.values n =
      (bound? n "start").toList ++ ((bound? n "end").toList ++ (bound? n "step").toList) := by
  simp only [values, boundAttributes, List.filterMap_cons, List.filterMap_nil]
  cases bound? n "start" <;> cases bound? n "end" <;> cases bound? n "step" <;> rfl

theorem inputPosition_yields (count : Nat) (n : Node) :
    Yields (inputPosition count n) (Usable n input) (position count n) := by
  unfold inputPosition position Usable
  cases ha : n.op.attribute? "index" with
  | none => exact (Yields.ok _).congr (by simp) fun _ => rfl
  | some v =>
    cases v with
    | int i => exact (Yields.ok _).congr (by simp) fun _ => rfl
    | _ => exact Yields.error _ (by simp)

theorem sliceDim_yields (n : Node) : Yields (sliceDim n) (NaturalDim n) (dimension n) := by
  unfold sliceDim dimension NaturalDim
  cases ha : n.op.attribute? "dim" with
  | none => exact (Yields.ok _).congr (by simp) fun _ => rfl
  | some v =>
    cases v with
    | int i =>
      by_cases hi : 0 ≤ i
      · simp only [if_pos hi]
        refine (Yields.ok _).congr (iff_of_true trivial ?_) fun _ => rfl
        intro v hv
        exact ⟨i.toNat, by rw [← Option.some.inj hv, Int.toNat_of_nonneg hi]⟩
      · simp only [if_neg hi]
        refine Yields.error _ fun h => ?_
        obtain ⟨d, hd⟩ := h _ rfl
        injection hd with hd
        omega
    | _ => exact Yields.error _ (by simp)

theorem usable_slice_iff (n : Node) :
    slice.Usable n ↔ NaturalDim n ∧ dimension n < dimLimit := by
  unfold Usable NaturalDim dimension
  cases ha : n.op.attribute? "dim" with
  | none => simp [dimLimit]
  | some v =>
    constructor
    · intro h
      obtain ⟨d, rfl, hd⟩ := h v rfl
      refine ⟨fun w hw => ⟨d, (Option.some.inj hw).symm⟩, ?_⟩
      simpa using hd
    · intro h w hw
      obtain rfl : v = w := Option.some.inj hw
      obtain ⟨d, rfl⟩ := h.1 v rfl
      exact ⟨d, rfl, by simpa using h.2⟩

/-- A bound that is none is open, every other value is rendered. -/
theorem sliceBound_of_ne_none (t : SymbolTable) (n : Node) (name : String) (v : Value)
    (ha : n.op.attribute? name = some v) (hv : v ≠ .none) :
    bound? n name = some v ∧ sliceBound t n name =
      ((t.infer v).map some).mapError fun e => EmissionError.ofAttribute (name, e) := by
  unfold bound? sliceBound
  rw [ha]
  cases v with
  | none => exact absurd rfl hv
  | _ =>
    refine ⟨rfl, ?_⟩
    dsimp only
    cases t.infer _ <;> rfl

theorem sliceBound_yields (t : SymbolTable) (n : Node) (name : String) :
    Yields (sliceBound t n name) (∀ v ∈ (bound? n name).toList, v.Flat)
      (renderedBound t n name) := by
  unfold renderedBound
  cases ha : n.op.attribute? name with
  | none =>
    unfold sliceBound bound?
    rw [ha]
    exact (Yields.ok _).congr (by simp) fun _ => rfl
  | some v =>
    by_cases hv : v = .none
    · subst hv
      unfold sliceBound bound?
      rw [ha]
      exact (Yields.ok _).congr (by simp) fun _ => rfl
    · obtain ⟨hbound, hslice⟩ := sliceBound_of_ne_none t n name v ha hv
      rw [hbound, hslice]
      have h := ((t.infer_yields v).map some).mapError fun e => EmissionError.ofAttribute (name, e)
      exact h.congr (by simp) fun _ => rfl

theorem receiver_yields (t : SymbolTable) (n : Node) :
    Yields (receiver t n) ((∀ x ∈ n.inputs, t.Has x) ∧ n.inputs ≠ []) (first t n) := by
  have hl := t.lookupInputs_yields n.name n.inputs
  unfold receiver first
  cases hi : t.lookupInputs n.name n.inputs with
  | error e =>
    refine Yields.error _ fun h => ?_
    have hok := (hl (n.inputs.map t.symbol)).mpr ⟨h.1, rfl⟩
    rw [hi] at hok
    cases hok
  | ok ss =>
    have hd := hl.holds hi
    obtain rfl := hl.value hi
    cases hn : n.inputs with
    | nil => exact Yields.error _ (by simp)
    | cons x rest =>
      rw [hn] at hd
      exact (Yields.ok _).congr (iff_of_true trivial ⟨hd, by simp⟩) fun _ => rfl

theorem accepts_iff (defined : String → Prop) (n : Node) (o : Override) :
    o.Accepts defined n ↔
      (o.takesInputs = true → ∀ x ∈ n.inputs, defined x) ∧
      (o.needsInput = true → n.inputs ≠ []) ∧ (∀ v ∈ o.values n, v.Flat) ∧ o.Usable n := by
  constructor
  · intro h
    exact ⟨h.inputs_defined, h.has_input, h.values_flat, h.usable⟩
  · intro hall
    obtain ⟨hd, hne, hf, hu⟩ := hall
    exact ⟨hd, hne, hf, hu⟩

theorem item_yields (t : SymbolTable) (count : Nat) (n : Node) :
    Yields (item t n) (index.Accepts t.Has n) (index.form t count n) := by
  cases ha : n.op.attribute? "index" with
  | none =>
    have hitem : item t n = receiver t n >>= fun _ => Except.error EmissionError.missingIndex := by
      simp only [item, ha]
    rw [hitem]
    have hrefused := (receiver_yields t n).bind (f := fun _ => .error EmissionError.missingIndex)
      fun _ => Yields.error (a := index.form t count n) _ not_false
    refine hrefused.congr ⟨fun h => h.2.elim, fun h => ?_⟩ fun _ => rfl
    exact absurd ha h.usable
  | some v =>
    have hitem : item t n = receiver t n >>= fun s =>
        ((t.infer v).mapError fun e => EmissionError.ofAttribute ("index", e)) >>= fun r =>
          pure (Rhs.item s r) := by
      simp only [item, ha]
    have hform : index.form t count n = .item (first t n) (t.rendered v) := by
      simp only [form, ha, Option.getD_some]
    have hv := (t.infer_yields v).mapError fun e => EmissionError.ofAttribute ("index", e)
    rw [hitem, hform]
    refine ((receiver_yields t n).bind fun _ => hv.bind_pure _).congr ?_ fun _ => rfl
    simp [accepts_iff, takesInputs, needsInput, values, Operator.values, Usable, ha, and_assoc]

def sliceForm (t : SymbolTable) (n : Node) : SliceParts :=
  ⟨first t n, dimension n, renderedBound t n "start", renderedBound t n "end", renderedBound t n "step"⟩

theorem sliceParts_yields (t : SymbolTable) (n : Node) :
    Yields (sliceParts t n) (Sliceable t.Has n) (sliceForm t n) := by
  have hstep := (sliceBound_yields t n "step").bind_pure
    (SliceParts.mk (first t n) (dimension n) (renderedBound t n "start") (renderedBound t n "end"))
  have hstop := (sliceBound_yields t n "end").bind
    (f := fun stop => do
      return SliceParts.mk (first t n) (dimension n) (renderedBound t n "start") stop
        (← sliceBound t n "step"))
    fun _ => hstep
  have hstart := (sliceBound_yields t n "start").bind
    (f := fun start => do
      let stop ← sliceBound t n "end"
      return SliceParts.mk (first t n) (dimension n) start stop (← sliceBound t n "step"))
    fun _ => hstop
  have hdim := (sliceDim_yields n).bind
    (f := fun dim => do
      let start ← sliceBound t n "start"
      let stop ← sliceBound t n "end"
      return SliceParts.mk (first t n) dim start stop (← sliceBound t n "step"))
    fun _ => hstart
  have hvalues : (∀ v ∈ slice.values n, v.Flat) ↔
      (∀ v ∈ (bound? n "start").toList, v.Flat) ∧
        (∀ v ∈ (bound? n "end").toList, v.Flat) ∧ ∀ v ∈ (bound? n "step").toList, v.Flat := by
    rw [values_slice, List.forall_mem_append, List.forall_mem_append]
  refine ((receiver_yields t n).bind fun _ => hdim).congr ⟨?_, ?_⟩ fun _ => rfl
  · intro hall
    obtain ⟨⟨hd, hne⟩, hu, hf⟩ := hall
    exact ⟨hd, hne, hvalues.mpr hf, hu⟩
  · intro h
    exact ⟨⟨h.inputs_defined, h.has_input⟩, h.natural_dim, hvalues.mp h.values_flat⟩

/-- The colons of a dimension are a text exactly below the limit. -/
theorem fits_iff (d : Nat) : ":,".utf8ByteSize * d ≤ maxTextSize ↔ d < dimLimit := by
  have hsize : ":,".utf8ByteSize = 2 := rfl
  rw [hsize]
  unfold maxTextSize dimLimit
  omega

theorem ofNat?_of_lt (n : Node) (h : dimension n < dimLimit) :
    Copies.ofNat? (dimension n) = some (skipped n) := by
  unfold skipped Copies.ofNat?
  rw [dif_pos ((fits_iff _).mpr h)]
  rfl

theorem ofNat?_of_le (n : Node) (h : dimLimit ≤ dimension n) :
    (Copies.ofNat? (dimension n) : Option (Copies ":,")) = none := by
  unfold Copies.ofNat?
  exact dif_neg fun hfits => Nat.not_lt.mpr h ((fits_iff _).mp hfits)

theorem accepts_slice_iff (defined : String → Prop) (n : Node) :
    slice.Accepts defined n ↔ Sliceable defined n ∧ dimension n < dimLimit := by
  rw [accepts_iff, usable_slice_iff]
  constructor
  · intro hall
    obtain ⟨hd, hne, hf, hnatural, hlt⟩ := hall
    exact ⟨⟨hd rfl, hne rfl, hf, hnatural⟩, hlt⟩
  · intro hall
    obtain ⟨h, hlt⟩ := hall
    exact ⟨fun _ => h.inputs_defined, fun _ => h.has_input, h.values_flat, h.natural_dim, hlt⟩

theorem sliceForm_rhs_of_lt (t : SymbolTable) (count : Nat) (n : Node) (h : dimension n < dimLimit) :
    (sliceForm t n).rhs = .ok (slice.form t count n) := by
  simp only [SliceParts.rhs, sliceForm, ofNat?_of_lt n h, form]

theorem sliceForm_rhs_of_le (t : SymbolTable) (n : Node) (h : dimLimit ≤ dimension n) :
    (sliceForm t n).rhs = .error (.panic overflow) := by
  simp only [SliceParts.rhs, sliceForm, ofNat?_of_le n h]

theorem slice_yields (t : SymbolTable) (count : Nat) (n : Node) :
    Yields (slice.rhs t count n) (slice.Accepts t.Has n) (slice.form t count n) := by
  have hrhs : Yields (sliceForm t n).rhs (dimension n < dimLimit) (slice.form t count n) := by
    by_cases hlt : dimension n < dimLimit
    · rw [sliceForm_rhs_of_lt t count n hlt]
      exact (Yields.ok _).congr (iff_of_true trivial hlt) fun _ => rfl
    · rw [sliceForm_rhs_of_le t n (Nat.not_lt.mp hlt)]
      exact Yields.error _ hlt
  exact (((sliceParts_yields t n).mapError Halt.error).bind fun _ => hrhs).congr
    (accepts_slice_iff t.Has n).symm fun _ => rfl

/-- An overridden operator has a right-hand side exactly if all conditions hold. -/
theorem rhs_yields (t : SymbolTable) (count : Nat) (n : Node) (o : Override) :
    Yields (o.rhs t count n) (o.Accepts t.Has n) (o.form t count n) := by
  have hinputs := (t.lookupInputs_yields n.name n.inputs).mapError EmissionError.missingProducer
  have hconst := (t.collect_yields n.op constAttributes).mapError EmissionError.ofAttribute
  cases o with
  | input =>
    refine (((inputPosition_yields count n).map Rhs.argument).mapError Halt.error).congr ?_
      fun _ => rfl
    simp [accepts_iff, takesInputs, needsInput, values]
  | const =>
    refine ((hconst.map fun ks => Rhs.call ⟨.named "torch.tensor", [], ks⟩).mapError
      Halt.error).congr ?_ fun _ => rfl
    simp [accepts_iff, takesInputs, needsInput, values, Usable]
  | identity =>
    refine (((receiver_yields t n).map Rhs.symbol).mapError Halt.error).congr ?_ fun _ => rfl
    simp [accepts_iff, takesInputs, needsInput, values, Usable]
  | tupleUnpack =>
    refine (((receiver_yields t n).map Rhs.symbol).mapError Halt.error).congr ?_ fun _ => rfl
    simp [accepts_iff, takesInputs, needsInput, values, Usable]
  | tuple =>
    refine ((hinputs.map Rhs.tuple).mapError Halt.error).congr ?_ fun _ => rfl
    simp [accepts_iff, takesInputs, needsInput, values, Usable]
  | list =>
    refine ((hinputs.map Rhs.list).mapError Halt.error).congr ?_ fun _ => rfl
    simp [accepts_iff, takesInputs, needsInput, values, Usable]
  | index => exact (item_yields t count n).mapError Halt.error
  | slice => exact slice_yields t count n

/-! ### Symbols -/

def usedInputs (n : Node) : Override → List String
  | input => []
  | const => []
  | identity => n.inputs.take 1
  | tupleUnpack => n.inputs.take 1
  | tuple => n.inputs
  | list => n.inputs
  | index => n.inputs.take 1
  | slice => n.inputs.take 1

def reads (n : Node) (o : Override) : List String :=
  o.usedInputs n ++ (o.values n).flatMap Value.tensors

theorem symbolsOf_take_one (t : SymbolTable) (n : Node) (hd : ∀ x ∈ n.inputs, t.Has x)
    (hne : n.inputs ≠ []) : t.symbolsOf (n.inputs.take 1) = [first t n] := by
  unfold first
  cases hn : n.inputs with
  | nil => exact absurd hn hne
  | cons x rest =>
    have hx : t.Has x := hd x (by rw [hn]; exact List.mem_cons_self ..)
    rw [List.take_succ_cons, List.take_zero, t.symbolsOf_eq_map [x] (by simpa using hx)]
    rfl

theorem renderedBound_symbols (t : SymbolTable) (n : Node) (name : String)
    (h : ∀ v ∈ (bound? n name).toList, v.Flat) :
    (renderedBound t n name).toList.flatMap Rendered.symbols =
      t.symbolsOf ((bound? n name).toList.flatMap Value.tensors) := by
  unfold renderedBound
  cases hb : bound? n name with
  | none => rfl
  | some v =>
    have hv : v.Flat := h v (by rw [hb]; simp)
    simpa using t.rendered_symbols v hv

/-- The right-hand side of an accepted node reads the symbols of `reads`, as far as they exist. -/
theorem form_symbols (t : SymbolTable) (count : Nat) (n : Node) (o : Override)
    (h : o.Accepts t.Has n) : (o.form t count n).symbols = t.symbolsOf (o.reads n) := by
  unfold reads
  rw [t.symbolsOf_append]
  cases o with
  | input => rfl
  | const =>
    have hk := t.keywords_symbols n.op constAttributes h.values_flat
    simpa [form, Rhs.symbols, Call.symbols, Callee.symbols, usedInputs, values,
      SymbolTable.symbolsOf] using hk
  | identity =>
    rw [usedInputs, symbolsOf_take_one t n (h.inputs_defined rfl) (h.has_input rfl)]
    rfl
  | tupleUnpack =>
    rw [usedInputs, symbolsOf_take_one t n (h.inputs_defined rfl) (h.has_input rfl)]
    rfl
  | tuple =>
    rw [usedInputs, t.symbolsOf_eq_map n.inputs (h.inputs_defined rfl)]
    exact (List.append_nil _).symm
  | list =>
    rw [usedInputs, t.symbolsOf_eq_map n.inputs (h.inputs_defined rfl)]
    exact (List.append_nil _).symm
  | index =>
    have hf := h.values_flat
    rw [usedInputs, symbolsOf_take_one t n (h.inputs_defined rfl) (h.has_input rfl)]
    cases ha : n.op.attribute? "index" with
    | none => exact absurd ha h.usable
    | some v =>
      have hvs : index.values n = [v] := by simp [values, Operator.values, ha]
      rw [hvs] at hf ⊢
      have hv := t.rendered_symbols v (hf v (List.mem_cons_self ..))
      simpa [form, Rhs.symbols, ha] using hv
  | slice =>
    have hf := h.values_flat
    rw [values_slice, List.forall_mem_append, List.forall_mem_append] at hf
    rw [usedInputs, symbolsOf_take_one t n (h.inputs_defined rfl) (h.has_input rfl), values_slice,
      List.flatMap_append, List.flatMap_append, t.symbolsOf_append, t.symbolsOf_append]
    simp only [form, Rhs.symbols, List.flatMap_append, List.append_assoc, List.singleton_append]
    rw [renderedBound_symbols t n "start" hf.1, renderedBound_symbols t n "end" hf.2.1,
      renderedBound_symbols t n "step" hf.2.2]

end Netscribe.Override
