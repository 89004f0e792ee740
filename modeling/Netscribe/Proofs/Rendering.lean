import Netscribe.Proofs.Outcome
import Netscribe.Proofs.SymbolTable
import Netscribe.Rendering

/-!
# What rendering accepts, and which symbols it reads

A value is rendered exactly when no container stands inside a container. `rendered` and `keywords`
are the results, as functions without failure; the symbols they read are those of the tensors that
the values mention, as far as these are defined.
-/

namespace Netscribe

namespace Value

def isContainer : Value → Bool
  | tuple _ => true
  | list _ => true
  | _ => false

def items : Value → List Value
  | tuple items => items
  | list items => items
  | _ => []

def Flat (v : Value) : Prop := ∀ w ∈ v.items, w.isContainer = false

instance (v : Value) : Decidable v.Flat :=
  inferInstanceAs (Decidable (∀ w ∈ v.items, w.isContainer = false))

theorem tensorsAll_eq_flatMap (vs : List Value) : tensorsAll vs = vs.flatMap tensors := by
  induction vs with
  | nil => rfl
  | cons v rest ih => simp only [tensorsAll, List.flatMap_cons, ih]

end Value

namespace Operator

def values (op : Operator) (names : List String) : List Value := names.filterMap op.attribute?

def definedAmong (op : Operator) (names : List String) : List String :=
  names.filter fun name => (op.attribute? name).isSome

end Operator

namespace SymbolTable

def atom (t : SymbolTable) (v : Value) : Atom := (t.atom? v).getD default

/-- A value rendered against the table, if containers hold scalars only. -/
def rendered (t : SymbolTable) : Value → Rendered
  | .tuple items => .tuple (items.map t.atom)
  | .list items => .list (items.map t.atom)
  | v => .atom (t.atom v)

def keywords (t : SymbolTable) (op : Operator) (names : List String) : List Keyword :=
  names.filterMap fun name => (op.attribute? name).map fun v => ⟨name, t.rendered v⟩

/-! ### Acceptance -/

theorem atom?_of_scalar (t : SymbolTable) (v : Value) (h : v.isContainer = false) :
    t.atom? v = some (t.atom v) := by
  cases v with
  | tensor name => cases hr : t.resolve? name <;> simp [atom, atom?, hr]
  | tuple items => exact absurd h Bool.noConfusion
  | list items => exact absurd h Bool.noConfusion
  | _ => rfl

theorem atom?_of_container (t : SymbolTable) (v : Value) (h : v.isContainer = true) :
    t.atom? v = none := by
  cases v with
  | tuple items => rfl
  | list items => rfl
  | _ => exact absurd h Bool.false_ne_true

theorem atoms_yields (t : SymbolTable) (c : Container) (i : Nat) (vs : List Value) :
    Yields (t.atoms c i vs) (∀ v ∈ vs, v.isContainer = false) (vs.map t.atom) := by
  induction vs generalizing i with
  | nil => exact (Yields.ok _).congr (by simp) fun _ => rfl
  | cons v rest ih =>
    cases hv : v.isContainer with
    | true =>
      simp only [atoms, atom?_of_container t v hv]
      refine Yields.error _ fun h => ?_
      rw [h v (List.mem_cons_self ..)] at hv
      cases hv
    | false =>
      have hstep : t.atoms c i (v :: rest) = (t.atoms c (i + 1) rest).map (t.atom v :: ·) := by
        simp only [atoms, atom?_of_scalar t v hv]
        cases t.atoms c (i + 1) rest <;> rfl
      rw [hstep]
      exact ((ih (i + 1)).map _).congr (by rw [List.forall_mem_cons]; simp only [hv, true_and])
        fun _ => rfl

theorem infer_yields (t : SymbolTable) (v : Value) : Yields (t.infer v) v.Flat (t.rendered v) := by
  have hscalar : ∀ v : Value, v.items = [] → v.Flat := by
    intro v h w hw
    rw [h] at hw
    cases hw
  cases v with
  | tuple items => exact (t.atoms_yields .tuple 0 items).map _
  | list items => exact (t.atoms_yields .list 0 items).map _
  | _ => exact (Yields.ok _).congr (iff_of_true trivial (hscalar _ rfl)) fun _ => rfl

theorem collect_yields (t : SymbolTable) (op : Operator) (names : List String) :
    Yields (t.collect op names) (∀ v ∈ op.values names, v.Flat) (t.keywords op names) := by
  induction names with
  | nil => exact (Yields.ok _).congr (by simp [Operator.values]) fun _ => rfl
  | cons name rest ih =>
    cases ha : op.attribute? name with
    | none =>
      simp only [collect, ha, Operator.values, keywords, List.filterMap_cons, Option.map_none]
      exact ih
    | some v =>
      have hstep : t.collect op (name :: rest) =
          ((t.infer v).mapError (Prod.mk name)).bind fun r =>
            (t.collect op rest).map (⟨name, r⟩ :: ·) := by
        simp only [collect, ha]
        cases t.infer v with
        | error e => rfl
        | ok r => cases t.collect op rest <;> rfl
      rw [hstep]
      have h := ((t.infer_yields v).mapError (Prod.mk name)).bind
        (f := fun r => (t.collect op rest).map (⟨name, r⟩ :: ·)) fun _ => ih.map _
      refine h.congr ?_ fun _ => ?_
      · simp only [Operator.values, List.filterMap_cons, ha, List.forall_mem_cons]
      · simp only [keywords, List.filterMap_cons, ha, Option.map_some]

/-! ### Names and symbols -/

theorem keywords_names (t : SymbolTable) (op : Operator) (names : List String) :
    (t.keywords op names).map (·.name) = op.definedAmong names := by
  induction names with
  | nil => rfl
  | cons name rest ih =>
    simp only [keywords, Operator.definedAmong] at ih ⊢
    cases ha : op.attribute? name with
    | none => simp [ha, ih]
    | some v => simp [ha, ih]

theorem atom_symbols (t : SymbolTable) (v : Value) (h : v.isContainer = false) :
    (t.atom v).symbols = t.symbolsOf v.tensors := by
  cases v with
  | tensor name =>
    by_cases hx : t.Has name
    · have ha : t.atom (.tensor name) = .symbol (t.symbol name) := by
        simp only [atom, atom?, resolve?_of_has t name hx, Option.getD_some]
        rfl
      have hs : t.symbolsOf [name] = [t.symbol name] := by simp [symbolsOf, hx]
      rw [ha, Value.tensors, hs]
      rfl
    · have ha : t.atom (.tensor name) = .text name := by
        simp only [atom, atom?, (resolve?_eq_none t name).mpr hx, Option.getD_some]
      have hs : t.symbolsOf [name] = [] := by simp [symbolsOf, hx]
      rw [ha, Value.tensors, hs]
      rfl
  | tuple items => exact absurd h Bool.noConfusion
  | list items => exact absurd h Bool.noConfusion
  | _ => rfl

theorem atoms_symbols (t : SymbolTable) (vs : List Value)
    (h : ∀ v ∈ vs, v.isContainer = false) :
    (vs.map t.atom).flatMap Atom.symbols = t.symbolsOf (vs.flatMap Value.tensors) := by
  induction vs with
  | nil => rfl
  | cons v rest ih =>
    have hv := h v (List.mem_cons_self ..)
    have hrest := ih fun w hw => h w (List.mem_cons_of_mem _ hw)
    rw [List.map_cons, List.flatMap_cons, List.flatMap_cons, symbolsOf_append,
      atom_symbols t v hv, hrest]

theorem rendered_symbols (t : SymbolTable) (v : Value) (h : v.Flat) :
    (t.rendered v).symbols = t.symbolsOf v.tensors := by
  cases v with
  | tuple items =>
    simp only [rendered, Rendered.symbols, Value.tensors, Value.tensorsAll_eq_flatMap]
    exact atoms_symbols t items h
  | list items =>
    simp only [rendered, Rendered.symbols, Value.tensors, Value.tensorsAll_eq_flatMap]
    exact atoms_symbols t items h
  | tensor name => exact atom_symbols t (.tensor name) rfl
  | _ => rfl

theorem keywords_symbols (t : SymbolTable) (op : Operator) (names : List String)
    (h : ∀ v ∈ op.values names, v.Flat) :
    (t.keywords op names).flatMap (·.value.symbols) =
      t.symbolsOf ((op.values names).flatMap Value.tensors) := by
  induction names with
  | nil => rfl
  | cons name rest ih =>
    simp only [Operator.values, keywords, List.filterMap_cons] at h ih ⊢
    cases ha : op.attribute? name with
    | none =>
      simp only [ha, Option.map_none] at h ⊢
      exact ih h
    | some v =>
      simp only [ha, Option.map_some, List.forall_mem_cons] at h ⊢
      rw [List.flatMap_cons, List.flatMap_cons, symbolsOf_append, rendered_symbols t v h.1, ih h.2]

end SymbolTable

end Netscribe
