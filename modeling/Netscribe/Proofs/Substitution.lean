import Netscribe.Proofs.Locality
import Netscribe.Proofs.SymbolRuns

/-!
# Rendering by substitution

What a symbol table does to a value can be done beforehand: the symbols of the defined tensors are put
into the value as source expressions, and the rest is rendered against the empty table. Whether
rendering fails, and where, is decided by the shape of the value alone.
-/

namespace Netscribe

/-- A text between the brackets of a container. -/
def Container.enclose : Container → String → String
  | tuple, s => "(" ++ s ++ ")"
  | list, s => "[" ++ s ++ "]"

namespace Value

def container? : Value → Option Container
  | tuple _ => some .tuple
  | list _ => some .list
  | _ => Option.none

mutual

/-- The value with a source expression in place of each defined tensor, at any depth. -/
def substitute (t : SymbolTable) : Value → Value
  | tensor name =>
    match t.resolve? name with
    | some symbol => expr symbol
    | Option.none => tensor name
  | tuple items => tuple (substituteAll t items)
  | list items => list (substituteAll t items)
  | v => v

def substituteAll (t : SymbolTable) : List Value → List Value
  | [] => []
  | v :: rest => substitute t v :: substituteAll t rest

end

variable (t : SymbolTable)

theorem substituteAll_eq_map (vs : List Value) : substituteAll t vs = vs.map (substitute t) := by
  induction vs with
  | nil => rfl
  | cons v rest ih => rw [substituteAll, ih, List.map_cons]

theorem container?_substitute (v : Value) : (v.substitute t).container? = v.container? := by
  cases v with
  | tensor name =>
    rw [substitute]
    split <;> rfl
  | _ => rfl

theorem isContainer_eq_isSome (v : Value) : v.isContainer = v.container?.isSome := by
  cases v <;> rfl

theorem isContainer_substitute (v : Value) : (v.substitute t).isContainer = v.isContainer := by
  rw [isContainer_eq_isSome, isContainer_eq_isSome, container?_substitute]

theorem items_substitute (v : Value) : (v.substitute t).items = v.items.map (substitute t) := by
  cases v with
  | tensor name =>
    rw [substitute]
    split <;> rfl
  | tuple items => exact substituteAll_eq_map t items
  | list items => exact substituteAll_eq_map t items
  | _ => rfl

theorem findIdx?_items_substitute (v : Value) :
    (v.substitute t).items.findIdx? isContainer = v.items.findIdx? isContainer := by
  rw [items_substitute, List.findIdx?_map]
  congr 1
  funext w
  exact isContainer_substitute t w

theorem flat_iff (v : Value) : v.Flat ↔ v.items.findIdx? isContainer = Option.none := by
  rw [List.findIdx?_eq_none_iff]
  rfl

end Value

namespace SymbolTable

variable (t : SymbolTable)

/-! ### Failures -/

theorem atoms_eq_error (c : Container) (i : Nat) (vs : List Value) (e : UnsupportedShape) :
    t.atoms c i vs = .error e ↔
      e.container = c ∧ ∃ k, vs.findIdx? Value.isContainer = some k ∧ e.index = i + k := by
  obtain ⟨container, index⟩ := e
  induction vs generalizing i with
  | nil => simp [atoms]
  | cons v rest ih =>
    cases hv : v.isContainer with
    | true => simp [atoms, atom?_of_container t v hv, List.findIdx?_cons, hv, eq_comm]
    | false =>
      have hstep : t.atoms c i (v :: rest) = .error ⟨container, index⟩ ↔
          t.atoms c (i + 1) rest = .error ⟨container, index⟩ := by
        simp only [atoms, atom?_of_scalar t v hv]
        cases t.atoms c (i + 1) rest <;> simp
      have hshift : ∀ k, i + 1 + k = i + (k + 1) := by omega
      rw [hstep, ih]
      simp only [List.findIdx?_cons, hv, Bool.false_eq_true, if_false, Option.map_eq_some_iff, hshift,
        exists_exists_and_eq_and]

theorem infer_eq_error (v : Value) (e : UnsupportedShape) :
    t.infer v = .error e ↔
      v.container? = some e.container ∧ v.items.findIdx? Value.isContainer = some e.index := by
  have hitems : ∀ c items, (t.atoms c 0 items = .error e ↔
      c = e.container ∧ items.findIdx? Value.isContainer = some e.index) := by
    intro c items
    rw [atoms_eq_error, eq_comm]
    simp only [Nat.zero_add, exists_eq_right']
  cases v with
  | tuple items =>
    have hmap : t.infer (.tuple items) = .error e ↔ t.atoms .tuple 0 items = .error e := by
      rw [infer]
      cases t.atoms .tuple 0 items <;> simp [Except.map]
    rw [hmap, hitems, Value.container?, Option.some.injEq, Value.items]
  | list items =>
    have hmap : t.infer (.list items) = .error e ↔ t.atoms .list 0 items = .error e := by
      rw [infer]
      cases t.atoms .list 0 items <;> simp [Except.map]
    rw [hmap, hitems, Value.container?, Option.some.injEq, Value.items]
  | _ => simp [infer, Value.container?]

theorem infer_eq_ok (v : Value) (h : v.Flat) : t.infer v = .ok (t.rendered v) :=
  (t.infer_yields v _).mpr ⟨h, rfl⟩

/-- Two tables render a value alike if they agree on its tensors. -/
theorem infer_congr {t t' : SymbolTable} (v : Value) (h : AgreeOn t t' v.tensors) :
    t.infer v = t'.infer v := by
  cases hv : t.infer v with
  | error e => exact ((infer_eq_error t' v e).mpr ((infer_eq_error t v e).mp hv)).symm
  | ok r =>
    obtain ⟨hflat, rfl⟩ := (t.infer_yields v r).mp hv
    rw [infer_eq_ok t' v hflat, rendered_congr v h]

/-! ### Texts -/

theorem rendered_of_scalar (v : Value) (h : v.isContainer = false) :
    t.rendered v = .atom (t.atom v) := by
  cases v with
  | tuple items => cases h
  | list items => cases h
  | _ => rfl

theorem atom_render_substitute (v : Value) :
    (empty.atom (v.substitute t)).render = (t.atom v).render := by
  cases v with
  | tensor name =>
    rw [Value.substitute]
    cases hr : t.resolve? name with
    | none =>
      simp only [atom, atom?, hr]
      rfl
    | some symbol =>
      simp only [atom, atom?, hr]
      rfl
  | _ => rfl

theorem rendered_text_substitute (v : Value) :
    (empty.rendered (v.substitute t)).text = (t.rendered v).text := by
  have hitems : ∀ vs : List Value, ((Value.substituteAll t vs).map empty.atom).map Atom.render =
      (vs.map t.atom).map Atom.render := by
    intro vs
    rw [Value.substituteAll_eq_map, List.map_map, List.map_map, List.map_map]
    exact List.map_congr_left fun v _ => t.atom_render_substitute v
  cases hv : v.isContainer with
  | true =>
    cases v with
    | tuple items => simp only [Value.substitute, rendered, Rendered.text, hitems]
    | list items => simp only [Value.substitute, rendered, Rendered.text, hitems]
    | _ => cases hv
  | false =>
    have hv' : (v.substitute t).isContainer = false := by rw [Value.isContainer_substitute, hv]
    rw [rendered_of_scalar t v hv, rendered_of_scalar empty _ hv']
    exact t.atom_render_substitute v

theorem infer_text_substitute (v : Value) :
    (t.infer v).map Rendered.text = (empty.infer (v.substitute t)).map Rendered.text := by
  cases hv : t.infer v with
  | error e =>
    have herror : empty.infer (v.substitute t) = .error e := by
      rw [infer_eq_error, Value.container?_substitute, Value.findIdx?_items_substitute]
      exact (infer_eq_error t v e).mp hv
    rw [herror]
  | ok r =>
    obtain ⟨hflat, rfl⟩ := (t.infer_yields v r).mp hv
    have hflat' : (v.substitute t).Flat := by
      rw [Value.flat_iff, Value.findIdx?_items_substitute, ← Value.flat_iff]
      exact hflat
    rw [infer_eq_ok empty _ hflat']
    exact congrArg Except.ok (t.rendered_text_substitute v).symm

theorem infer_text_of_scalar (v : Value) (h : v.isContainer = false) :
    (t.infer v).map Rendered.text = .ok (t.atom v).render := by
  cases v with
  | tuple items => cases h
  | list items => cases h
  | _ => rfl

theorem infer_text_of_container (v : Value) (c : Container) (hc : v.container? = some c)
    (h : v.Flat) :
    ∃ texts, List.Forall₂ (fun w s => (t.infer w).map Rendered.text = .ok s) v.items texts ∧
      (t.infer v).map Rendered.text = .ok (c.enclose (commaJoin texts)) := by
  refine ⟨v.items.map fun w => (t.atom w).render, ?_, ?_⟩
  · rw [List.forall₂_map_right_iff, List.forall₂_same]
    exact fun w hw => t.infer_text_of_scalar w (h w hw)
  · rw [infer_eq_ok t v h]
    cases v with
    | tuple items =>
      cases hc
      simp only [Except.map, rendered, Rendered.text, List.map_map, Container.enclose]
      rfl
    | list items =>
      cases hc
      simp only [Except.map, rendered, Rendered.text, List.map_map, Container.enclose]
      rfl
    | _ => cases hc

/-! ### Further definitions -/

theorem agreeOn_afterAll (ds : List Definition) (xs : List String)
    (h : ∀ d ∈ ds, ∀ b ∈ d.bindings, b.1 ∉ xs) : AgreeOn t (t.afterAll ds) xs := by
  intro x hx
  ext name
  rw [resolve?_afterAll]
  refine ⟨.inl, ?_⟩
  rintro (hname | ⟨earlier, d, later, rfl, before, b, rest, hsplit, rfl, -⟩)
  · exact hname
  · have hd : d ∈ earlier ++ d :: later := List.mem_append_right _ (List.mem_cons_self ..)
    have hb : (x, name) ∈ d.bindings := by
      rw [hsplit]
      exact List.mem_append_right _ (List.mem_cons_self ..)
    exact absurd hx (h d hd _ hb)

/-- Rendering fails exactly for a container in a container, at the first one, whatever the table. The
text under a table is that of the substituted value under the empty table, and no definition of other
tensors changes it. -/
theorem rendered_by_substitution (t : SymbolTable) (v : Value) :
    ((∃ e, t.infer v = .error e) ↔ ∃ w ∈ v.items, w.isContainer = true) ∧
      (∀ e, t.infer v = .error e ↔
        v.container? = some e.container ∧ v.items.findIdx? Value.isContainer = some e.index) ∧
      (t.infer v).map Rendered.text = (empty.infer (v.substitute t)).map Rendered.text ∧
      (∀ c, v.container? = some c → v.Flat →
        ∃ texts, List.Forall₂ (fun w s => (t.infer w).map Rendered.text = .ok s) v.items texts ∧
          (t.infer v).map Rendered.text = .ok (c.enclose (commaJoin texts))) ∧
      ∀ ds : List Definition, (∀ d ∈ ds, ∀ b ∈ d.bindings, b.1 ∉ v.tensors) →
        (t.afterAll ds).infer v = t.infer v := by
  refine ⟨?_, t.infer_eq_error v, t.infer_text_substitute v, t.infer_text_of_container v,
    fun ds h => (infer_congr v (t.agreeOn_afterAll ds v.tensors h)).symm⟩
  have hflat : (∃ r, t.infer v = .ok r) ↔ v.Flat := (t.infer_yields v).exists_iff
  have hsome : (∃ w ∈ v.items, w.isContainer = true) ↔ ¬ v.Flat := by
    simp [Value.Flat]
  rw [hsome, ← hflat]
  cases t.infer v <;> simp

def batchSize : SymbolTable := .ofList [("batch", "self.output_module_4")]

def shape : Value := .list [.tensor "batch", .int (-1), .tensor "width"]

def furtherDefinitions : List Definition := [.outputs 5 ["height", "batch_norm"], .single "depth" "width"]

theorem shape_rendered_by_substitution :
    (batchSize.infer shape).map Rendered.text = .ok "[self.output_module_4,-1,width]" ∧
      (∃ texts, List.Forall₂ (fun w s => (batchSize.infer w).map Rendered.text = .ok s) shape.items texts ∧
        (batchSize.infer shape).map Rendered.text = .ok (Container.list.enclose (commaJoin texts))) ∧
      (batchSize.afterAll furtherDefinitions).infer shape = batchSize.infer shape ∧
      ∃ e, batchSize.infer (.tuple [.none, shape, .tuple []]) = .error e ∧
        e.message = "unsupported attribute shape: container nested in tuple at index 1" := by
  obtain ⟨-, -, htext, hitems, hlater⟩ := rendered_by_substitution batchSize shape
  have hnested := (rendered_by_substitution batchSize (.tuple [.none, shape, .tuple []])).2.1
  refine ⟨htext.trans rfl, hitems .list rfl (by decide), hlater furtherDefinitions (by decide), ?_⟩
  exact ⟨⟨.tuple, 1⟩, (hnested _).mpr ⟨rfl, rfl⟩, rfl⟩

end SymbolTable

end Netscribe
