import Mathlib.Data.Finset.Dedup
import Mathlib.Data.Set.Card
import Netscribe.Proofs.SymbolTable

/-!
# Symbol tables over runs of definitions

A table is filled by calls that name one tensor or the outputs of a node, and any of them may fail. A
failed call keeps the tensors before the first clash. `resolve?_after` says what one call adds to the
names of a table, `resolve?_afterAll` what a run of calls adds: a tensor has the name from the one call
that came to it without a clash, and every later call leaves it.
-/

namespace Netscribe.SymbolTable

/-- A call that names tensors. -/
inductive Definition where
  | single (tensor name : String)
  | outputs (index : Int) (tensors : List String)

def Definition.bindings : Definition → List (String × String)
  | single tensor name => [(tensor, name)]
  | outputs index tensors => tensors.zip (Naming.outputNames index tensors.length)

/-- The table after a call, whether the call succeeds or fails. -/
def after (t : SymbolTable) : Definition → SymbolTable
  | .single tensor name =>
    match t.define tensor name with
    | .ok t' => t'
    | .error _ => t
  | .outputs index tensors => (t.defineOutputs index tensors).1

def afterAll (t : SymbolTable) (ds : List Definition) : SymbolTable := ds.foldl after t

/-- The call comes to the tensor without a clash, and gives it the name. -/
def Definition.Defines (d : Definition) (t : SymbolTable) (x name : String) : Prop :=
  ∃ before b rest, d.bindings = before ++ b :: rest ∧ b = (x, name) ∧ t.Fresh (before.map (·.1) ++ [x])

/-- A place in a list is its head, or a place in the tail with the head before it. -/
theorem exists_split_cons {α : Type} (a : α) (tail : List α) (P : List α → α → Prop) :
    (∃ before b rest, a :: tail = before ++ b :: rest ∧ P before b) ↔
      P [] a ∨ ∃ before b rest, tail = before ++ b :: rest ∧ P (a :: before) b := by
  constructor
  · intro hall
    obtain ⟨before, b, rest, hsplit, h⟩ := hall
    cases before with
    | nil =>
      cases hsplit
      exact .inl h
    | cons c before =>
      cases hsplit
      exact .inr ⟨before, b, rest, rfl, h⟩
  · rintro (h | ⟨before, b, rest, rfl, h⟩)
    · exact ⟨[], a, tail, rfl, h⟩
    · exact ⟨a :: before, b, rest, rfl, h⟩

/-- A place in a list is a place in the list with a name for each item, and the items before it have
the first names. -/
theorem exists_split_zip {α β : Type} (xs : List α) (names : List β) (h : names.length = xs.length)
    (P : List (α × β) → α → Prop) :
    (∃ before b rest, xs.zip names = before ++ b :: rest ∧ P before b.1) ↔
      ∃ before x rest, xs = before ++ x :: rest ∧ P (before.zip names) x := by
  induction xs generalizing names P with
  | nil => simp
  | cons x xs ih =>
    cases names with
    | nil => cases h
    | cons name names =>
      rw [List.zip_cons_cons, exists_split_cons, exists_split_cons]
      exact or_congr_right (ih names (Nat.succ.inj h) fun before y => P ((x, name) :: before) y)

variable (t t' : SymbolTable)

/-! ### Names and order -/

/-- The order lists the tensors that have a name, each once. -/
structure InStep (t : SymbolTable) : Prop where
  order_nodup : t.order.Nodup
  mem_order_iff : ∀ x, x ∈ t.order ↔ t.Has x

theorem empty_inStep : empty.InStep := ⟨List.nodup_nil, fun x => by simp [empty, Has, resolve?]⟩

variable {t} in
/-- A definition that succeeds writes the same tensor into both. -/
theorem InStep.define (h : t.InStep) (x name : String) (hx : t.define x name = .ok t') :
    t'.InStep := by
  obtain ⟨hnew, rfl⟩ := (define_eq_ok t t' x name).mp hx
  have horder : (t.extended [(x, name)]).order = t.order ++ [x] := rfl
  refine ⟨?_, fun y => ?_⟩
  · rw [horder, List.nodup_append]
    refine ⟨h.order_nodup, List.nodup_singleton x, fun y hy z hz hyz => hnew ?_⟩
    rw [← List.mem_singleton.mp hz, ← hyz]
    exact (h.mem_order_iff y).mp hy
  · rw [horder, has_extended, List.mem_append, h.mem_order_iff y]
    rfl

variable {t} in
/-- Definitions one after another keep both in step, also when one of them fails. -/
theorem InStep.defineAll (h : t.InStep) (bs : List (String × String)) : (t.defineAll bs).1.InStep := by
  induction bs generalizing t with
  | nil => exact h
  | cons b rest ih =>
    obtain ⟨x, name⟩ := b
    unfold SymbolTable.defineAll
    cases hd : t.define x name with
    | error e => exact h
    | ok u => exact ih (h.define u x name hd)

theorem resolve?_extended_one (x name y n : String) (hy : ¬ t.Has y) :
    (t.extended [(y, n)]).resolve? x = some name ↔
      t.resolve? x = some name ∨ (y, n) = (x, name) := by
  have hlookup : (t.extended [(y, n)]).resolve? x =
      (t.resolve? x).or (if x = y then some n else none) := by
    change (t.names x).or ([(y, n)].lookup x) = (t.names x).or _
    rw [List.lookup_cons, List.lookup_nil]
    by_cases hxy : x = y
    · simp [hxy]
    · simp [hxy, beq_eq_false_iff_ne.mpr hxy]
  rw [hlookup]
  by_cases hxy : x = y
  · subst hxy
    simp [(resolve?_eq_none t x).mpr hy]
  · simp [hxy, Ne.symm hxy]

/-! ### Definitions that fail -/

theorem define_eq_error (x name : String) (e : Redefinition) :
    t.define x name = .error e ↔ e.tensor = x ∧ t.resolve? x = some e.existing := by
  obtain ⟨tensor, existing⟩ := e
  cases hr : t.resolve? x with
  | none => simp [define, hr]
  | some other => simp [define, hr, eq_comm]

theorem defineAll_clash (x name : String) (rest : List (String × String)) (h : t.Has x) :
    t.defineAll ((x, name) :: rest) = (t, some ⟨x, (t.symbol x).name⟩) := by
  have hdefine := (define_eq_error t x name ⟨x, _⟩).mpr ⟨rfl, resolve?_of_has t x h⟩
  simp only [defineAll, hdefine]

theorem defineAll_new (x name : String) (rest : List (String × String)) (h : ¬ t.Has x) :
    t.defineAll ((x, name) :: rest) = (t.extended [(x, name)]).defineAll rest := by
  have hdefine := (define_eq_ok t _ x name).mpr ⟨h, rfl⟩
  simp only [defineAll, hdefine]

theorem not_fresh_of_mem (x : String) (xs : List String) (h : t.Has x) :
    ¬ t.Fresh (x :: xs) := fun hfresh => hfresh.2 x (List.mem_cons_self ..) h

theorem defineAll_eq_some (entries : List (String × String)) (e : Redefinition) :
    t.defineAll entries = (t', some e) ↔
      ∃ kept b rest, entries = kept ++ b :: rest ∧ b.1 = e.tensor ∧ t.Fresh (kept.map (·.1)) ∧
        t' = t.extended kept ∧ t'.resolve? e.tensor = some e.existing := by
  induction entries generalizing t with
  | nil => simp [defineAll]
  | cons b tail ih =>
    obtain ⟨x, name⟩ := b
    rw [exists_split_cons]
    by_cases hx : t.Has x
    · simp only [defineAll_clash t x name tail hx, List.map_cons, not_fresh_of_mem t x _ hx, false_and,
        and_false, exists_false, or_false, List.map_nil, fresh_nil, true_and, extended_nil,
        Prod.mk.injEq, Option.some.injEq]
      obtain ⟨tensor, existing⟩ := e
      rw [Redefinition.mk.injEq, eq_comm (a := t)]
      constructor
      · intro hall
        obtain ⟨rfl, rfl, rfl⟩ := hall
        exact ⟨rfl, rfl, resolve?_of_has _ x hx⟩
      · intro hall
        obtain ⟨rfl, rfl, hexisting⟩ := hall
        rw [resolve?_of_has _ x hx, Option.some.injEq] at hexisting
        exact ⟨rfl, rfl, hexisting⟩
    · have hfirst : t.resolve? x ≠ some e.existing := by simp [(resolve?_eq_none t x).mpr hx]
      simp only [defineAll_new t x name tail hx, ih, List.map_cons, fresh_cons t x name, hx,
        not_false_eq_true, true_and, extended_extended, List.singleton_append]
      rw [or_iff_right]
      intro hall
      obtain ⟨rfl, -, rfl, hexisting⟩ := hall
      rw [extended_nil] at hexisting
      exact hfirst hexisting

/-- The outputs before the first clash are kept, with the names of their ordinals. -/
theorem defineOutputs_eq_error (index : Int) (outputs : List String) (e : Redefinition) :
    t.defineOutputs index outputs = (t', .error e) ↔
      ∃ before x rest, outputs = before ++ x :: rest ∧ t.Fresh before ∧ (t.Has x ∨ x ∈ before) ∧
        t' = t.extended (before.zip (Naming.outputNames index outputs.length)) ∧
        e.tensor = x ∧ t'.resolve? x = some e.existing := by
  have hlength := Naming.length_outputNames index outputs.length
  have herror : t.defineOutputs index outputs = (t', .error e) ↔
      t.defineAll (outputs.zip (Naming.outputNames index outputs.length)) = (t', some e) := by
    unfold defineOutputs
    dsimp only
    generalize t.defineAll (outputs.zip (Naming.outputNames index outputs.length)) = result
    obtain ⟨u, none | r⟩ := result
    · simp
    · simp
  rw [herror, defineAll_eq_some]
  rw [exists_split_zip outputs _ hlength fun kept x => x = e.tensor ∧ t.Fresh (kept.map (·.1)) ∧
    t' = t.extended kept ∧ t'.resolve? e.tensor = some e.existing]
  generalize Naming.outputNames index outputs.length = names at hlength
  refine exists_congr fun before => exists_congr fun x => exists_congr fun rest =>
    and_congr_right fun hsplit => ?_
  have hfst : (before.zip names).map (·.1) = before := by
    apply List.map_fst_zip
    rw [hlength, hsplit, List.length_append]
    omega
  rw [hfst]
  constructor
  · intro hall
    obtain ⟨rfl, hfresh, rfl, hresolve⟩ := hall
    have hclash : (t.extended (before.zip names)).Has e.tensor := Option.isSome_of_eq_some hresolve
    rw [has_extended, hfst] at hclash
    exact ⟨hfresh, hclash, rfl, rfl, hresolve⟩
  · intro hall
    obtain ⟨hfresh, -, htable, rfl, hresolve⟩ := hall
    exact ⟨rfl, hfresh, htable, hresolve⟩

/-! ### What calls add -/

theorem resolve?_defineAll (entries : List (String × String)) (x name : String) :
    (t.defineAll entries).1.resolve? x = some name ↔
      t.resolve? x = some name ∨ ∃ before b rest, entries = before ++ b :: rest ∧
        b = (x, name) ∧ t.Fresh (before.map (·.1) ++ [x]) := by
  induction entries generalizing t with
  | nil => simp [defineAll]
  | cons b tail ih =>
    obtain ⟨y, n⟩ := b
    rw [exists_split_cons]
    by_cases hy : t.Has y
    · have hfirst : ¬ ((y, n) = (x, name) ∧ t.Fresh [x]) := by
        intro hall
        obtain ⟨⟨⟩, hfresh⟩ := hall
        exact not_fresh_of_mem t x [] hy hfresh
      simp only [defineAll_clash t y n tail hy, List.map_cons, List.cons_append,
        not_fresh_of_mem t y _ hy, and_false, exists_false, or_false]
      exact (or_iff_left hfirst).symm
    · have hfirst : (y, n) = (x, name) ∧ t.Fresh [x] ↔ (y, n) = (x, name) := by
        apply and_iff_left_of_imp
        rintro ⟨⟩
        exact (fresh_cons t x name []).mpr ⟨hy, fresh_nil _⟩
      simp only [defineAll_new t y n tail hy, ih, resolve?_extended_one t x name y n hy, or_assoc,
        List.map_nil, List.nil_append, hfirst, List.map_cons, List.cons_append, fresh_cons t y n, hy,
        not_false_eq_true, true_and]

theorem after_eq_defineAll (d : Definition) : t.after d = (t.defineAll d.bindings).1 := by
  cases d with
  | single x name =>
    simp only [after, Definition.bindings, defineAll]
    cases t.define x name <;> rfl
  | outputs index xs =>
    simp only [after, Definition.bindings, defineOutputs]
    generalize t.defineAll (xs.zip (Naming.outputNames index xs.length)) = result
    obtain ⟨u, none | e⟩ := result <;> rfl

theorem resolve?_after (d : Definition) (x name : String) :
    (t.after d).resolve? x = some name ↔ t.resolve? x = some name ∨ d.Defines t x name := by
  rw [after_eq_defineAll, resolve?_defineAll]
  rfl

theorem resolve?_afterAll (ds : List Definition) (x name : String) :
    (t.afterAll ds).resolve? x = some name ↔ t.resolve? x = some name ∨
      ∃ earlier d later, ds = earlier ++ d :: later ∧ d.Defines (t.afterAll earlier) x name := by
  induction ds generalizing t with
  | nil => simp [afterAll]
  | cons d rest ih =>
    rw [exists_split_cons]
    have hrest := ih (t.after d)
    rw [resolve?_after, or_assoc] at hrest
    exact hrest

variable {t} in
/-- A call keeps both in step. -/
theorem InStep.after (h : t.InStep) (d : Definition) : (t.after d).InStep := by
  rw [after_eq_defineAll]
  exact h.defineAll d.bindings

/-- Names and order stay in step over any calls, of which any may fail. -/
theorem InStep.afterAll {t : SymbolTable} (h : t.InStep) (ds : List Definition) :
    (t.afterAll ds).InStep := by
  induction ds generalizing t with
  | nil => exact h
  | cons d rest ih => exact ih (h.after d)

/-! ### Look-ups -/

theorem lookup_eq_ok (x name : String) : t.lookup x = .ok name ↔ t.resolve? x = some name := by
  cases hr : t.resolve? x <;> simp [lookup, hr]

theorem lookup_eq_error (x : String) (e : MissingProducer) :
    t.lookup x = .error e ↔ e = ⟨x, ""⟩ ∧ t.resolve? x = none := by
  cases hr : t.resolve? x <;> simp [lookup, hr, eq_comm]

theorem lookupInputs_eq_ok (node : String) (xs : List String) (symbols : List Symbol) :
    t.lookupInputs node xs = .ok symbols ↔
      symbols.map (·.tensor) = xs ∧ ∀ s ∈ symbols, t.resolve? s.tensor = some s.name := by
  rw [lookupInputs_yields t node xs symbols]
  constructor
  · intro hall
    obtain ⟨hdefined, rfl⟩ := hall
    refine ⟨?_, fun s hs => ?_⟩
    · rw [List.map_map]
      exact List.map_id xs
    · obtain ⟨x, hx, rfl⟩ := List.mem_map.mp hs
      exact resolve?_of_has t x (hdefined x hx)
  · intro hall
    obtain ⟨rfl, hresolved⟩ := hall
    constructor
    · intro x hx
      obtain ⟨s, hs, rfl⟩ := List.mem_map.mp hx
      exact Option.isSome_of_eq_some (hresolved s hs)
    · have hsame : ∀ s ∈ symbols, t.symbol s.tensor = s := by
        intro s hs
        rw [symbol, hresolved s hs]
        rfl
      rw [List.map_map]
      exact (List.map_id symbols).symm.trans (List.map_congr_left fun s hs => (hsame s hs).symm)

theorem lookupInputs_eq_error (node : String) (xs : List String) (e : MissingProducer) :
    t.lookupInputs node xs = .error e ↔
      ∃ before x rest, xs = before ++ x :: rest ∧ e = ⟨x, node⟩ ∧ (∀ y ∈ before, t.Has y) ∧
        ¬ t.Has x := by
  induction xs with
  | nil => simp [lookupInputs]
  | cons x rest ih =>
    rw [exists_split_cons]
    by_cases hx : t.Has x
    · have hstep : t.lookupInputs node (x :: rest) = .error e ↔ t.lookupInputs node rest = .error e := by
        simp only [lookupInputs, resolve?_of_has t x hx]
        cases t.lookupInputs node rest <;> simp
      rw [hstep, ih]
      simp only [List.forall_mem_cons, hx, true_and, not_true_eq_false, and_false, false_or]
    · simp only [lookupInputs, (resolve?_eq_none t x).mpr hx, List.forall_mem_cons, hx, false_and,
        and_false, exists_false, or_false, Except.error.injEq, eq_comm (a := e), not_false_eq_true,
        and_true, List.not_mem_nil, false_imp_iff, implies_true]

/-! ### Runs -/

/-- What the operations of a table tell of its tensors. -/
structure Coherent (t : SymbolTable) : Prop where
  tensors_nodup : t.tensors.Nodup
  tensors_resolved : ∀ x, x ∈ t.tensors ↔ (t.resolve? x).isSome
  size_counts : t.size = {x | (t.resolve? x).isSome}.ncard
  lookup_agrees : ∀ x name, t.lookup x = .ok name ↔ t.resolve? x = some name
  lookup_fails : ∀ x e, t.lookup x = .error e ↔ e = ⟨x, ""⟩ ∧ t.resolve? x = none
  lookupInputs_agrees : ∀ node xs symbols, t.lookupInputs node xs = .ok symbols ↔
    symbols.map (·.tensor) = xs ∧ ∀ s ∈ symbols, t.resolve? s.tensor = some s.name
  lookupInputs_fails : ∀ node xs e, t.lookupInputs node xs = .error e ↔
    ∃ before x rest, xs = before ++ x :: rest ∧ e = ⟨x, node⟩ ∧ (∀ y ∈ before, y ∈ t.tensors) ∧
      x ∉ t.tensors

variable {t} in
theorem InStep.coherent (h : t.InStep) : t.Coherent where
  tensors_nodup := h.order_nodup
  tensors_resolved := h.mem_order_iff
  size_counts := by
    have hset : {x | (t.resolve? x).isSome} = (t.order.toFinset : Set String) := by
      ext x
      rw [List.coe_toFinset]
      exact (h.mem_order_iff x).symm
    rw [hset, Set.ncard_coe_finset, List.toFinset_card_of_nodup h.order_nodup]
    rfl
  lookup_agrees := t.lookup_eq_ok
  lookup_fails := t.lookup_eq_error
  lookupInputs_agrees := t.lookupInputs_eq_ok
  lookupInputs_fails node xs e := by
    have hmem : ∀ x, x ∈ t.tensors ↔ t.Has x := h.mem_order_iff
    simp only [hmem]
    exact t.lookupInputs_eq_error node xs e

/-- After any calls on an empty table, of which any may have failed, each tensor has the name of the
call that defined it first, and keeps it. A definition fails exactly for a tensor that has a name, and
a failed definition of outputs has added those before the first clash. -/
theorem first_definition_lasts (ds : List Definition) (t : SymbolTable) (h : empty.afterAll ds = t) :
    t.Coherent ∧
      (∀ x name, t.resolve? x = some name ↔
        ∃ earlier d later, ds = earlier ++ d :: later ∧ d.Defines (empty.afterAll earlier) x name) ∧
      (∀ later x name, t.resolve? x = some name → (t.afterAll later).resolve? x = some name) ∧
      (∀ x name e, t.define x name = .error e ↔ e.tensor = x ∧ t.resolve? x = some e.existing) ∧
      (∀ x name, x ∈ t.tensors → t.after (.single x name) = t) ∧
      ∀ index outputs t' e, t.defineOutputs index outputs = (t', .error e) ↔
        ∃ before x rest, outputs = before ++ x :: rest ∧ t.Fresh before ∧
          (x ∈ t.tensors ∨ x ∈ before) ∧
          t' = t.extended (before.zip (Naming.outputNames index outputs.length)) ∧
          e.tensor = x ∧ t'.resolve? x = some e.existing := by
  subst h
  have hstep : (empty.afterAll ds).InStep := empty_inStep.afterAll ds
  have hmem : ∀ x, x ∈ (empty.afterAll ds).tensors ↔ (empty.afterAll ds).Has x := hstep.mem_order_iff
  refine ⟨hstep.coherent, fun x name => ?_, fun later x name hx => ?_, define_eq_error _,
    fun x name hx => ?_, fun index outputs t' e => ?_⟩
  · rw [resolve?_afterAll]
    exact or_iff_right (by simp [empty, resolve?])
  · exact (resolve?_afterAll _ later x name).mpr (.inl hx)
  · rw [after_eq_defineAll, Definition.bindings, defineAll_clash _ x name [] ((hmem x).mp hx)]
  · simp only [hmem]
    exact defineOutputs_eq_error _ t' index outputs e

/-- Calls of which three fail: the outputs of node 3 at `a`, those of node 4 at the second `c`, and the
last one. -/
def interruptedRun : List Definition :=
  [.single "a" "self.a", .outputs 3 ["b", "a", "c"], .outputs 4 ["c", "d", "c"], .single "b" "self.b"]

theorem interrupted_run_keeps_names :
    (empty.afterAll interruptedRun).tensors = ["a", "b", "c", "d"] ∧
      (empty.afterAll interruptedRun).Coherent ∧
      ∀ later, ((empty.afterAll interruptedRun).afterAll later).resolve? "c" =
        some "self.output_module_4_0" := by
  obtain ⟨hcoherent, -, hlasts, -⟩ := first_definition_lasts interruptedRun _ rfl
  exact ⟨by decide, hcoherent, fun later => hlasts later "c" _ (by decide)⟩

end Netscribe.SymbolTable
