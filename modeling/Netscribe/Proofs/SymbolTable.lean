import Netscribe.Proofs.Naming
import Netscribe.Proofs.Outcome
import Netscribe.SymbolTable

/-!
# Symbol tables and the tensors they name

What each operation of a symbol table does, said through the tensors that have a name in it.
Definitions succeed exactly on tensors that are new and named once, look-ups exactly on tensors that
have a name, and every successful look-up gives `symbol`. None of this needs the order of the tensors:
that the order lists the same ones is `InStep`, and each definition keeps it.
-/

namespace Netscribe.SymbolTable

def Has (t : SymbolTable) (tensor : String) : Prop := (t.resolve? tensor).isSome

instance (t : SymbolTable) (tensor : String) : Decidable (t.Has tensor) :=
  inferInstanceAs (Decidable ((t.resolve? tensor).isSome = true))

def symbol (t : SymbolTable) (tensor : String) : Symbol := ⟨tensor, (t.resolve? tensor).getD ""⟩

/-- The symbols of those of the given tensors that have a name. -/
def symbolsOf (t : SymbolTable) (tensors : List String) : List Symbol :=
  (tensors.filter (t.Has ·)).map t.symbol

/-- The table with further tensors behind its own; a name that it has already stays. -/
def extended (t : SymbolTable) (bs : List (String × String)) : SymbolTable :=
  ⟨fun x => (t.names x).or (bs.lookup x), t.order ++ bs.map (·.1)⟩

def ofList (bs : List (String × String)) : SymbolTable := empty.extended bs

theorem resolve?_eq_none (t : SymbolTable) (x : String) : t.resolve? x = none ↔ ¬ t.Has x := by
  unfold Has
  cases t.resolve? x <;> simp

theorem resolve?_of_has (t : SymbolTable) (x : String) (h : t.Has x) :
    t.resolve? x = some (t.symbol x).name := by
  cases hr : t.resolve? x with
  | none => exact absurd h ((resolve?_eq_none t x).mp hr)
  | some name => simp [symbol, hr]

theorem has_extended (t : SymbolTable) (bs : List (String × String)) (x : String) :
    (t.extended bs).Has x ↔ t.Has x ∨ x ∈ bs.map (·.1) := by
  have hbs : (bs.lookup x).isSome ↔ x ∈ bs.map (·.1) := by
    induction bs with
    | nil => simp
    | cons b rest ih =>
      obtain ⟨y, name⟩ := b
      by_cases hxy : x = y
      · simp [hxy]
      · have hne : (x == y) = false := beq_eq_false_iff_ne.mpr hxy
        simp [List.lookup_cons, hne, hxy, ih]
  have hor : (t.extended bs).Has x ↔ t.Has x ∨ (bs.lookup x).isSome := by
    unfold Has
    change ((t.names x).or (bs.lookup x)).isSome ↔ (t.names x).isSome ∨ (bs.lookup x).isSome
    rw [Option.isSome_or, Bool.or_eq_true]
  rw [hor, hbs]

theorem extended_nil (t : SymbolTable) : t.extended [] = t := by
  simp [extended]

theorem extended_extended (t : SymbolTable) (bs cs : List (String × String)) :
    (t.extended bs).extended cs = t.extended (bs ++ cs) := by
  simp [extended, List.lookup_append, Option.or_assoc]

theorem resolve?_ofList (bs : List (String × String)) (x : String) :
    (ofList bs).resolve? x = bs.lookup x := rfl

/-- The name of a tensor is one that was listed for it. -/
theorem symbol_mem_of_has (bs : List (String × String)) (x : String) (h : (ofList bs).Has x) :
    (x, ((ofList bs).symbol x).name) ∈ bs := by
  have hr := resolve?_of_has _ x h
  rw [resolve?_ofList] at hr
  generalize ((ofList bs).symbol x).name = name at hr
  obtain ⟨before, after, rfl, -⟩ := List.lookup_eq_some_iff.mp hr
  simp

/-! ### Membership in lists of symbols -/

theorem mem_symbolsOf (t : SymbolTable) (xs : List String) (s : Symbol) :
    s ∈ t.symbolsOf xs ↔ s.tensor ∈ xs ∧ t.Has s.tensor ∧ s = t.symbol s.tensor := by
  simp only [symbolsOf, List.mem_map, List.mem_filter, decide_eq_true_eq]
  constructor
  · intro hmem
    obtain ⟨x, ⟨hx, ht⟩, rfl⟩ := hmem
    exact ⟨hx, ht, rfl⟩
  · intro hall
    obtain ⟨hx, ht, hs⟩ := hall
    exact ⟨s.tensor, ⟨hx, ht⟩, hs.symm⟩

theorem symbolsOf_append (t : SymbolTable) (xs ys : List String) :
    t.symbolsOf (xs ++ ys) = t.symbolsOf xs ++ t.symbolsOf ys := by
  simp only [symbolsOf, List.filter_append, List.map_append]

theorem symbolsOf_eq_map (t : SymbolTable) (xs : List String) (h : ∀ x ∈ xs, t.Has x) :
    t.symbolsOf xs = xs.map t.symbol := by
  simp only [symbolsOf]
  rw [List.filter_eq_self.mpr]
  intro x hx
  simpa using h x hx

/-! ### Definitions -/

/-- The tensors are all different and none of them has a name, so that they are named without a
clash. -/
def Fresh (t : SymbolTable) (xs : List String) : Prop := xs.Nodup ∧ ∀ x ∈ xs, ¬ t.Has x

theorem fresh_nil (t : SymbolTable) : t.Fresh [] := ⟨List.nodup_nil, fun x hx => by cases hx⟩

theorem fresh_cons (t : SymbolTable) (x name : String) (xs : List String) :
    t.Fresh (x :: xs) ↔ ¬ t.Has x ∧ (t.extended [(x, name)]).Fresh xs := by
  have hhas : ∀ y, ¬ (t.extended [(x, name)]).Has y ↔ ¬ t.Has y ∧ y ≠ x := by
    intro y
    simp [has_extended]
  simp only [Fresh, hhas, List.nodup_cons, List.forall_mem_cons]
  constructor
  · intro h
    obtain ⟨⟨hx, hnodup⟩, hnew, hrest⟩ := h
    exact ⟨hnew, hnodup, fun y hy => ⟨hrest y hy, fun hyx => hx (hyx ▸ hy)⟩⟩
  · intro h
    obtain ⟨hnew, hnodup, hrest⟩ := h
    exact ⟨⟨fun hx => (hrest x hx).2 rfl, hnodup⟩, hnew, fun y hy => (hrest y hy).1⟩

theorem define_eq_ok (t t' : SymbolTable) (x name : String) :
    t.define x name = .ok t' ↔ ¬ t.Has x ∧ t' = t.extended [(x, name)] := by
  rw [← resolve?_eq_none]
  cases hr : t.resolve? x with
  | some other => simp [define, hr]
  | none =>
    -- a name that is written over the one of no tensor is the same as one behind the others
    have hnames : (fun y => if y = x then some name else t.names y) =
        fun y => (t.names y).or ([(x, name)].lookup y) := by
      funext y
      by_cases hy : y = x
      · subst hy
        have hnone : t.names y = none := hr
        rw [if_pos rfl, hnone]
        simp
      · have hne : (y == x) = false := beq_eq_false_iff_ne.mpr hy
        rw [if_neg hy, List.lookup_cons, hne]
        simp
    have hdefine : t.define x name = .ok (t.extended [(x, name)]) := by
      simp only [define, hr, hnames]
      rfl
    rw [hdefine]
    simp [eq_comm]

theorem defineAll_eq_none (t t' : SymbolTable) (bs : List (String × String)) :
    t.defineAll bs = (t', none) ↔ t.Fresh (bs.map (·.1)) ∧ t' = t.extended bs := by
  induction bs generalizing t with
  | nil => simp [defineAll, fresh_nil, extended_nil, eq_comm]
  | cons b rest ih =>
    obtain ⟨x, name⟩ := b
    rw [List.map_cons, fresh_cons t x name]
    cases hd : t.define x name with
    | error e =>
      have hx : ¬ ¬ t.Has x := by
        intro hx
        have hok := (define_eq_ok t _ x name).mpr ⟨hx, rfl⟩
        rw [hd] at hok
        cases hok
      simp [defineAll, hd, hx]
    | ok u =>
      obtain ⟨hx, rfl⟩ := (define_eq_ok t u x name).mp hd
      -- the tail is defined in a table that has the head already
      simp only [defineAll, hd, ih, extended_extended, List.singleton_append, hx, not_false_eq_true,
        true_and]

/-- The outputs of a node are named exactly when they are new and all different. -/
theorem defineOutputs_eq_ok (t t' : SymbolTable) (index : Int) (outputs names : List String) :
    t.defineOutputs index outputs = (t', .ok names) ↔
      t.Fresh outputs ∧
        t' = t.extended (outputs.zip (Naming.outputNames index outputs.length)) ∧
        names = Naming.outputNames index outputs.length := by
  have hfst : (outputs.zip (Naming.outputNames index outputs.length)).map (·.1) = outputs :=
    List.map_fst_zip (Nat.le_of_eq (Naming.length_outputNames index outputs.length).symm)
  have hspec := defineAll_eq_none t t' (outputs.zip (Naming.outputNames index outputs.length))
  rw [hfst] at hspec
  simp only [defineOutputs]
  cases hd : t.defineAll (outputs.zip (Naming.outputNames index outputs.length)) with
  | mk u r =>
    rw [hd] at hspec
    cases r with
    | none =>
      simp only [Prod.mk.injEq, and_true, Except.ok.injEq] at hspec ⊢
      rw [hspec, eq_comm (a := names)]
      simp only [and_assoc]
    | some e =>
      simp only [Prod.mk.injEq, reduceCtorEq, and_false, false_iff] at hspec ⊢
      intro hall
      obtain ⟨hfresh, ht, -⟩ := hall
      exact hspec ⟨hfresh, ht⟩

/-! ### Look-ups -/

theorem lookup_yields (t : SymbolTable) (x : String) :
    Yields (t.lookup x) (t.Has x) (t.symbol x).name := by
  unfold lookup
  by_cases hx : t.Has x
  · rw [resolve?_of_has t x hx]
    exact (Yields.ok _).congr (by simp [hx]) fun _ => rfl
  · rw [(resolve?_eq_none t x).mpr hx]
    exact Yields.error _ hx

theorem lookupInputs_yields (t : SymbolTable) (node : String) (xs : List String) :
    Yields (t.lookupInputs node xs) (∀ x ∈ xs, t.Has x) (xs.map t.symbol) := by
  induction xs with
  | nil => exact (Yields.ok _).congr (by simp) fun _ => rfl
  | cons x rest ih =>
    by_cases hx : t.Has x
    · have hstep : t.lookupInputs node (x :: rest) =
          (t.lookupInputs node rest).map (t.symbol x :: ·) := by
        simp only [lookupInputs, resolve?_of_has t x hx]
        cases t.lookupInputs node rest <;> rfl
      rw [hstep]
      exact (ih.map _).congr (by simp [hx]) fun _ => rfl
    · simp only [lookupInputs, (resolve?_eq_none t x).mpr hx]
      exact Yields.error _ fun h => hx (h x (List.mem_cons_self ..))

end Netscribe.SymbolTable
