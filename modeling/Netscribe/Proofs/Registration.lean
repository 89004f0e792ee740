import Netscribe.Graph

/-!
# The register of a graph under calls that succeed and calls that fail

Adding a node registers its tensors and takes hold of its outputs one by one, and a node that is
rejected half-way leaves both behind. What carries all invariants is that the register only grows: a
tensor is registered once, and keeps the first node that took hold of it. `addAt_cases` says
everything that adding a node can do, and `Consistent` is kept by every change.
-/

namespace Netscribe.Graph

def registered (g : Graph) : List String := g.tensors.map (·.1)

/-- The register of `g'` has what the register of `g` has, with the same producers. -/
structure Grows (g g' : Graph) : Prop where
  registered_subset : g.registered ⊆ g'.registered
  registered_nodup : g.registered.Nodup → g'.registered.Nodup
  producer_kept : ∀ t n, g.producer? t = some n → g'.producer? t = some n

theorem Grows.refl (g : Graph) : Grows g g := ⟨List.Subset.refl _, id, fun _ _ h => h⟩

theorem Grows.trans {a b c : Graph} (hab : Grows a b) (hbc : Grows b c) : Grows a c where
  registered_subset := fun _ ht => hbc.registered_subset (hab.registered_subset ht)
  registered_nodup := fun h => hbc.registered_nodup (hab.registered_nodup h)
  producer_kept := fun t n h => hbc.producer_kept t n (hab.producer_kept t n h)

/-! ### Registering -/

theorem lookup?_eq_none (g : Graph) (t : String) : g.lookup? t = none ↔ t ∉ g.registered := by
  simp only [lookup?, registered, List.lookup_eq_none_iff, List.mem_map, not_exists, not_and,
    bne_iff_ne]
  constructor
  · intro h e he ht
    exact h e he ht.symm
  · intro h e he ht
    exact h e he ht.symm

theorem registered_of_producer? (g : Graph) (t : String) (n : Node) (h : g.producer? t = some n) :
    t ∈ g.registered := by
  by_cases ht : t ∈ g.registered
  · exact ht
  · rw [producer?, (lookup?_eq_none g t).mpr ht] at h
    cases h

/-- A tensor that is there stays as it is, a new one is put at the end. -/
theorem register_cases (g : Graph) (t : String) :
    (t ∈ g.registered ∧ g.register t = g) ∨
      (t ∉ g.registered ∧ g.register t = { g with tensors := g.tensors ++ [(t, none)] }) := by
  by_cases ht : t ∈ g.registered
  · refine .inl ⟨ht, ?_⟩
    have hsome : (g.lookup? t).isSome = true := by
      rw [Option.isSome_iff_ne_none, ne_eq, lookup?_eq_none]
      exact not_not_intro ht
    rw [register, if_pos hsome]
  · refine .inr ⟨ht, ?_⟩
    rw [register, (lookup?_eq_none g t).mpr ht]
    rfl

theorem register_nodes (g : Graph) (t : String) : (g.register t).nodes = g.nodes := by
  rcases register_cases g t with ⟨-, h⟩ | ⟨-, h⟩ <;> rw [h]

theorem register_outputs (g : Graph) (t : String) : (g.register t).outputs = g.outputs := by
  rcases register_cases g t with ⟨-, h⟩ | ⟨-, h⟩ <;> rw [h]

theorem register_name (g : Graph) (t : String) : (g.register t).name = g.name := by
  rcases register_cases g t with ⟨-, h⟩ | ⟨-, h⟩ <;> rw [h]

theorem mem_registered_register (g : Graph) (t x : String) :
    x ∈ (g.register t).registered ↔ x ∈ g.registered ∨ x = t := by
  rcases register_cases g t with ⟨ht, h⟩ | ⟨-, h⟩
  · rw [h]
    constructor
    · exact .inl
    · rintro (hx | rfl)
      · exact hx
      · exact ht
  · rw [h]
    simp [registered]

theorem producer?_register (g : Graph) (t x : String) :
    (g.register t).producer? x = g.producer? x := by
  rcases register_cases g t with ⟨-, h⟩ | ⟨ht, h⟩
  · rw [h]
  · rw [h]
    simp only [producer?, lookup?, List.lookup_append]
    cases hx : g.tensors.lookup x with
    | some p => rfl
    | none =>
      by_cases hxt : x == t
      · simp [List.lookup_cons, hxt]
      · simp [List.lookup_cons, hxt]

theorem register_grows (g : Graph) (t : String) : Grows g (g.register t) where
  registered_subset := fun x hx => (mem_registered_register g t x).mpr (.inl hx)
  registered_nodup := by
    intro hnd
    rcases register_cases g t with ⟨-, h⟩ | ⟨ht, h⟩
    · rwa [h]
    · have happend : (g.register t).registered = g.registered ++ [t] := by
        rw [h]
        simp [registered]
      rw [happend, List.nodup_append]
      refine ⟨hnd, by simp, ?_⟩
      intro x hx y hy hxy
      obtain rfl : y = t := by simpa using hy
      exact ht (hxy ▸ hx)
  producer_kept := fun x n h => by rw [producer?_register]; exact h

theorem registerAll_nodes (g : Graph) (ts : List String) : (g.registerAll ts).nodes = g.nodes := by
  induction ts generalizing g with
  | nil => rfl
  | cons t rest ih => exact (ih (g.register t)).trans (register_nodes g t)

theorem registerAll_outputs (g : Graph) (ts : List String) :
    (g.registerAll ts).outputs = g.outputs := by
  induction ts generalizing g with
  | nil => rfl
  | cons t rest ih => exact (ih (g.register t)).trans (register_outputs g t)

theorem registerAll_name (g : Graph) (ts : List String) : (g.registerAll ts).name = g.name := by
  induction ts generalizing g with
  | nil => rfl
  | cons t rest ih => exact (ih (g.register t)).trans (register_name g t)

theorem producer?_registerAll (g : Graph) (ts : List String) (x : String) :
    (g.registerAll ts).producer? x = g.producer? x := by
  induction ts generalizing g with
  | nil => rfl
  | cons t rest ih => exact (ih (g.register t)).trans (producer?_register g t x)

theorem mem_registered_registerAll (g : Graph) (ts : List String) (x : String) :
    x ∈ (g.registerAll ts).registered ↔ x ∈ g.registered ∨ x ∈ ts := by
  induction ts generalizing g with
  | nil => simp [registerAll]
  | cons t rest ih =>
    have hrest := ih (g.register t)
    rw [mem_registered_register, or_assoc, ← List.mem_cons] at hrest
    exact hrest

theorem registerAll_grows (g : Graph) (ts : List String) : Grows g (g.registerAll ts) := by
  induction ts generalizing g with
  | nil => exact Grows.refl g
  | cons t rest ih => exact (register_grows g t).trans (ih (g.register t))

/-! ### Taking hold of outputs -/

theorem registered_assign (g : Graph) (t : String) (n : Node) :
    (g.assign t n).registered = g.registered := by
  simp only [registered, assign, List.map_map]
  apply List.map_congr_left
  intro e _
  simp only [Function.comp_apply]
  split <;> rfl

theorem lookup_map_assign (es : List (String × Option Node)) (t x : String) (n : Node) :
    (es.map fun e => if e.1 == t then (e.1, some n) else e).lookup x =
      (es.lookup x).map fun p => if x = t then some n else p := by
  induction es with
  | nil => rfl
  | cons e rest ih =>
    obtain ⟨y, p⟩ := e
    by_cases hxy : x = y
    · subst hxy
      by_cases hxt : x = t
      · simp [hxt]
      · simp [hxt]
    · have hb : (x == y) = false := by simpa using hxy
      rw [List.map_cons, List.lookup_cons, List.lookup_cons, hb, ← ih]
      by_cases hyt : y = t
      · subst hyt
        simp [hb]
      · simp [hyt, hb]

theorem producer?_assign (g : Graph) (t x : String) (n : Node) (ht : t ∈ g.registered) :
    (g.assign t n).producer? x = if x = t then some n else g.producer? x := by
  simp only [producer?, lookup?, assign, lookup_map_assign]
  by_cases hx : x = t
  · subst hx
    cases hl : g.tensors.lookup x with
    | none => exact absurd ht ((lookup?_eq_none g x).mp hl)
    | some p => simp
  · simp [hx]

theorem assign_grows (g : Graph) (t : String) (n : Node) (ht : t ∈ g.registered)
    (hfree : g.producer? t = none) : Grows g (g.assign t n) where
  registered_subset := by rw [registered_assign]; exact List.Subset.refl _
  registered_nodup := by rw [registered_assign]; exact id
  producer_kept := by
    intro x p hx
    rw [producer?_assign g t x n ht, if_neg]
    · exact hx
    · rintro rfl
      rw [hfree] at hx
      cases hx

/-- The outputs of a node are taken as far as they are free. If all are, the node holds them
afterwards, and every other tensor has the producer it had. -/
theorem takeOutputs_spec (n : Node) (g : Graph) (ts : List String) :
    (takeOutputs n g ts).1.nodes = g.nodes ∧ (takeOutputs n g ts).1.outputs = g.outputs ∧
      Grows g (takeOutputs n g ts).1 ∧
      ((takeOutputs n g ts).2 = none →
        ts.Nodup ∧ (∀ t ∈ ts, g.producer? t = none) ∧
        ∀ x, (takeOutputs n g ts).1.producer? x = if x ∈ ts then some n else g.producer? x) := by
  induction ts generalizing g with
  | nil => exact ⟨rfl, rfl, Grows.refl g, fun _ => ⟨List.nodup_nil, by simp, by simp [takeOutputs]⟩⟩
  | cons t rest ih =>
    have hreg : t ∈ (g.register t).registered := (mem_registered_register g t t).mpr (.inr rfl)
    cases hp : (g.register t).producer? t with
    | some other =>
      simp only [takeOutputs, hp]
      exact ⟨register_nodes g t, register_outputs g t, register_grows g t, fun h => by cases h⟩
    | none =>
      have hassigned := fun x => producer?_assign (g.register t) t x n hreg
      obtain ⟨hnodes, houtputs, hgrows, hall⟩ := ih ((g.register t).assign t n)
      simp only [takeOutputs, hp]
      refine ⟨hnodes.trans (register_nodes g t), houtputs.trans (register_outputs g t),
        ((register_grows g t).trans (assign_grows _ t n hreg hp)).trans hgrows, fun hnone => ?_⟩
      obtain ⟨hnodup, hfree, hheld⟩ := hall hnone
      -- the rest is free in a register where `t` is taken already
      have hnew : ∀ x ∈ rest, x ≠ t ∧ g.producer? x = none := by
        intro x hx
        have hx' := hfree x hx
        rw [hassigned] at hx'
        by_cases hxt : x = t
        · rw [if_pos hxt] at hx'
          cases hx'
        · rw [if_neg hxt, producer?_register] at hx'
          exact ⟨hxt, hx'⟩
      rw [producer?_register] at hp
      refine ⟨List.nodup_cons.mpr ⟨fun ht => (hnew t ht).1 rfl, hnodup⟩, ?_, fun x => ?_⟩
      · rw [List.forall_mem_cons]
        exact ⟨hp, fun x hx => (hnew x hx).2⟩
      · rw [hheld, hassigned, producer?_register]
        by_cases hxt : x = t
        · simp [hxt]
        · simp [hxt]

/-! ### Adding a node -/

/-- What a node that is added does to a graph. -/
structure Added (g : Graph) (n : Node) (g' : Graph) : Prop where
  nodes : g'.nodes = g.nodes ++ [n]
  index_new : n.index ∉ g.nodes.map (·.index)
  outputs_nodup : n.outputs.Nodup
  outputs_free : ∀ t ∈ n.outputs, g.producer? t = none
  inputs_registered : ∀ t ∈ n.inputs, t ∈ g'.registered
  producers : ∀ t, g'.producer? t = if t ∈ n.outputs then some n else g.producer? t

/-- A node is added as a whole, or the nodes of the graph stay the same. -/
theorem addAt_cases (g : Graph) (index : Int) (name : String) (op : Option Operator)
    (inputs outputs : List String) :
    Grows g (g.addAt index name op inputs outputs).1 ∧
      (g.addAt index name op inputs outputs).1.outputs = g.outputs ∧
      ((∃ r, (g.addAt index name op inputs outputs).2 = .error r ∧
          (g.addAt index name op inputs outputs).1.nodes = g.nodes) ∨
        ∃ o, op = some o ∧
          (g.addAt index name op inputs outputs).2 = .ok ⟨index, name, o, inputs, outputs⟩ ∧
          Added g ⟨index, name, o, inputs, outputs⟩ (g.addAt index name op inputs outputs).1) := by
  cases op with
  | none => exact ⟨Grows.refl g, rfl, .inl ⟨_, rfl, rfl⟩⟩
  | some o =>
    cases hf : g.nodes.find? (·.index == index) with
    | some other =>
      have hrefused : g.addAt index name (some o) inputs outputs =
          (g, .error (.indexUsed name index other.name)) := by
        simp only [addAt, hf]
      rw [hrefused]
      exact ⟨Grows.refl g, rfl, .inl ⟨_, rfl, rfl⟩⟩
    | none =>
      have hspec := takeOutputs_spec ⟨index, name, o, inputs, outputs⟩ (g.registerAll inputs) outputs
      simp only [addAt, hf]
      generalize takeOutputs ⟨index, name, o, inputs, outputs⟩ (g.registerAll inputs) outputs = taken
        at hspec ⊢
      obtain ⟨g', r⟩ := taken
      obtain ⟨hnodes, houtputs, hgrows, hall⟩ := hspec
      dsimp only at hnodes houtputs hgrows hall
      rw [registerAll_nodes] at hnodes
      rw [registerAll_outputs] at houtputs
      have hbefore := (registerAll_grows g inputs).trans hgrows
      cases r with
      | some r => exact ⟨hbefore, houtputs, .inl ⟨r, rfl, hnodes⟩⟩
      | none =>
        obtain ⟨hnodup, hfree, hheld⟩ := hall rfl
        refine ⟨⟨hbefore.1, hbefore.2, hbefore.3⟩, houtputs, .inr ⟨o, rfl, rfl, ?_⟩⟩
        refine ⟨by rw [← hnodes], ?_, hnodup, fun t ht => ?_, fun t ht => ?_, fun t => ?_⟩
        · rw [List.find?_eq_none] at hf
          intro hi
          obtain ⟨m, hm, hmi⟩ := List.mem_map.mp hi
          exact hf m hm (by simpa using hmi)
        · rw [← producer?_registerAll g inputs t]
          exact hfree t ht
        · exact hgrows.registered_subset ((mem_registered_registerAll g inputs t).mpr (.inr ht))
        · rw [← producer?_registerAll g inputs t]
          exact hheld t

theorem takeOutputs_name (n : Node) (g : Graph) (ts : List String) :
    (takeOutputs n g ts).1.name = g.name := by
  induction ts generalizing g with
  | nil => rfl
  | cons t rest ih =>
    rw [takeOutputs]
    cases hproducer : (g.register t).producer? t with
    | some other => simp only [register_name]
    | none => simp only [ih, assign, register_name]

theorem addAt_name (g : Graph) (index : Int) (name : String) (op : Option Operator)
    (inputs outputs : List String) : (g.addAt index name op inputs outputs).1.name = g.name := by
  unfold addAt
  split
  · rfl
  · next op =>
    split
    · rfl
    · have htaken := takeOutputs_name ⟨index, name, op, inputs, outputs⟩ (g.registerAll inputs) outputs
      rw [registerAll_name] at htaken
      dsimp only
      split
      · next hrejected =>
        rw [hrejected] at htaken
        exact htaken
      · next hadded =>
        rw [hadded] at htaken
        exact htaken

end Netscribe.Graph
