import Netscribe.Proofs.ClosedGraph

/-!
# What a rejected node leaves behind

A node is rejected before anything is registered (no operator, an index in use), or at one of its
outputs, and then the outputs before that one keep the rejected node as their producer. So a
rejected call changes nothing exactly if it stops at its first output and brings no new input, and
the calls after it get the answers that they would get without it exactly if it stops at its first
output. Over a whole run, every producer is a node of the graph exactly if no rejected call got
beyond its first output.
-/

namespace Netscribe.Graph

/-! ### Where the outputs of a node are refused -/

/-- The outputs `ts` of the node `n` are taken in `g` up to the tensor `t`, which is refused. -/
structure Stops (g : Graph) (n : Node) (ts taken : List String) (t : String) (g' : Graph) : Prop where
  split : ∃ rest, ts = taken ++ t :: rest
  taken_nodup : taken.Nodup
  taken_free : ∀ x ∈ taken, g.producer? x = none
  refused : t ∈ taken ∨ g.producer? t ≠ none
  registered : ∀ x, x ∈ g'.registered ↔ x ∈ g.registered ∨ x ∈ taken ∨ x = t
  producers : ∀ x, g'.producer? x = if x ∈ taken then some n else g.producer? x
  at_once : taken = [] → g' = g.register t

theorem takeOutputs_stops (n : Node) (g : Graph) (ts : List String) (r : Rejection)
    (h : (takeOutputs n g ts).2 = some r) :
    ∃ taken t, Stops g n ts taken t (takeOutputs n g ts).1 := by
  induction ts generalizing g with
  | nil => cases h
  | cons t rest ih =>
    have hreg : t ∈ (g.register t).registered := (mem_registered_register g t t).mpr (.inr rfl)
    cases hp : (g.register t).producer? t with
    | some other =>
      have hheld : g.producer? t ≠ none := by
        rw [← producer?_register g t t, hp]
        simp
      simp only [takeOutputs, hp]
      refine ⟨[], t, ⟨rest, rfl⟩, List.nodup_nil, ?_, .inr hheld, fun x => ?_, fun x => ?_,
        fun _ => rfl⟩
      · intro x hx
        cases hx
      · rw [mem_registered_register]
        simp
      · rw [producer?_register]
        simp
    | none =>
      have hassigned := fun x => producer?_assign (g.register t) t x n hreg
      simp only [takeOutputs, hp] at h ⊢
      obtain ⟨taken, u, hstops⟩ := ih ((g.register t).assign t n) h
      obtain ⟨tail, htail⟩ := hstops.split
      -- the tensors of the tail are taken from a register in which `t` is held already
      have hfree : ∀ x ∈ taken, x ≠ t ∧ g.producer? x = none := by
        intro x hx
        have hx' := hstops.taken_free x hx
        rw [hassigned] at hx'
        by_cases hxt : x = t
        · rw [if_pos hxt] at hx'
          cases hx'
        · rw [if_neg hxt, producer?_register] at hx'
          exact ⟨hxt, hx'⟩
      have htfree : g.producer? t = none := by rw [← producer?_register g t t]; exact hp
      refine ⟨t :: taken, u, ⟨tail, by rw [htail]; rfl⟩, ?_, ?_, ?_, fun x => ?_, fun x => ?_, ?_⟩
      · exact List.nodup_cons.mpr ⟨fun hm => (hfree t hm).1 rfl, hstops.taken_nodup⟩
      · rw [List.forall_mem_cons]
        exact ⟨htfree, fun x hx => (hfree x hx).2⟩
      · rcases hstops.refused with hu | hu
        · exact .inl (List.mem_cons_of_mem _ hu)
        · rw [hassigned, producer?_register] at hu
          by_cases hut : u = t
          · exact .inl (hut ▸ List.mem_cons_self ..)
          · rw [if_neg hut] at hu
            exact .inr hu
      · rw [hstops.registered, registered_assign, mem_registered_register, List.mem_cons]
        simp only [or_assoc]
      · rw [hstops.producers, hassigned, producer?_register]
        by_cases hxt : x = t
        · simp [hxt]
        · simp [hxt]
      · intro hnil
        cases hnil

/-- A node without an operator or with an index in use changes nothing, any other rejected node is
refused at one of its outputs. -/
theorem addAt_rejected (g : Graph) (index : Int) (name : String) (op : Option Operator)
    (inputs outputs : List String) (r : Rejection)
    (h : (g.addAt index name op inputs outputs).2 = .error r) :
    ((op = none ∨ index ∈ g.nodes.map (·.index)) ∧ (g.addAt index name op inputs outputs).1 = g) ∨
      ∃ o taken t, op = some o ∧ index ∉ g.nodes.map (·.index) ∧
        Stops (g.registerAll inputs) ⟨index, name, o, inputs, outputs⟩ outputs taken t
          (g.addAt index name op inputs outputs).1 := by
  cases op with
  | none => exact .inl ⟨.inl rfl, rfl⟩
  | some o =>
    cases hf : g.nodes.find? (·.index == index) with
    | some other =>
      have hindex : other.index = index := by simpa using List.find?_some hf
      have hused : index ∈ g.nodes.map (·.index) :=
        List.mem_map.mpr ⟨other, List.mem_of_find?_eq_some hf, hindex⟩
      exact .inl ⟨.inr hused, by simp only [addAt, hf]⟩
    | none =>
      have hnew : index ∉ g.nodes.map (·.index) := by
        intro hm
        obtain ⟨m, hm, hmi⟩ := List.mem_map.mp hm
        exact (List.find?_eq_none.mp hf) m hm (by simpa using hmi)
      have hstops := takeOutputs_stops ⟨index, name, o, inputs, outputs⟩ (g.registerAll inputs)
        outputs
      simp only [addAt, hf] at h ⊢
      generalize takeOutputs ⟨index, name, o, inputs, outputs⟩ (g.registerAll inputs) outputs =
        result at h hstops ⊢
      obtain ⟨g', none | r'⟩ := result
      · cases h
      · obtain ⟨taken, t, hs⟩ := hstops r' rfl
        exact .inr ⟨o, taken, t, rfl, hnew, hs⟩

/-! ### Rejected calls -/

/-- The node that a call means to add. -/
def Change.node? (g : Graph) : Change → Option Node
  | .add name op inputs outputs => op.map fun o => ⟨g.nodes.length, name, o, inputs, outputs⟩
  | .addAt index name op inputs outputs => op.map fun o => ⟨index, name, o, inputs, outputs⟩
  | _ => none

def answer (g : Graph) : Change → Option (Except Rejection Node)
  | .add name op inputs outputs => some (g.add name op inputs outputs).2
  | .addAt index name op inputs outputs => some (g.addAt index name op inputs outputs).2
  | _ => none

def answers (g : Graph) : List Change → List (Option (Except Rejection Node))
  | [] => []
  | c :: rest => g.answer c :: (g.after c).answers rest

/-- The call gets to the tensors of its node: it has an operator and an index of its own. -/
def Reaches (g : Graph) (c : Change) (n : Node) : Prop :=
  c.node? g = some n ∧ n.index ∉ g.nodes.map (·.index)

def LeavesHold (g : Graph) (c : Change) : Prop :=
  ∃ n r t, g.Reaches c n ∧ g.answer c = some (.error r) ∧ n.outputs.head? = some t ∧
    g.producer? t = none

def LeavesInput (g : Graph) (c : Change) : Prop :=
  ∃ n r x, g.Reaches c n ∧ g.answer c = some (.error r) ∧ x ∈ n.inputs ∧ x ∉ g.registered

/-- A call that adds a node is an addition at some index. -/
theorem answer_eq_some (g : Graph) (c : Change) (a : Except Rejection Node)
    (h : g.answer c = some a) :
    ∃ index name op inputs outputs, g.addAt index name op inputs outputs = (g.after c, a) ∧
      c.node? g = op.map fun o => ⟨index, name, o, inputs, outputs⟩ := by
  cases c with
  | tensor name => cases h
  | setOutputs names => cases h
  | add name op inputs outputs =>
    cases h
    exact ⟨g.nodes.length, name, op, inputs, outputs, rfl, rfl⟩
  | addAt index name op inputs outputs =>
    cases h
    exact ⟨index, name, op, inputs, outputs, rfl, rfl⟩

theorem rejected_cases (g : Graph) (c : Change) (r : Rejection)
    (h : g.answer c = some (.error r)) :
    ((∀ n, ¬ g.Reaches c n) ∧ g.after c = g) ∨
      ∃ n taken t, g.Reaches c n ∧
        Stops (g.registerAll n.inputs) n n.outputs taken t (g.after c) := by
  obtain ⟨index, name, op, inputs, outputs, hadd, hnode⟩ := answer_eq_some g c _ h
  have hcases := addAt_rejected g index name op inputs outputs r (by rw [hadd])
  rw [hadd] at hcases
  rcases hcases with ⟨hearly, hsame⟩ | ⟨o, taken, t, rfl, hnew, hstops⟩
  · refine .inl ⟨fun n hn => ?_, hsame⟩
    obtain ⟨hn, hnew⟩ := hn
    obtain ⟨o, ho, rfl⟩ := Option.map_eq_some_iff.mp (hnode.symm.trans hn)
    rcases hearly with hnone | hused
    · rw [hnone] at ho
      cases ho
    · exact hnew hused
  · exact .inr ⟨_, taken, t, ⟨hnode, hnew⟩, hstops⟩

theorem Stops.head_taken {g g' : Graph} {n : Node} {ts taken : List String} {t x : String}
    (h : Stops g n ts taken t g') (hx : ts.head? = some x) (hfree : g.producer? x = none) :
    x ∈ taken := by
  obtain ⟨rest, hsplit⟩ := h.split
  cases taken with
  | nil =>
    rw [hsplit] at hx
    obtain rfl := Option.some.inj hx
    exact absurd hfree (h.refused.resolve_left List.not_mem_nil)
  | cons y taken =>
    rw [hsplit] at hx
    obtain rfl := Option.some.inj hx
    exact List.mem_cons_self ..

/-- Nothing is taken exactly if the first output was held already. -/
theorem Stops.taken_eq_nil_iff {g g' : Graph} {n : Node} {ts taken : List String} {t : String}
    (h : Stops g n ts taken t g') :
    taken = [] ↔ ∀ x, ts.head? = some x → g.producer? x ≠ none := by
  constructor
  · intro hnil x hx hfree
    have hmem := h.head_taken hx hfree
    rw [hnil] at hmem
    cases hmem
  · intro hheld
    obtain ⟨rest, hsplit⟩ := h.split
    cases taken with
    | nil => rfl
    | cons y taken =>
      have hhead : ts.head? = some y := by rw [hsplit]; rfl
      exact absurd (h.taken_free y (List.mem_cons_self ..)) (hheld y hhead)

/-- The outputs that a rejected node took are exactly what changes the producers. -/
theorem Stops.producers_kept_iff {g g' : Graph} {n : Node} {ts taken : List String} {t : String}
    (h : Stops g n ts taken t g') : (∀ x, g'.producer? x = g.producer? x) ↔ taken = [] := by
  constructor
  · intro hkept
    rw [List.eq_nil_iff_forall_not_mem]
    intro x hx
    have hx' := hkept x
    rw [h.producers, if_pos hx, h.taken_free x hx] at hx'
    cases hx'
  · rintro rfl x
    rw [h.producers]
    simp

theorem Stops.leavesHold_iff {g : Graph} {c : Change} {r : Rejection} {n : Node}
    {taken : List String} {t : String} (hanswer : g.answer c = some (.error r))
    (hreaches : g.Reaches c n)
    (h : Stops (g.registerAll n.inputs) n n.outputs taken t (g.after c)) :
    g.LeavesHold c ↔ taken ≠ [] := by
  rw [ne_eq, h.taken_eq_nil_iff]
  simp only [producer?_registerAll, ne_eq, Classical.not_forall, Classical.not_not, exists_prop]
  constructor
  · rintro ⟨m, -, x, hm, -, hx, hfree⟩
    obtain rfl := Option.some.inj (hm.1.symm.trans hreaches.1)
    exact ⟨x, hx, hfree⟩
  · rintro ⟨x, hx, hfree⟩
    exact ⟨n, r, x, hreaches, hanswer, hx, hfree⟩

/-! ### Graphs that no later call can tell apart -/

/-- The graphs have the same nodes and the same producers. -/
structure Alike (g g' : Graph) : Prop where
  nodes : g'.nodes = g.nodes
  producers : ∀ t, g'.producer? t = g.producer? t

theorem Alike.register {g g' : Graph} (h : Alike g g') (t : String) :
    Alike (g.register t) (g'.register t) where
  nodes := by rw [register_nodes, register_nodes, h.nodes]
  producers := fun x => by rw [producer?_register, producer?_register, h.producers]

theorem Alike.registerAll {g g' : Graph} (h : Alike g g') (ts : List String) :
    Alike (g.registerAll ts) (g'.registerAll ts) where
  nodes := by rw [registerAll_nodes, registerAll_nodes, h.nodes]
  producers := fun x => by rw [producer?_registerAll, producer?_registerAll, h.producers]

theorem Alike.takeOutputs {g g' : Graph} (h : Alike g g') (n : Node) (ts : List String) :
    Alike (takeOutputs n g ts).1 (takeOutputs n g' ts).1 ∧
      (takeOutputs n g' ts).2 = (takeOutputs n g ts).2 := by
  induction ts generalizing g g' with
  | nil => exact ⟨h, rfl⟩
  | cons t rest ih =>
    have hreg := h.register t
    have hmem : t ∈ (g.register t).registered := (mem_registered_register g t t).mpr (.inr rfl)
    have hmem' : t ∈ (g'.register t).registered := (mem_registered_register g' t t).mpr (.inr rfl)
    have hassign : Alike ((g.register t).assign t n) ((g'.register t).assign t n) := by
      refine ⟨hreg.nodes, fun x => ?_⟩
      rw [producer?_assign _ t x n hmem, producer?_assign _ t x n hmem', hreg.producers]
    simp only [Graph.takeOutputs, hreg.producers]
    cases (g.register t).producer? t with
    | some other => exact ⟨hreg, rfl⟩
    | none => exact ih hassign

theorem Alike.addAt {g g' : Graph} (h : Alike g g') (index : Int) (name : String)
    (op : Option Operator) (inputs outputs : List String) :
    Alike (g.addAt index name op inputs outputs).1 (g'.addAt index name op inputs outputs).1 ∧
      (g'.addAt index name op inputs outputs).2 = (g.addAt index name op inputs outputs).2 := by
  cases op with
  | none => exact ⟨h, rfl⟩
  | some o =>
    simp only [Graph.addAt, h.nodes]
    cases g.nodes.find? (·.index == index) with
    | some other => exact ⟨h, rfl⟩
    | none =>
      have htaken := (h.registerAll inputs).takeOutputs ⟨index, name, o, inputs, outputs⟩ outputs
      dsimp only
      generalize Graph.takeOutputs ⟨index, name, o, inputs, outputs⟩ (g.registerAll inputs) outputs =
        left at htaken ⊢
      generalize Graph.takeOutputs ⟨index, name, o, inputs, outputs⟩ (g'.registerAll inputs) outputs =
        right at htaken ⊢
      obtain ⟨left, r⟩ := left
      obtain ⟨right, r'⟩ := right
      obtain ⟨halike, hr⟩ := htaken
      dsimp only at halike hr
      subst hr
      cases r' with
      | some r => exact ⟨halike, rfl⟩
      | none => exact ⟨⟨congrArg (· ++ [_]) halike.nodes, halike.producers⟩, rfl⟩

theorem Alike.after {g g' : Graph} (h : Alike g g') (c : Change) :
    Alike (g.after c) (g'.after c) ∧ g'.answer c = g.answer c := by
  cases c with
  | add name op inputs outputs =>
    have hstep := h.addAt g.nodes.length name op inputs outputs
    simp only [Graph.after, answer, add, h.nodes]
    exact ⟨hstep.1, congrArg some hstep.2⟩
  | addAt index name op inputs outputs =>
    have hstep := h.addAt index name op inputs outputs
    exact ⟨hstep.1, congrArg some hstep.2⟩
  | tensor name => exact ⟨h.register name, rfl⟩
  | setOutputs names =>
    have hstep := h.registerAll names
    exact ⟨⟨hstep.nodes, hstep.producers⟩, rfl⟩

theorem Alike.answers {g g' : Graph} (h : Alike g g') (cs : List Change) :
    g'.answers cs = g.answers cs := by
  induction cs generalizing g g' with
  | nil => rfl
  | cons c rest ih =>
    obtain ⟨hafter, hanswer⟩ := h.after c
    rw [Graph.answers, Graph.answers, hanswer, ih hafter]

/-- A hold shows in the answer to the corrected call, which asks for the first output alone. -/
theorem corrected_call_refused (g g' : Graph) (n : Node) (t : String)
    (hindex : n.index ∉ g.nodes.map (·.index)) (hnodes : g'.nodes = g.nodes)
    (hfree : g.producer? t = none) (hheld : g'.producer? t = some n) :
    g'.answers [.addAt n.index n.name (some n.op) n.inputs [t]] ≠
      g.answers [.addAt n.index n.name (some n.op) n.inputs [t]] := by
  have hfind : g.nodes.find? (·.index == n.index) = none := by
    rw [List.find?_eq_none]
    intro m hm hmi
    exact hindex (List.mem_map.mpr ⟨m, hm, by simpa using hmi⟩)
  have hok : g.answers [.addAt n.index n.name (some n.op) n.inputs [t]] =
      [some (.ok ⟨n.index, n.name, n.op, n.inputs, [t]⟩)] := by
    simp [Graph.answers, answer, addAt, hfind, takeOutputs, producer?_register,
      producer?_registerAll, hfree]
  have herror : g'.answers [.addAt n.index n.name (some n.op) n.inputs [t]] =
      [some (.error (.alreadyProduced n.name t n.name))] := by
    simp [Graph.answers, answer, addAt, hnodes, hfind, takeOutputs, producer?_register,
      producer?_registerAll, hheld]
  rw [hok, herror]
  simp

/-! ### One rejected call -/

theorem rejected_frame (g : Graph) (c : Change) (r : Rejection)
    (h : g.answer c = some (.error r)) :
    (g.after c).nodes = g.nodes ∧ (g.after c).outputs = g.outputs ∧
      (g.after c).name = g.name := by
  obtain ⟨index, name, op, inputs, outputs, hadd, -⟩ := answer_eq_some g c _ h
  have hname := addAt_name g index name op inputs outputs
  obtain ⟨-, houtputs, ⟨-, -, hnodes⟩ | ⟨o, -, hok, -⟩⟩ := addAt_cases g index name op inputs outputs
  · rw [hadd] at hnodes houtputs hname
    exact ⟨hnodes, houtputs, hname⟩
  · rw [hadd] at hok
    cases hok

theorem rejected_alike_iff (g : Graph) (c : Change) (r : Rejection)
    (h : g.answer c = some (.error r)) : Alike g (g.after c) ↔ ¬ g.LeavesHold c := by
  have hnodes := (rejected_frame g c r h).1
  rcases rejected_cases g c r h with ⟨hearly, hsame⟩ | ⟨n, taken, t, hreaches, hstops⟩
  · rw [hsame]
    refine iff_of_true ⟨rfl, fun _ => rfl⟩ ?_
    rintro ⟨n, -, -, hn, -⟩
    exact hearly n hn
  · have hkept := hstops.producers_kept_iff
    simp only [producer?_registerAll] at hkept
    rw [hstops.leavesHold_iff h hreaches, ne_eq, Classical.not_not, ← hkept]
    exact ⟨Alike.producers, fun hp => ⟨hnodes, hp⟩⟩

theorem registerAll_of_registered (g : Graph) (ts : List String) (h : ∀ t ∈ ts, t ∈ g.registered) :
    g.registerAll ts = g := by
  induction ts with
  | nil => rfl
  | cons t rest ih =>
    rw [List.forall_mem_cons] at h
    have hsame : g.register t = g := by
      rcases register_cases g t with ⟨-, hsame⟩ | ⟨hnew, -⟩
      · exact hsame
      · exact absurd h.1 hnew
    have hrest := ih h.2
    rw [registerAll] at hrest ⊢
    rw [List.foldl_cons, hsame, hrest]

theorem rejected_unchanged_iff (g : Graph) (c : Change) (r : Rejection)
    (h : g.answer c = some (.error r)) :
    g.after c = g ↔ ¬ g.LeavesHold c ∧ ¬ g.LeavesInput c := by
  rcases rejected_cases g c r h with ⟨hearly, hsame⟩ | ⟨n, taken, t, hreaches, hstops⟩
  · refine iff_of_true hsame ⟨?_, ?_⟩
    · rintro ⟨n, -, -, hn, -⟩
      exact hearly n hn
    · rintro ⟨n, -, -, hn, -⟩
      exact hearly n hn
  · constructor
    · intro hsame
      refine ⟨(rejected_alike_iff g c r h).mp (hsame.symm ▸ ⟨rfl, fun _ => rfl⟩), ?_⟩
      rintro ⟨m, -, x, hm, -, hx, hnew⟩
      obtain rfl := Option.some.inj (hm.1.symm.trans hreaches.1)
      have hseen := (hstops.registered x).mpr (.inl ((mem_registered_registerAll g _ x).mpr (.inr hx)))
      rw [hsame] at hseen
      exact hnew hseen
    · rintro ⟨hhold, hinput⟩
      have hnil : taken = [] := by
        rw [hstops.leavesHold_iff h hreaches, ne_eq, Classical.not_not] at hhold
        exact hhold
      have hinputs : ∀ x ∈ n.inputs, x ∈ g.registered := by
        intro x hx
        by_cases hseen : x ∈ g.registered
        · exact hseen
        · exact absurd ⟨n, r, x, hreaches, h, hx, hseen⟩ hinput
      -- the refused output has a producer, so it is registered as well
      have hheld : g.producer? t ≠ none := by
        have hrefused := hstops.refused
        rw [hnil, producer?_registerAll] at hrefused
        exact hrefused.resolve_left List.not_mem_nil
      have hregistered : t ∈ g.registered := by
        obtain ⟨p, hp⟩ := Option.ne_none_iff_exists'.mp hheld
        exact registered_of_producer? g t p hp
      have hregister := registerAll_of_registered g [t] (by simpa using hregistered)
      rw [hstops.at_once hnil, registerAll_of_registered g n.inputs hinputs]
      exact hregister

/-- Later calls get the answers they would get without the rejected one, unless it left a hold. -/
theorem rejected_answers_iff (g : Graph) (c : Change) (r : Rejection)
    (h : g.answer c = some (.error r)) :
    (∀ later, (g.after c).answers later = g.answers later) ↔ ¬ g.LeavesHold c := by
  constructor
  · rintro hsame ⟨n, r', t, hreaches, -, hhead, hfree⟩
    rcases rejected_cases g c r h with ⟨hearly, -⟩ | ⟨m, taken, u, hm, hstops⟩
    · exact hearly n hreaches
    · obtain rfl := Option.some.inj (hreaches.1.symm.trans hm.1)
      have hmem : t ∈ taken := hstops.head_taken hhead (by rw [producer?_registerAll]; exact hfree)
      have hheld : (g.after c).producer? t = some n := by rw [hstops.producers, if_pos hmem]
      exact corrected_call_refused g (g.after c) n t hreaches.2 (rejected_frame g c r h).1 hfree
        hheld (hsame _)
  · intro hhold later
    exact ((rejected_alike_iff g c r h).mpr hhold).answers later

/-! ### Runs -/

/-- A call adds a node, is rejected, or changes neither nodes nor producers. -/
theorem after_cases (g : Graph) (c : Change) :
    (∃ n, Added g n (g.after c)) ∨ (∃ r, g.answer c = some (.error r)) ∨ Alike g (g.after c) := by
  have haddAt : ∀ index name op inputs outputs,
      (∃ n, Added g n (g.addAt index name op inputs outputs).1) ∨
        ∃ r, some (g.addAt index name op inputs outputs).2 = some (.error r) := by
    intro index name op inputs outputs
    obtain ⟨-, -, ⟨r, hr, -⟩ | ⟨o, -, -, hadded⟩⟩ := addAt_cases g index name op inputs outputs
    · exact .inr ⟨r, congrArg some hr⟩
    · exact .inl ⟨_, hadded⟩
  cases c with
  | add name op inputs outputs => exact (haddAt g.nodes.length name op inputs outputs).imp_right .inl
  | addAt index name op inputs outputs => exact (haddAt index name op inputs outputs).imp_right .inl
  | tensor name => exact .inr (.inr ⟨register_nodes g name, producer?_register g name⟩)
  | setOutputs names => exact .inr (.inr ⟨registerAll_nodes g names, producer?_registerAll g names⟩)

theorem ProducersListed.of_alike {g g' : Graph} (h : g.ProducersListed) (halike : Alike g g') :
    g'.ProducersListed := by
  intro t n ht
  rw [halike.producers] at ht
  rw [halike.nodes]
  exact h t n ht

/-- One call without a hold keeps all producers among the nodes. -/
theorem ProducersListed.after {g : Graph} (h : g.ProducersListed) (c : Change)
    (hclean : ¬ g.LeavesHold c) : (g.after c).ProducersListed := by
  rcases after_cases g c with ⟨n, hadded⟩ | ⟨r, hr⟩ | halike
  · exact h.of_added hadded
  · exact h.of_alike ((rejected_alike_iff g c r hr).mpr hclean)
  · exact h.of_alike halike

/-- A producer that is no node of the graph. -/
def Stray (g : Graph) (t : String) (n : Node) : Prop :=
  g.producer? t = some n ∧ t ∈ n.outputs ∧ n ∉ g.nodes

theorem LeavesHold.stray {g : Graph} {c : Change} (h : g.LeavesHold c) :
    ∃ t n, (g.after c).Stray t n := by
  obtain ⟨n, r, t, hreaches, hr, hhead, hfree⟩ := h
  rcases rejected_cases g c r hr with ⟨hearly, -⟩ | ⟨m, taken, u, hm, hstops⟩
  · exact absurd hreaches (hearly n)
  · obtain rfl := Option.some.inj (hreaches.1.symm.trans hm.1)
    have hmem : t ∈ taken := hstops.head_taken hhead (by rw [producer?_registerAll]; exact hfree)
    refine ⟨t, n, by rw [hstops.producers, if_pos hmem], List.mem_of_head? hhead, ?_⟩
    rw [(rejected_frame g c r hr).1]
    exact fun hn => hreaches.2 (List.mem_map.mpr ⟨n, hn, rfl⟩)

/-- A stray producer stays: the node could only be added if its outputs were free. -/
theorem Stray.after {g : Graph} {t : String} {n : Node} (h : g.Stray t n) (c : Change) :
    (g.after c).Stray t n := by
  obtain ⟨hheld, hout, hno⟩ := h
  refine ⟨(after_grows g c).producer_kept t n hheld, hout, ?_⟩
  rcases after_cases g c with ⟨m, hadded⟩ | ⟨r, hr⟩ | halike
  · rw [hadded.nodes, List.mem_append, List.mem_singleton]
    rintro (hn | rfl)
    · exact hno hn
    · rw [hadded.outputs_free t hout] at hheld
      cases hheld
  · rw [(rejected_frame g c r hr).1]
    exact hno
  · rw [halike.nodes]
    exact hno

theorem Stray.afterAll {g : Graph} {t : String} {n : Node} (h : g.Stray t n) (cs : List Change) :
    (g.afterAll cs).Stray t n := by
  induction cs generalizing g with
  | nil => exact h
  | cons c rest ih => exact ih (h.after c)

/-- The producers are nodes of the graph after a run exactly if no call of it left a hold. -/
theorem producersListed_afterAll_iff (g : Graph) (cs : List Change) (h : g.ProducersListed) :
    (g.afterAll cs).ProducersListed ↔
      ∀ before c rest, cs = before ++ c :: rest → ¬ (g.afterAll before).LeavesHold c := by
  induction cs generalizing g with
  | nil => exact iff_of_true h fun before c rest hsplit => by simp at hsplit
  | cons c rest ih =>
    by_cases hhold : g.LeavesHold c
    · refine iff_of_false (fun hlisted => ?_) fun hall => hall [] c rest rfl hhold
      obtain ⟨t, n, hstray⟩ := hhold.stray
      obtain ⟨hheld, -, hno⟩ := hstray.afterAll rest
      exact hno (hlisted t n hheld).1
    · refine (ih (g.after c) (h.after c hhold)).trans ⟨fun hall before d tail hsplit => ?_, ?_⟩
      · cases before with
        | nil =>
          obtain ⟨rfl, -⟩ := List.cons.inj hsplit
          exact hhold
        | cons b before =>
          obtain ⟨rfl, hrest⟩ := List.cons.inj hsplit
          exact hall before d tail hrest
      · intro hall before d tail hsplit
        exact hall (c :: before) d tail (by rw [hsplit]; rfl)

/-- A rejected call on a graph built by calls keeps nodes, terminal tensors and name. It changes
nothing at all exactly if it left neither a hold on its first output nor a new input; the producers,
and the answers to all later calls, stay the same exactly if it left no hold. -/
theorem rejected_call_undone_iff (name : String) (cs : List Change) (c : Change) (r : Rejection)
    (h : ((empty name).afterAll cs).answer c = some (.error r)) :
    let g := (empty name).afterAll cs
    ((g.after c).nodes = g.nodes ∧ (g.after c).outputs = g.outputs ∧ (g.after c).name = g.name) ∧
      (g.after c = g ↔ ¬ g.LeavesHold c ∧ ¬ g.LeavesInput c) ∧
      ((∀ t, (g.after c).producer? t = g.producer? t) ↔ ¬ g.LeavesHold c) ∧
      ((∀ later, (g.after c).answers later = g.answers later) ↔ ¬ g.LeavesHold c) ∧
      (g.ProducersListed ↔ ∀ before d rest, cs = before ++ d :: rest →
        ¬ ((empty name).afterAll before).LeavesHold d) := by
  intro g
  have hframe := rejected_frame g c r h
  have halike := rejected_alike_iff g c r h
  have hempty : (empty name).ProducersListed := by
    intro t n ht
    cases ht
  refine ⟨hframe, rejected_unchanged_iff g c r h, ?_, rejected_answers_iff g c r h,
    producersListed_afterAll_iff (empty name) cs hempty⟩
  rw [← halike]
  exact ⟨fun hp => ⟨hframe.1, hp⟩, Alike.producers⟩

def singleInput : List Change := [.add "x" (some ⟨"input", []⟩) [] ["t0"]]

theorem second_producer_undone :
    ((empty "Net").afterAll singleInput).answer (.add "late" (some ⟨"relu", []⟩) ["t0"] ["t0", "t1"]) =
        some (.error (.alreadyProduced "late" "t0" "x")) ∧
      ((empty "Net").afterAll singleInput).after (.add "late" (some ⟨"relu", []⟩) ["t0"] ["t0", "t1"]) =
        (empty "Net").afterAll singleInput := by
  refine ⟨rfl, ((rejected_call_undone_iff "Net" singleInput _ _ rfl).2.1).mpr ⟨?_, ?_⟩⟩
  · rintro ⟨n, -, t, ⟨hn, -⟩, -, ht, hfree⟩
    cases hn
    cases ht
    cases hfree
  · rintro ⟨n, -, x, ⟨hn, -⟩, -, hx, hnew⟩
    cases hn
    obtain rfl : x = "t0" := by simpa using hx
    exact hnew (List.mem_singleton.mpr rfl)

/-- The node `pair` is rejected for its second output and keeps its first one. The corrected call is
rejected as well, because of a node that is not in the graph. -/
theorem rejected_pair_keeps_first_output :
    let g := (empty "Net").afterAll singleInput
    let pair : Node := ⟨1, "pair", ⟨"chunk", []⟩, ["t0"], ["t1", "t0"]⟩
    let rejected : Change := .add "pair" (some ⟨"chunk", []⟩) ["t0"] ["t1", "t0"]
    let corrected : Change := .add "pair" (some ⟨"chunk", []⟩) ["t0"] ["t1", "t2"]
    g.answer rejected = some (.error (.alreadyProduced "pair" "t0" "x")) ∧
      g.answer corrected = some (.ok ⟨1, "pair", ⟨"chunk", []⟩, ["t0"], ["t1", "t2"]⟩) ∧
      g.after rejected ≠ g ∧ (g.after rejected).producer? "t1" = some pair ∧
      pair ∉ (g.after rejected).nodes ∧
      (g.after rejected).answer corrected =
        some (.error (.alreadyProduced "pair" "t1" "pair")) := by
  refine ⟨rfl, rfl, fun hsame => ?_, rfl, fun hmem => ?_, rfl⟩
  · have hregister := congrArg (·.tensors.length) hsame
    cases hregister
  · have hname := List.mem_map_of_mem (f := Node.name) hmem
    revert hname
    decide

end Netscribe.Graph
