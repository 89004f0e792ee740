import Netscribe.Proofs.Failure
import Netscribe.Proofs.Registration

/-!
# Graphs built by calls are consistent

A graph is built by calls, of which any may fail, and a failed call may leave tensors and producers
behind. Still the nodes that were added have distinct indices, and each is the producer of its own
outputs: `after_consistent` shows it of one call, `afterAll_consistent` of any sequence of calls. A
pass over such a graph never meets a tensor or an index a second time.
-/

namespace Netscribe.Graph

/-- A call that may change a graph. -/
inductive Change where
  | add (name : String) (op : Option Operator) (inputs outputs : List String)
  | addAt (index : Int) (name : String) (op : Option Operator) (inputs outputs : List String)
  | tensor (name : String)
  | setOutputs (names : List String)

def after (g : Graph) : Change → Graph
  | .add name op inputs outputs => (g.add name op inputs outputs).1
  | .addAt index name op inputs outputs => (g.addAt index name op inputs outputs).1
  | .tensor name => g.register name
  | .setOutputs names => g.setOutputs names

def afterAll (g : Graph) (cs : List Change) : Graph := cs.foldl after g

/-- What holds of a graph between calls. A tensor is registered once, so that the registered tensor of
a name is the only one there is. -/
structure Consistent (g : Graph) : Prop where
  indices_nodup : (g.nodes.map (·.index)).Nodup
  outputs_nodup : (g.nodes.flatMap (·.outputs)).Nodup
  outputs_held : ∀ n ∈ g.nodes, ∀ t ∈ n.outputs, g.producer? t = some n
  registered_nodup : g.registered.Nodup
  tensors_registered : ∀ n ∈ g.nodes, ∀ t ∈ n.inputs ++ n.outputs, t ∈ g.registered
  terminals_registered : ∀ t ∈ g.outputs, t ∈ g.registered

theorem empty_consistent (name : String) : (empty name).Consistent := by
  refine ⟨List.nodup_nil, List.nodup_nil, ?_, List.nodup_nil, ?_, ?_⟩
  · intro n hn
    cases hn
  · intro n hn
    cases hn
  · intro t ht
    cases ht

/-- A graph with the same nodes and a larger register is consistent, if its terminal tensors are
registered. -/
theorem Consistent.of_grows {g g' : Graph} (h : g.Consistent) (hgrows : Grows g g')
    (hnodes : g'.nodes = g.nodes) (houtputs : ∀ t ∈ g'.outputs, t ∈ g'.registered) :
    g'.Consistent where
  indices_nodup := by rw [hnodes]; exact h.indices_nodup
  outputs_nodup := by rw [hnodes]; exact h.outputs_nodup
  outputs_held := by
    rw [hnodes]
    exact fun n hn t ht => hgrows.producer_kept t n (h.outputs_held n hn t ht)
  registered_nodup := hgrows.registered_nodup h.registered_nodup
  tensors_registered := by
    rw [hnodes]
    exact fun n hn t ht => hgrows.registered_subset (h.tensors_registered n hn t ht)
  terminals_registered := houtputs

/-- The outputs of a new node were free, so no other node has them. -/
theorem Consistent.of_added {g g' : Graph} {n : Node} (h : g.Consistent) (hgrows : Grows g g')
    (hadded : Added g n g') (houtputs : g'.outputs = g.outputs) : g'.Consistent := by
  have hown : ∀ t ∈ n.outputs, g'.producer? t = some n := by
    intro t ht
    rw [hadded.producers, if_pos ht]
  have hnodes : ∀ m, m ∈ g'.nodes ↔ m ∈ g.nodes ∨ m = n := by
    intro m
    rw [hadded.nodes, List.mem_append, List.mem_singleton]
  refine ⟨?_, ?_, fun m hm t ht => ?_, hgrows.registered_nodup h.registered_nodup,
    fun m hm t ht => ?_, fun t ht => ?_⟩
  · rw [hadded.nodes, List.map_append, List.map_singleton, List.nodup_append]
    refine ⟨h.indices_nodup, by simp, fun i hi j hj hij => ?_⟩
    obtain rfl : j = n.index := by simpa using hj
    exact hadded.index_new (hij ▸ hi)
  · rw [hadded.nodes, List.flatMap_append, List.flatMap_singleton, List.nodup_append]
    refine ⟨h.outputs_nodup, hadded.outputs_nodup, fun x hx y hy hxy => ?_⟩
    obtain ⟨m, hm, hxm⟩ := List.mem_flatMap.mp hx
    have hheld := h.outputs_held m hm x hxm
    rw [hxy, hadded.outputs_free y hy] at hheld
    cases hheld
  · rcases (hnodes m).mp hm with hm | rfl
    · exact hgrows.producer_kept t m (h.outputs_held m hm t ht)
    · exact hown t ht
  · rcases (hnodes m).mp hm with hm | rfl
    · exact hgrows.registered_subset (h.tensors_registered m hm t ht)
    · rcases List.mem_append.mp ht with ht | ht
      · exact hadded.inputs_registered t ht
      · exact registered_of_producer? g' t m (hown t ht)
  · rw [houtputs] at ht
    exact hgrows.registered_subset (h.terminals_registered t ht)

/-! ### Calls -/

theorem after_grows (g : Graph) (c : Change) : Grows g (g.after c) := by
  cases c with
  | add name op inputs outputs => exact (addAt_cases g g.nodes.length name op inputs outputs).1
  | addAt index name op inputs outputs => exact (addAt_cases g index name op inputs outputs).1
  | tensor name => exact register_grows g name
  | setOutputs names =>
    have h := registerAll_grows g names
    exact ⟨h.1, h.2, h.3⟩

theorem addAt_consistent (g : Graph) (h : g.Consistent) (index : Int) (name : String)
    (op : Option Operator) (inputs outputs : List String) :
    (g.addAt index name op inputs outputs).1.Consistent := by
  obtain ⟨hgrows, houtputs, ⟨r, -, hnodes⟩ | ⟨o, -, -, hadded⟩⟩ :=
    addAt_cases g index name op inputs outputs
  · refine h.of_grows hgrows hnodes fun t ht => ?_
    rw [houtputs] at ht
    exact hgrows.registered_subset (h.terminals_registered t ht)
  · exact h.of_added hgrows hadded houtputs

theorem after_consistent (g : Graph) (c : Change) (h : g.Consistent) : (g.after c).Consistent := by
  cases c with
  | add name op inputs outputs => exact addAt_consistent g h g.nodes.length name op inputs outputs
  | addAt index name op inputs outputs => exact addAt_consistent g h index name op inputs outputs
  | tensor name =>
    have hgrows := register_grows g name
    refine h.of_grows hgrows (register_nodes g name) fun t ht => ?_
    rw [after, register_outputs] at ht
    exact hgrows.registered_subset (h.terminals_registered t ht)
  | setOutputs names =>
    refine h.of_grows (after_grows g (.setOutputs names)) (registerAll_nodes g names) fun t ht => ?_
    exact (mem_registered_registerAll g names t).mpr (.inr ht)

theorem afterAll_consistent (g : Graph) (cs : List Change) (h : g.Consistent) :
    (g.afterAll cs).Consistent := by
  induction cs generalizing g with
  | nil => exact h
  | cons c rest ih => exact ih (g.after c) (after_consistent g c h)

theorem afterAll_grows (g : Graph) (cs : List Change) : Grows g (g.afterAll cs) := by
  induction cs generalizing g with
  | nil => exact Grows.refl g
  | cons c rest ih => exact (after_grows g c).trans (ih (g.after c))

/-- Calls of any kind and outcome on an empty graph leave a consistent graph, in which each tensor
keeps the producer that it got first. No pass over it fails for a second definition or index. -/
theorem built_graph_consistent (name : String) (cs : List Change) :
    ((empty name).afterAll cs).Consistent ∧
      (∀ (later : List Change) (t : String) (n : Node),
        ((empty name).afterAll cs).producer? t = some n →
          ((empty name).afterAll (cs ++ later)).producer? t = some n) ∧
      ∀ (o : Options) (e : EmissionError),
        Generation.build o ((empty name).afterAll cs) = .error (.error e) →
        (∀ r, e.reason ≠ .redefinition r) ∧
          ∀ node index other, e.reason ≠ .rejected (.duplicateIndex node index other) := by
  have hconsistent := afterAll_consistent (empty name) cs (empty_consistent name)
  refine ⟨hconsistent, fun later t n ht => ?_, fun o e he => ?_⟩
  · rw [afterAll, List.foldl_append]
    exact (afterAll_grows _ later).producer_kept t n ht
  · obtain ⟨hredefinition, hrejected⟩ := Generation.build_error_of_nodup o _ e
      hconsistent.indices_nodup hconsistent.outputs_nodup he
    exact ⟨hredefinition, fun node index other => hrejected _⟩

/-- Calls of which three fail: `again` for its index, `pair` for its second output, and `late` for the
first output of `pair`, which the rejected node still holds. -/
def interruptedCalls : List Change :=
  [.addAt 3 "x" (some ⟨"input", []⟩) [] ["t0"],
   .addAt 3 "again" (some ⟨"relu", []⟩) ["t0"] ["t1"],
   .add "pair" (some ⟨"chunk", []⟩) ["t0"] ["t1", "t0"],
   .add "late" (some ⟨"relu", []⟩) ["t0"] ["t1"],
   .tensor "spare",
   .add "act" (some ⟨"relu", []⟩) ["t0"] ["t2"],
   .setOutputs ["t2", "t1"]]

theorem interrupted_calls_consistent :
    (((empty "Net").afterAll interruptedCalls).nodes.map (·.name) = ["x", "act"] ∧
      (((empty "Net").afterAll interruptedCalls).producer? "t1").map (·.name) = some "pair") ∧
      ((empty "Net").afterAll interruptedCalls).Consistent ∧
      ∃ e, Generation.build {} ((empty "Net").afterAll interruptedCalls) = .error (.error e) ∧
        (∀ r, e.reason ≠ .redefinition r) ∧
        ∀ node index other, e.reason ≠ .rejected (.duplicateIndex node index other) := by
  obtain ⟨hconsistent, -, hbuild⟩ := built_graph_consistent "Net" interruptedCalls
  refine ⟨⟨rfl, rfl⟩, hconsistent, _, rfl, ?_⟩
  exact hbuild {} _ rfl

end Netscribe.Graph
