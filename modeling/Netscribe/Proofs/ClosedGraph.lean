import Netscribe.Document.Graph
import Netscribe.Proofs.Consistency
import Netscribe.Proofs.Outcome

/-!
# Graphs from documents are closed

A document gives a graph only if each of its nodes is added, so that no rejected node holds a tensor
of it, and only if every consumed and every terminal tensor has a producer. The producers are checked
after all nodes are added and whatever their order, while a pass goes through the nodes in order: what
can still be missing in a pass is a tensor whose producer comes later.
-/

namespace Netscribe

namespace Graph

def ProducersListed (g : Graph) : Prop :=
  ∀ t n, g.producer? t = some n → n ∈ g.nodes ∧ t ∈ n.outputs

def Produces (g : Graph) (t : String) : Prop :=
  ∃ n ∈ g.nodes, g.producer? t = some n ∧ t ∈ n.outputs

/-- What holds of the graph of a document: no two nodes share an index or an output, and every
consumed and every terminal tensor is produced. -/
structure Closed (g : Graph) : Prop where
  indices_nodup : (g.nodes.map (·.index)).Nodup
  outputs_nodup : (g.nodes.flatMap (·.outputs)).Nodup
  inputs_produced : ∀ n ∈ g.nodes, ∀ t ∈ n.inputs, g.Produces t
  terminals_produced : ∀ t ∈ g.outputs, g.Produces t

theorem ProducersListed.of_added {g g' : Graph} {n : Node} (h : g.ProducersListed)
    (hadded : Added g n g') : g'.ProducersListed := by
  intro t m ht
  rw [hadded.producers] at ht
  rw [hadded.nodes, List.mem_append, List.mem_singleton]
  by_cases hown : t ∈ n.outputs
  · rw [if_pos hown] at ht
    obtain rfl := Option.some.inj ht
    exact ⟨.inr rfl, hown⟩
  · rw [if_neg hown] at ht
    exact ⟨.inl (h t m ht).1, (h t m ht).2⟩

theorem ProducersListed.produces {g : Graph} (h : g.ProducersListed) (t : String)
    (ht : g.producer? t ≠ none) : g.Produces t := by
  cases hp : g.producer? t with
  | none => exact absurd hp ht
  | some n => exact ⟨n, (h t n hp).1, hp, (h t n hp).2⟩

end Graph

namespace Document

/-! ### Adding the nodes of a document -/

theorem addEntries_cons_ok (g g' : Graph) (i : Nat) (d : NodeEntry) (rest : List NodeEntry)
    (h : addEntries g i (d :: rest) = .ok g') :
    ∃ attributes g₁, attributesOf d.attrs = .ok attributes ∧
      g.Added ⟨d.index.getD i, d.name, ⟨d.op, attributes⟩, d.inputs, d.outputs⟩ g₁ ∧
      g.Grows g₁ ∧ g₁.outputs = g.outputs ∧ g₁.name = g.name ∧
      addEntries g₁ (i + 1) rest = .ok g' := by
  simp only [addEntries] at h
  cases ha : attributesOf d.attrs with
  | error e =>
    rw [ha] at h
    cases h
  | ok attributes =>
    have hcases := g.addAt_cases (d.index.getD i) d.name (some ⟨d.op, attributes⟩) d.inputs d.outputs
    have hname := g.addAt_name (d.index.getD i) d.name (some ⟨d.op, attributes⟩) d.inputs d.outputs
    rw [ha] at h
    change Except.bind (.ok attributes) _ = _ at h
    simp only [Except.bind] at h
    generalize g.addAt (d.index.getD i) d.name (some ⟨d.op, attributes⟩) d.inputs d.outputs = r
      at hcases hname h
    obtain ⟨g₁, result⟩ := r
    obtain ⟨hgrows, houtputs, ⟨r, hr, -⟩ | ⟨op, hop, hn, hadded⟩⟩ := hcases
    · dsimp only at hr
      subst hr
      cases h
    · cases hop
      dsimp only at hn
      subst hn
      exact ⟨attributes, g₁, rfl, hadded, hgrows, houtputs, hname, h⟩

theorem addEntries_listed (g g' : Graph) (i : Nat) (ds : List NodeEntry)
    (h : addEntries g i ds = .ok g') (hconsistent : g.Consistent) (hlisted : g.ProducersListed) :
    g'.Consistent ∧ g'.ProducersListed := by
  induction ds generalizing g i with
  | nil =>
    cases h
    exact ⟨hconsistent, hlisted⟩
  | cons d rest ih =>
    obtain ⟨_, g₁, -, hadded, hgrows, houtputs, -, hrest⟩ := addEntries_cons_ok g g' i d rest h
    exact ih g₁ (i + 1) hrest (hconsistent.of_added hgrows hadded houtputs) (hlisted.of_added hadded)

theorem unproduced?_eq_none (g : Graph) :
    unproduced? g = none ↔ ∀ n ∈ g.nodes, ∀ t ∈ n.inputs, g.producer? t ≠ none := by
  simp [unproduced?]

theorem graphOf_ok (e : GraphEntry) (g : Graph) (h : graphOf e = .ok g) :
    ∃ g₁, addEntries (.empty e.name) 0 e.nodes = .ok g₁ ∧
      (∀ n ∈ g₁.nodes, ∀ t ∈ n.inputs, g₁.producer? t ≠ none) ∧
      (∀ t ∈ e.outputs, g₁.producer? t ≠ none) ∧ g = g₁.setOutputs e.outputs := by
  obtain ⟨g₁, hadd, h⟩ := exists_of_bind_eq_ok h
  split at h
  · cases h
  · next hinputs =>
    split at h
    · cases h
    · next houtputs =>
      cases h
      refine ⟨g₁, hadd, (unproduced?_eq_none g₁).mp hinputs, ?_, rfl⟩
      rw [List.find?_eq_none] at houtputs
      intro t ht
      simpa using houtputs t ht

/-! ### The whole graph -/

theorem closed_of_graphOf (e : GraphEntry) (g : Graph) (h : graphOf e = .ok g) : g.Closed := by
  obtain ⟨g₁, hadd, hinputs, houtputs, rfl⟩ := graphOf_ok e g h
  have hempty : (Graph.empty e.name).ProducersListed := by
    intro t n ht
    cases ht
  obtain ⟨hconsistent, hlisted⟩ := addEntries_listed _ g₁ 0 e.nodes hadd
    (Graph.empty_consistent e.name) hempty
  -- declaring the terminal tensors changes no producer and no node
  have hnodes : (g₁.setOutputs e.outputs).nodes = g₁.nodes := g₁.registerAll_nodes e.outputs
  have hproduces : ∀ t, g₁.producer? t ≠ none → (g₁.setOutputs e.outputs).Produces t := by
    intro t ht
    obtain ⟨n, hn, hp, hout⟩ := hlisted.produces t ht
    refine ⟨n, by rw [hnodes]; exact hn, ?_, hout⟩
    exact (g₁.producer?_registerAll e.outputs t).trans hp
  refine ⟨?_, ?_, fun n hn t ht => ?_, fun t ht => hproduces t (houtputs t ht)⟩
  · rw [hnodes]
    exact hconsistent.indices_nodup
  · rw [hnodes]
    exact hconsistent.outputs_nodup
  · rw [hnodes] at hn
    exact hproduces t (hinputs n hn t ht)

theorem decode_ok (bytes : List UInt8) (g : Graph) (h : decode bytes = .ok g) :
    ∃ n e, parse bytes = .ok (some n) ∧ validateNode (some n) = .ok () ∧ entryOf n = .ok e ∧
      graphOf e = .ok g := by
  simp only [decode] at h
  cases hparse : parse bytes with
  | error x =>
    rw [hparse] at h
    cases h
  | ok n? =>
    rw [hparse] at h
    change decodeNode n? = .ok g at h
    simp only [decodeNode] at h
    cases hvalidate : validateNode n? with
    | error x =>
      rw [hvalidate] at h
      cases h
    | ok u =>
      rw [hvalidate] at h
      cases n? with
      | none => cases hvalidate
      | some n =>
        cases hentry : entryOf n with
        | error x =>
          simp only [hentry] at h
          cases h
        | ok e =>
          simp only [hentry] at h
          exact ⟨n, e, rfl, hvalidate, hentry, h⟩

theorem graphOf_of_decode (bytes : List UInt8) (g : Graph) (h : decode bytes = .ok g) :
    ∃ e, graphOf e = .ok g := by
  obtain ⟨_, e, -, -, -, hgraph⟩ := decode_ok bytes g h
  exact ⟨e, hgraph⟩

end Document

namespace Generation

/-- The node at `k` consumes a tensor that the node at the later position `j` produces. -/
def ConsumedEarly (g : Graph) (t : String) : Prop :=
  ∃ (k j : Nat) (n p : Node), k < j ∧ g.nodes[k]? = some n ∧ g.nodes[j]? = some p ∧
    t ∈ n.inputs ∧ t ∈ p.outputs

/-- A tensor that a graph produces and that is not produced up to a node is produced later. -/
theorem consumedEarly_of_unproduced (g : Graph) (k : Nat) (n : Node) (hk : g.nodes[k]? = some n)
    (t : String) (hin : t ∈ n.inputs) (hproduced : g.Produces t)
    (hmissing : t ∉ (g.nodes.take k ++ [n]).flatMap (·.outputs)) : ConsumedEarly g t := by
  obtain ⟨p, hp, -, hout⟩ := hproduced
  obtain ⟨j, hj⟩ := List.mem_iff_getElem?.mp hp
  refine ⟨k, j, n, p, ?_, hk, hj, hin, hout⟩
  apply Nat.lt_of_not_le
  intro hjk
  apply hmissing
  rw [take_append_node g.nodes k n hk, mem_outputs_take]
  exact ⟨j, p, by omega, hj, hout⟩

/-- The graph of a document is closed, and a pass over it fails neither for a second definition nor
for a terminal tensor; a producer is missing only where a node comes before the producer of what it
consumes. -/
theorem decoded_graph_closed (bytes : List UInt8) (g : Graph) (h : Document.decode bytes = .ok g) :
    g.Closed ∧
      ∀ (o : Options) (e : EmissionError), build o g = .error (.error e) →
        (∀ r, e.reason ≠ .redefinition r) ∧ (∀ e', e ≠ .inOutputs e') ∧
        ∀ m, e.reason = .missingProducer m → ConsumedEarly g m.tensor := by
  obtain ⟨x, hx⟩ := Document.graphOf_of_decode bytes g h
  have hclosed := Document.closed_of_graphOf x g hx
  refine ⟨hclosed, fun o e he => ?_⟩
  have hdistinct := build_error_of_nodup o g e hclosed.indices_nodup hclosed.outputs_nodup he
  refine ⟨hdistinct.1, ?_⟩
  rcases build_fails o g (.error e) he with ⟨k, n, hk, hfault⟩ | hlocal | ⟨m, rfl, hterminal, hmissing⟩
  · refine ⟨hfault.not_inOutputs, fun m hm => ?_⟩
    obtain ⟨hin, hunproduced⟩ := hfault.unproduced m hm
    have hproduced := hclosed.inputs_produced n (List.mem_of_getElem? hk) m.tensor hin
    exact consumedEarly_of_unproduced g k n hk m.tensor hin hproduced hunproduced
  · have hreason := (EmissionError.reason_of_isLocal e hlocal).2.2
    refine ⟨?_, fun m hm => absurd hm (hreason m)⟩
    rintro e' rfl
    cases hlocal
  · -- every terminal tensor of a closed graph is an output of a node
    obtain ⟨p, hp, -, hout⟩ := hclosed.terminals_produced m.tensor hterminal
    exact absurd (List.mem_flatMap.mpr ⟨p, hp, hout⟩) hmissing

def reversedDocument : List UInt8 :=
  Utf8.encode ("\x7bname: N, outputs: [a], nodes: [\x7bname: f, op: relu, inputs: [b], outputs: [a]\x7d, " ++
    "\x7bname: x, op: input, outputs: [b]\x7d]\x7d")

def missesProducer (bytes : List UInt8) : Bool :=
  match Document.decode bytes with
  | .error _ => false
  | .ok g =>
    match build {} g with
    | .error (.error (.missingProducer _)) => true
    | _ => false

theorem reversed_document_consumes_early :
    ∃ g e m, Document.decode reversedDocument = .ok g ∧ build {} g = .error (.error e) ∧
      e.reason = .missingProducer m ∧ g.Closed ∧ ConsumedEarly g m.tensor := by
  have htest : missesProducer reversedDocument = true := by decide +kernel
  unfold missesProducer at htest
  split at htest
  · cases htest
  · next g hg =>
    split at htest
    · next m hm =>
      obtain ⟨hclosed, hbuild⟩ := decoded_graph_closed reversedDocument g hg
      exact ⟨g, _, m, hg, hm, rfl, hclosed, (hbuild {} _ hm).2.2 m rfl⟩
    · cases htest

end Generation

end Netscribe
