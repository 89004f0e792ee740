import Netscribe.Proofs.Correspondence
import Netscribe.Proofs.Exchange

/-!
# The arguments of the forward method

A graph input takes an argument of the forward method: the one at the position it asks for, or else
the one whose position is the number of graph inputs emitted before. `bindsInput_emission` says this of
one node, and `inputUses_run` follows the count through further nodes of any kind by induction.
-/

namespace Netscribe

namespace Node

def isInput (n : Node) : Bool := n.op.type == "input"

def hasIndex (n : Node) : Bool := (n.op.attribute? "index").isSome

theorem override?_eq_input_iff (n : Node) : n.override? = some .input ↔ n.isInput = true := by
  constructor
  · intro h
    simpa [isInput] using n.type_of_override?_input h
  · intro h
    have htype : n.op.type = "input" := by simpa [isInput] using h
    rw [override?, htype]
    rfl

end Node

namespace Generation

def inputUses (g : Graph) (m : Module Assignment) : List (Node × Statement Assignment) :=
  (g.nodes.zip m.forwards).filter (·.1.isInput)

/-- The forward statement of a node binds its outputs to the argument at a position. -/
structure TakesArgument (n : Node) (s : Statement Assignment) (position : Int) : Prop where
  node : s.node = n.name
  index : s.index = n.index
  rhs : s.code.rhs = .argument position
  line : (s.map Assignment.text).line =
    commaJoin (Naming.outputNames n.index n.outputs.length) ++ " = args[" ++ decimalText position ++
      "]"

/-- The forward statement of a graph input behind `count` others: it takes the argument at its index,
or the one at position `count` if it has none. -/
def BindsInput (count : Nat) (n : Node) (s : Statement Assignment) : Prop :=
  (n.op.attribute? "index" = none ∧ TakesArgument n s count) ∨
    ∃ i : Int, n.op.attribute? "index" = some (.int i) ∧ TakesArgument n s i

/-! ### One node -/

theorem inputCount_append (earlier : List Node) (n : Node) :
    inputCount (earlier ++ [n]) = inputCount earlier + if n.isInput then 1 else 0 := by
  simp only [inputCount, List.countP_append, List.countP_singleton, decide_eq_true_eq,
    n.override?_eq_input_iff]

/-- An input is emitted as a statement that takes an argument, without a comment. -/
theorem takesArgument_emission (o : Options) (earlier : List Node) (n : Node)
    (hn : n.isInput = true) :
    TakesArgument n (emission o earlier n).use (Override.position (inputCount earlier) n) := by
  have hover := n.override?_eq_input_iff.mpr hn
  have hrhs : (emission o earlier n).use.code.rhs =
      .argument (Override.position (inputCount earlier) n) := by
    simp only [emission, Emission.form, hover]
    rfl
  have hcomment : (emission o earlier n).use.comment = "" := by
    simp only [emission, Emission.form, hover]
    rfl
  have huse := emission_useOf o earlier n
  have hline : ((emission o earlier n).use.map Assignment.text).line =
      (emission o earlier n).use.code.text := by
    simp only [Statement.map, Statement.line, hcomment]
    rfl
  refine ⟨huse.node, huse.index, hrhs, ?_⟩
  rw [hline, huse.text, hrhs, Rhs.text]
  simp only [String.append_assoc]
  rfl

theorem bindsInput_emission (o : Options) (earlier : List Node) (n : Node)
    (h : Admits o earlier n) (hn : n.isInput = true) :
    BindsInput (inputCount earlier) n (emission o earlier n).use := by
  have htakes := takesArgument_emission o earlier n hn
  have husable := h.emittable.usable .input (n.override?_eq_input_iff.mpr hn)
  unfold Override.position at htakes
  cases ha : n.op.attribute? "index" with
  | none =>
    rw [ha] at htakes
    exact .inl ⟨ha, htakes⟩
  | some v =>
    -- a value that is no integer is not usable
    obtain ⟨i, rfl⟩ := husable v ha
    rw [ha] at htakes
    exact .inr ⟨i, ha, htakes⟩

/-! ### All nodes -/

/-- Of nodes behind the given ones, the `j`-th input comes after all inputs before and `j` more. -/
theorem inputUses_run (o : Options) (earlier nodes : List Node) (h : AdmitsAll o earlier nodes)
    (j : Nat) (n : Node) (s : Statement Assignment)
    (hj : ((nodes.zip ((emissions o earlier nodes).map (·.use))).filter (·.1.isInput))[j]? =
      some (n, s)) :
    BindsInput (inputCount earlier + j) n s := by
  induction nodes generalizing earlier j with
  | nil => simp at hj
  | cons m rest ih =>
    obtain ⟨hm, hrest⟩ := h
    have hcount := inputCount_append earlier m
    simp only [emissions, List.map_cons, List.zip_cons_cons] at hj
    cases hinput : m.isInput with
    | false =>
      rw [List.filter_cons_of_neg (by simp [hinput])] at hj
      have hbinds := ih (earlier ++ [m]) hrest j hj
      simpa [hcount, hinput] using hbinds
    | true =>
      rw [List.filter_cons_of_pos (by simp [hinput])] at hj
      cases j with
      | zero =>
        obtain ⟨rfl, rfl⟩ : m = n ∧ (emission o earlier m).use = s := by simpa using hj
        exact bindsInput_emission o earlier m hm hinput
      | succ j =>
        have hbinds := ih (earlier ++ [m]) hrest j (by simpa using hj)
        rw [hcount, hinput, if_pos rfl] at hbinds
        rwa [Nat.add_assoc, Nat.add_comm 1 j] at hbinds

/-- Inputs that are counted one by one take increasing arguments, as far as they have no index. -/
theorem exists_increasing_positions (count : Nat) (uses : List (Node × Statement Assignment))
    (h : ∀ j n s, uses[j]? = some (n, s) → BindsInput (count + j) n s) :
    ∃ positions : List Int,
      List.Forall₂ (fun x p => TakesArgument x.1 x.2 p) (uses.filter (!·.1.hasIndex)) positions ∧
        positions.Pairwise (· < ·) ∧ ∀ p ∈ positions, (count : Int) ≤ p := by
  induction uses generalizing count with
  | nil => exact ⟨[], .nil, .nil, by simp⟩
  | cons x rest ih =>
    obtain ⟨n, s⟩ := x
    have hnext : ∀ j n' s', rest[j]? = some (n', s') → BindsInput (count + 1 + j) n' s' := by
      intro j n' s' hj
      have hbinds := h (j + 1) n' s' (by simpa using hj)
      rwa [Nat.add_comm j 1, ← Nat.add_assoc] at hbinds
    obtain ⟨positions, htakes, hincreasing, hlower⟩ := ih (count + 1) hnext
    have habove : ∀ p ∈ positions, (count : Int) < p := by
      intro p hp
      have hle := hlower p hp
      omega
    rcases h 0 n s rfl with ⟨hindex, hfirst⟩ | ⟨i, hindex, -⟩
    · refine ⟨count :: positions, ?_, .cons habove hincreasing, ?_⟩
      · rw [List.filter_cons_of_pos (by simp [Node.hasIndex, hindex])]
        exact .cons hfirst htakes
      · rw [List.forall_mem_cons]
        exact ⟨Int.le_refl _, fun p hp => Int.le_of_lt (habove p hp)⟩
    · refine ⟨positions, ?_, hincreasing, fun p hp => Int.le_of_lt (habove p hp)⟩
      rw [List.filter_cons_of_neg (by simp [Node.hasIndex, hindex])]
      exact htakes

/-- Every graph input has a forward statement. The one of the `j`-th input takes the argument at its
index, or the one at position `j` if it has none; so the inputs without an index take arguments at
increasing positions. -/
theorem inputs_take_arguments (o : Options) (g : Graph) (m : Module Assignment)
    (h : build o g = .ok m) :
    (inputUses g m).map (·.1) = g.nodes.filter (·.op.type == "input") ∧
      (∀ (j : Nat) n s, (inputUses g m)[j]? = some (n, s) →
        (n.op.attribute? "index" = none ∧ TakesArgument n s j) ∨
          ∃ i : Int, n.op.attribute? "index" = some (.int i) ∧ TakesArgument n s i) ∧
      ∃ positions : List Int,
        List.Forall₂ (fun x p => TakesArgument x.1 x.2 p)
          ((inputUses g m).filter (!·.1.hasIndex)) positions ∧
        positions.Pairwise (· < ·) := by
  obtain ⟨hadmitted, -, -⟩ := (build_yields o g).holds h
  obtain rfl := (build_yields o g).value h
  have hbinds : ∀ j n s, (inputUses g (moduleOf o g))[j]? = some (n, s) →
      BindsInput (0 + j) n s := inputUses_run o [] g.nodes hadmitted
  obtain ⟨positions, htakes, hincreasing, -⟩ := exists_increasing_positions 0 _ hbinds
  refine ⟨?_, fun j n s hj => ?_, positions, htakes, hincreasing⟩
  · have hlength := (emissions_uses o [] g.nodes).length_eq
    have hnodes : (g.nodes.zip (moduleOf o g).forwards).map (·.1) = g.nodes :=
      List.map_fst_zip (Nat.le_of_eq hlength)
    have hfilter := List.filter_map (p := Node.isInput) (f := Prod.fst)
      (l := g.nodes.zip (moduleOf o g).forwards)
    rw [hnodes] at hfilter
    exact hfilter.symm
  · have hj := hbinds j n s hj
    rwa [Nat.zero_add] at hj

/-- Inputs among other nodes: two with an index, one with two outputs, and one behind a layer. -/
def scatteredInputs : Graph :=
  Sample.graphOf "Scattered" ["t6"]
    [⟨"b", "input", [("index", .int 1)], [], ["t0"]⟩,
     ⟨"pair", "input", [], [], ["t1", "t2"]⟩,
     ⟨"act", "relu", [], ["t1"], ["t3"]⟩,
     ⟨"a", "input", [("index", .int 0), ("index", .int 7)], [], ["t4"]⟩,
     ⟨"layer", "dense", [("in_features", .int 4), ("out_features", .int 2)], ["t0"], ["t5"]⟩,
     ⟨"last", "input", [], [], ["t6"]⟩]

theorem scattered_inputs_take_arguments :
    ∃ m, build { policy := .quant [] } scatteredInputs = .ok m ∧
      (inputUses scatteredInputs m).map (fun x => (x.2.map Assignment.text).line) =
        ["self.output_module_0 = args[1]",
         "self.output_module_1_0,self.output_module_1_1 = args[1]",
         "self.output_module_3 = args[0]", "self.output_module_5 = args[3]"] ∧
      ∃ positions : List Int,
        List.Forall₂ (fun x p => TakesArgument x.1 x.2 p)
          ((inputUses scatteredInputs m).filter (!·.1.hasIndex)) positions ∧
        positions.Pairwise (· < ·) := by
  have hbuilt : ∃ m, build { policy := .quant [] } scatteredInputs = .ok m := ⟨_, rfl⟩
  obtain ⟨m, h⟩ := hbuilt
  obtain ⟨-, -, hpositions⟩ := inputs_take_arguments { policy := .quant [] } scatteredInputs m h
  refine ⟨m, h, ?_, hpositions⟩
  cases h
  rfl

end Generation

end Netscribe
