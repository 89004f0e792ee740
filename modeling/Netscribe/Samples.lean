import Netscribe.Graph

/-!
# Sample graphs

Four small graphs that together use every way to emit a node, with the variants that a recorded
source exists for.
-/

namespace Netscribe

/-- A named graph with the variants that it is generated under. -/
structure Sample where
  name : String
  graph : Graph
  variants : List String

namespace Sample

def recordName (variant : String) : String := variant ++ ".py.golden"

structure Spec where
  name : String
  type : String
  attributes : List (String × Value)
  inputs : List String
  outputs : List String

/-- The graph of the given nodes, each at its position. -/
def graphOf (name : String) (outputs : List String) (specs : List Spec) : Graph :=
  let add (g : Graph) (s : Spec) : Graph :=
    let attributes := s.attributes.map fun (k, v) => Attribute.mk k v
    (g.add s.name (some ⟨s.type, attributes⟩) s.inputs s.outputs).1
  (specs.foldl add (.empty name)).setOutputs outputs

def linearActivation : Graph :=
  graphOf "Net" ["t2"]
    [⟨"x", "input", [], [], ["t0"]⟩,
     ⟨"dense_0", "dense", [("in_features", .int 4), ("out_features", .int 2)], ["t0"], ["t1"]⟩,
     ⟨"act", "sigmoid", [], ["t1"], ["t2"]⟩]

/-- Modules, functions with tensor attributes, a method with two outputs, and two terminal tensors. -/
def residualBlock : Graph :=
  graphOf "ResBlock" ["t7", "t8"]
    [⟨"data", "input", [], [], ["t0"]⟩,
     ⟨"conv", "conv2d",
      [("bias", .bool true), ("in_channels", .int 3), ("out_channels", .int 8),
       ("kernel_size", .ints [3, 3]), ("stride", .ints [1, 1]), ("padding", .ints [1, 1])],
      ["t0"], ["t1"]⟩,
     ⟨"relu", "relu", [("inplace", .bool false)], ["t1"], ["t2"]⟩,
     ⟨"skip", "add", [("input", .tensor "t2"), ("other", .tensor "t1"), ("alpha", .int 1)],
      ["t2", "t1"], ["t3"]⟩,
     ⟨"split", "chunk", [("chunks", .int 2), ("dim", .int 1)], ["t3"], ["t4", "t5"]⟩,
     ⟨"merge", "cat", [("tensors", .list [.tensor "t5", .tensor "t4"]), ("dim", .int 1)],
      ["t5", "t4"], ["t6"]⟩,
     ⟨"flat", "flatten", [("start_dim", .int 1)], ["t6"], ["t7"]⟩,
     ⟨"shape", "size", [("dim", .int 0)], ["t7"], ["t8"]⟩]

/-- A recurrent layer, which has state and no quantized replacement. -/
def recurrent : Graph :=
  graphOf "Seq" ["t1"]
    [⟨"x", "input", [], [], ["t0"]⟩,
     ⟨"rnn", "gru",
      [("input_size", .int 16), ("hidden_size", .int 32), ("batch_first", .bool true)],
      ["t0"], ["t1", "t2"]⟩]

def plumbing : Graph :=
  graphOf "Plumbing" ["t9", "t6"]
    [⟨"a", "input", [], [], ["t0"]⟩,
     ⟨"b", "input", [], [], ["t1"]⟩,
     ⟨"w", "const",
      [("data", .list [.float (.ofInt 1), .float (.ofInt 2)]), ("dtype", .expr "torch.float32"),
       ("device", .str "cpu")],
      [], ["t2"]⟩,
     ⟨"pair", "tuple", [], ["t0", "t2"], ["t3"]⟩,
     ⟨"first", "index", [("index", .int 0)], ["t3"], ["t4"]⟩,
     ⟨"unpack", "tuple_unpack", [], ["t3"], ["t5", "t6"]⟩,
     ⟨"crop", "slice", [("dim", .int 1), ("start", .int 0), ("end", .int 2)], ["t1"], ["t7"]⟩,
     ⟨"same", "identity", [], ["t7"], ["t8"]⟩,
     ⟨"bag", "list", [], ["t4", "t8"], ["t9"]⟩]

def all : List Sample :=
  [⟨"linear_activation", linearActivation, ["plain", "quant"]⟩,
   ⟨"residual_block", residualBlock, ["plain", "quant"]⟩,
   ⟨"recurrent", recurrent, ["plain", "quant"]⟩,
   ⟨"plumbing", plumbing, ["plain"]⟩]

def find? (name : String) : Option Sample := all.find? (·.name == name)

end Sample

end Netscribe
