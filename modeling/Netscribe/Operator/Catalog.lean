import Netscribe.Operator.Table

/-!
# The default operator table

How the operators of PyTorch are called, and with which attributes in which order.
-/

namespace Netscribe.OperatorTable

def convolution : List String :=
  ["in_channels", "out_channels", "kernel_size", "stride", "padding", "dilation", "groups",
   "bias"]

def transposedConvolution : List String :=
  ["in_channels", "out_channels", "kernel_size", "stride", "padding", "output_padding", "groups",
   "bias", "dilation"]

def batchNorm : List String :=
  ["num_features", "eps", "momentum", "affine", "track_running_stats"]

def recurrent : List String :=
  ["input_size", "hidden_size", "num_layers", "bias", "batch_first", "dropout", "bidirectional"]

def modules : List (String × OperatorEntry) :=
  [("conv1d", ⟨.statefulModule, "torch.nn.Conv1d", convolution⟩),
   ("conv2d", ⟨.statefulModule, "torch.nn.Conv2d", convolution⟩),
   ("conv3d", ⟨.statefulModule, "torch.nn.Conv3d", convolution⟩),
   ("depthwise_conv2d", ⟨.statefulModule, "torch.nn.Conv2d", convolution⟩),
   ("conv_transpose2d", ⟨.statefulModule, "torch.nn.ConvTranspose2d", transposedConvolution⟩),
   ("dense", ⟨.statefulModule, "torch.nn.Linear", ["in_features", "out_features", "bias"]⟩),
   ("batch_norm", ⟨.statefulModule, "torch.nn.BatchNorm2d", batchNorm⟩),
   ("batch_norm1d", ⟨.statefulModule, "torch.nn.BatchNorm1d", batchNorm⟩),
   ("layer_norm", ⟨.statefulModule, "torch.nn.LayerNorm",
      ["normalized_shape", "eps", "elementwise_affine"]⟩),
   ("maxpool2d", ⟨.statefulModule, "torch.nn.MaxPool2d",
      ["kernel_size", "stride", "padding", "dilation", "return_indices", "ceil_mode"]⟩),
   ("avgpool2d", ⟨.statefulModule, "torch.nn.AvgPool2d",
      ["kernel_size", "stride", "padding", "ceil_mode", "count_include_pad"]⟩),
   ("adaptive_avgpool2d", ⟨.statefulModule, "torch.nn.AdaptiveAvgPool2d", ["output_size"]⟩),
   ("relu", ⟨.statefulModule, "torch.nn.ReLU", ["inplace"]⟩),
   ("relu6", ⟨.statefulModule, "torch.nn.ReLU6", ["inplace"]⟩),
   ("leaky_relu", ⟨.statefulModule, "torch.nn.LeakyReLU", ["negative_slope", "inplace"]⟩),
   ("hardtanh", ⟨.statefulModule, "torch.nn.Hardtanh", ["min_val", "max_val", "inplace"]⟩),
   ("prelu", ⟨.statefulModule, "torch.nn.PReLU", ["num_parameters", "init"]⟩),
   ("dropout", ⟨.statefulModule, "torch.nn.Dropout", ["p", "inplace"]⟩),
   ("upsample", ⟨.statefulModule, "torch.nn.Upsample",
      ["size", "scale_factor", "mode", "align_corners"]⟩),
   ("embedding", ⟨.statefulModule, "torch.nn.Embedding",
      ["num_embeddings", "embedding_dim", "padding_idx"]⟩),
   ("lstm", ⟨.statefulModule, "torch.nn.LSTM", recurrent⟩),
   ("gru", ⟨.statefulModule, "torch.nn.GRU", recurrent⟩)]

def functions : List (String × OperatorEntry) :=
  [("add", ⟨.freeFunction, "torch.add", ["input", "other", "alpha"]⟩),
   ("sub", ⟨.freeFunction, "torch.sub", ["input", "other", "alpha"]⟩),
   ("mul", ⟨.freeFunction, "torch.mul", ["input", "other"]⟩),
   ("div", ⟨.freeFunction, "torch.div", ["input", "other"]⟩),
   ("matmul", ⟨.freeFunction, "torch.matmul", ["input", "other"]⟩),
   ("cat", ⟨.freeFunction, "torch.cat", ["tensors", "dim"]⟩),
   ("stack", ⟨.freeFunction, "torch.stack", ["tensors", "dim"]⟩),
   ("flatten", ⟨.freeFunction, "torch.flatten", ["input", "start_dim", "end_dim"]⟩),
   ("mean", ⟨.freeFunction, "torch.mean", ["input", "dim", "keepdim"]⟩),
   ("sum", ⟨.freeFunction, "torch.sum", ["input", "dim", "keepdim"]⟩),
   ("exp", ⟨.freeFunction, "torch.exp", ["input"]⟩),
   ("sigmoid", ⟨.freeFunction, "torch.sigmoid", ["input"]⟩),
   ("tanh", ⟨.freeFunction, "torch.tanh", ["input"]⟩),
   ("gelu", ⟨.freeFunction, "torch.nn.functional.gelu", ["input", "approximate"]⟩),
   ("silu", ⟨.freeFunction, "torch.nn.functional.silu", ["input", "inplace"]⟩),
   ("softmax", ⟨.freeFunction, "torch.nn.functional.softmax", ["input", "dim"]⟩),
   ("interpolate", ⟨.freeFunction, "torch.nn.functional.interpolate",
      ["input", "size", "scale_factor", "mode", "align_corners"]⟩),
   ("pad", ⟨.freeFunction, "torch.nn.functional.pad", ["input", "pad", "mode", "value"]⟩),
   ("zeros", ⟨.freeFunction, "torch.zeros", ["size", "dtype", "device"]⟩),
   ("einsum", ⟨.freeFunction, "torch.einsum", OperatorEntry.genericTemplate⟩)]

def methods : List (String × OperatorEntry) :=
  [("reshape", ⟨.methodCall, "reshape", ["shape"]⟩),
   ("view", ⟨.methodCall, "view", ["size"]⟩),
   ("permute", ⟨.methodCall, "permute", ["dims"]⟩),
   ("transpose", ⟨.methodCall, "transpose", ["dim0", "dim1"]⟩),
   ("contiguous", ⟨.methodCall, "contiguous", []⟩),
   ("squeeze", ⟨.methodCall, "squeeze", ["dim"]⟩),
   ("unsqueeze", ⟨.methodCall, "unsqueeze", ["dim"]⟩),
   ("chunk", ⟨.methodCall, "chunk", ["chunks", "dim"]⟩),
   ("size", ⟨.methodCall, "size", ["dim"]⟩),
   ("expand", ⟨.methodCall, "expand", ["size"]⟩),
   ("repeat", ⟨.methodCall, "repeat", ["sizes"]⟩),
   ("to", ⟨.methodCall, "to", ["dtype"]⟩)]

def builtins : List (String × OperatorEntry) :=
  [("int", ⟨.primitive, "int", []⟩),
   ("float", ⟨.primitive, "float", []⟩),
   ("len", ⟨.primitive, "len", []⟩)]

def default : OperatorTable := ⟨modules ++ functions ++ methods ++ builtins⟩

end Netscribe.OperatorTable
