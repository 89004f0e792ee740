/-!
# Quantized modules

The modules of the quantization runtime that replace operators, the import of the runtime, and the
module that wraps an operator without a replacement.
-/

namespace Netscribe.Quantization

def runtimeImport : String := "import pytorch_nndct as py_nndct"

/-- The module that wraps an operator without a replacement; it takes the operator type first. -/
def fallbackModule : String := "py_nndct.nn.Module"

def modules : List (String × String) :=
  [("conv1d", "py_nndct.nn.Conv1d"),
   ("conv2d", "py_nndct.nn.Conv2d"),
   ("conv3d", "py_nndct.nn.Conv3d"),
   ("depthwise_conv2d", "py_nndct.nn.Conv2d"),
   ("conv_transpose2d", "py_nndct.nn.ConvTranspose2d"),
   ("dense", "py_nndct.nn.Linear"),
   ("batch_norm", "py_nndct.nn.BatchNorm"),
   ("maxpool2d", "py_nndct.nn.MaxPool2d"),
   ("avgpool2d", "py_nndct.nn.AvgPool2d"),
   ("adaptive_avgpool2d", "py_nndct.nn.AdaptiveAvgPool2d"),
   ("relu", "py_nndct.nn.ReLU"),
   ("leaky_relu", "py_nndct.nn.LeakyReLU"),
   ("hardtanh", "py_nndct.nn.Hardtanh"),
   ("sigmoid", "py_nndct.nn.Sigmoid"),
   ("tanh", "py_nndct.nn.Tanh"),
   ("add", "py_nndct.nn.Add"),
   ("cat", "py_nndct.nn.Cat"),
   ("mean", "py_nndct.nn.Mean"),
   ("interpolate", "py_nndct.nn.Interpolate"),
   ("lstm", "py_nndct.nn.LSTM")]

end Netscribe.Quantization
