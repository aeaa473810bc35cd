import HeteroNet.Compute.Conv
import HeteroNet.Compute.Pool
import HeteroNet.Compute.Concat
import HeteroNet.Compute.FullyConnected
import HeteroNet.Compute.Softmax
import HeteroNet.Compute.Elementwise

/-
A kernel with all it needs but its buffers. Shapes and axes are in the storage order of the
backend that runs it, except those of `reshape`, which are logical.
-/

namespace HeteroNet

inductive Kernel where
  | conv2d (geometry : ConvGeometry) (activation : Activation)
  | maxPool2d (geometry : PoolGeometry) (activation : Activation)
  | avgPool2d (geometry : PoolGeometry) (activation : Activation)
  | concat (dims : List Shape) (axis : Nat)
  | fullyConnected (batch inputSize : Nat) (activation : Activation)
  | softmax (outer axisLen inner : Nat) (beta : Word)
  | add (activation : Activation)
  | cast (source target : TypeInfo)
  | reshape (input output : Shape)
  | copy
  | activation (activation : Activation)
  deriving DecidableEq, Repr

namespace Kernel

def name : Kernel → String
  | conv2d .. => "conv2d"
  | maxPool2d .. => "max_pool2d"
  | avgPool2d .. => "avg_pool2d"
  | concat .. => "concat"
  | fullyConnected .. => "fully_connected"
  | softmax .. => "softmax"
  | add .. => "add"
  | cast .. => "cast"
  | reshape .. => "reshape"
  | copy => "copy"
  | activation .. => "activation"

/-- The new contents of the output, given the inputs in order and the old contents. There is
none if an input is missing or an index falls outside a buffer. -/
def compute (k : Kernel) (layout : Layout) (inputs : List Buffer) (output : Buffer) :
    Option Buffer := do
  match k with
  | .conv2d g act => Compute.conv2d g layout (← inputs[0]?) (← inputs[1]?) (← inputs[2]?) act output
  | .maxPool2d g act => Compute.maxPool2d g layout (← inputs[0]?) act output
  | .avgPool2d g act => Compute.avgPool2d g layout (← inputs[0]?) act output
  | .concat dims axis => Compute.concat (inputs.zip dims) axis output
  | .fullyConnected batch size act =>
    Compute.fullyConnected batch size (← inputs[0]?) (← inputs[1]?) (← inputs[2]?) act output
  | .softmax outer axisLen inner beta =>
    Compute.softmax outer axisLen inner beta (← inputs[0]?) output
  | .add act => Compute.add (← inputs[0]?) (← inputs[1]?) act output
  | .cast source target => Compute.cast source target (← inputs[0]?) output
  | .reshape dims newDims =>
    let logical ← Layout.convert layout .nhwc dims (← inputs[0]?)
    output.replace (← Layout.convert .nhwc layout newDims logical)
  | .copy => output.replace (← inputs[0]?)
  | .activation act => return Compute.activate act output

end Kernel

end HeteroNet
