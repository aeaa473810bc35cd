import HeteroNet.Operand
import HeteroNet.Operation
import HeteroNet.Tensor

/-
Filling the tensors of constants. A constant is copied in logical order, and the tensor puts it
into its own order. The device writes convolution weights itself, reordered to what a channel
first convolution reads.
-/

namespace HeteroNet

inductive Initializer where
  /-- Copies the elements of `data`, which are of type `type`. -/
  | copy (data : Bytes) (type : TypeInfo)
  /-- Writes convolution weights of the given extents in the order of the tensor. -/
  | weights (data : Bytes) (shape : Feature)
  deriving DecidableEq, Repr

namespace Initializer

/-- Weights given output channel, height, width, input channel, with the input channel moved to
the second place. -/
def channelFirst (s : Feature) (ws : Buffer) : Option Buffer :=
  s.fill (fun p => ((p.n * s.c + p.c) * s.h + p.h) * s.w + p.w)
    (fun p => ws.read (((p.n * s.h + p.h) * s.w + p.w) * s.c + p.c)) (Buffer.zeros ws.size)

def fill (init : Initializer) (t : Tensor) : Task Unit :=
  match init with
  | copy data type => t.writeLogical (type.element.decode data).toArray
  | weights data shape => do
    let words := (t.info.type.element.decode data).toArray
    match t.layout with
    | .nhwc => t.write words
    | .nchw =>
      match channelFirst shape words with
      | some ws => t.write ws
      | none => throw .outOfBounds

/-! ### The initializer for each use of a constant -/

/-- A constant that is used as plain data. -/
def constant (os : Operands) (i : OperandId) : Except Failure Initializer := do
  let (o, data) ← os.constantData i
  return .copy data o.type

/-- The weights of a convolution. -/
def convWeights (place : Place) (os : Operands) (op : Operation) : Except Failure Initializer := do
  let i ← op.input 1
  match place with
  | .host => constant os i
  | .device =>
    let shape ← os.weights i
    let (_, data) ← os.constantData i
    return .weights data shape

/-- The bias of a convolution or a fully connected layer. -/
def bias (os : Operands) (op : Operation) : Except Failure Initializer := do
  constant os (← op.input 2)

/-- The weights of a fully connected layer. -/
def denseWeights (os : Operands) (op : Operation) : Except Failure Initializer := do
  constant os (← op.input 1)

end Initializer

end HeteroNet
