import HeteroNet.Geometry
import HeteroNet.Model

/-
What a model means, without backends, layouts or an order of execution. Every operand has a value:
the words given for it, or those of a constant, or what the kernel of its writer computes from the
values of its inputs, in logical order. Activations are part of the kernels. The words given are
those of a caller's buffers, one for each input.
-/

namespace HeteroNet

/-- The kernel of an operation in logical order, its activation included. -/
def Operation.kernel (op : Operation) (os : Operands) : Except Failure Kernel := do
  match op.attributes with
  | .conv2d p =>
    let (g, act) ← Geometry.conv2d op p os
    return .conv2d g act
  | .maxPool2d p =>
    let (g, act) ← Geometry.pool2d .maxPool2d op p os
    return .maxPool2d g act
  | .avgPool2d p =>
    let (g, act) ← Geometry.pool2d .avgPool2d op p os
    return .avgPool2d g act
  | .concat axis =>
    let axis ← Geometry.concatAxis op axis os
    let shapes ← op.inputs.mapM fun i => os.shape i
    return .concat shapes axis
  | .fullyConnected act =>
    let (dense, act) ← Geometry.fullyConnected op act os
    return .fullyConnected dense.batch dense.inputSize act
  | .reshape _ => return .reshape (← os.shape (← op.input 0)) (← os.shape (← op.output))
  | .softmax beta =>
    let beta ← os.scalarFloat beta
    let s ← os.shape (← op.input 0)
    return .softmax (Shape.elements s.dropLast) (s.getLastD 1) 1 beta
  | .add act => return .add (← Geometry.activation .add os act)
  | .cast => return .cast (← os.get (← op.input 0)).type (← os.get (← op.output)).type
  | .nop | .permute _ _ => return .copy

namespace Model

/-- The value of operand `i`, looking back at most `depth` operations. -/
def evaluate (m : Model) (given : OperandId → Option Buffer) : Nat → OperandId → Option Buffer
  | 0, _ => none
  | depth + 1, i =>
    match given i, m.operands[i]? with
    | some ws, _ => some ws
    | none, none => none
    | none, some o =>
      match o.data with
      | some data => some (o.element.decode data).toArray
      | none => do
        let op ← m.operations.find? fun op => op.outputs.contains i
        let k ← (op.kernel m.operands).toOption
        k.compute .nhwc (← op.inputs.mapM (m.evaluate given depth)) (Buffer.zeros o.shape.elements)

/-- The value of operand `i`. No chain of operations without a cycle is longer than their
number. -/
def value (m : Model) (given : OperandId → Option Buffer) (i : OperandId) : Option Buffer :=
  m.evaluate given (m.operations.length + 1) i

/-- The words of operand `i` at the start of a buffer. -/
def words (m : Model) (i : OperandId) (bytes : Bytes) : Option Buffer :=
  m.operands[i]?.map fun o => ((o.element.decode bytes).take o.shape.elements).toArray

/-- The words that the buffers give which are bound to operands, each for its operand. Of several
for one operand the last counts. -/
def givenBy (m : Model) : List (OperandId × Bytes) → OperandId → Option Buffer
  | [], _ => none
  | (j, bytes) :: rest, i => (m.givenBy rest i).or (if j = i then m.words i bytes else none)

/-- The words that a caller gives, with one buffer for each input. -/
def given (m : Model) (buffers : List Bytes) : OperandId → Option Buffer :=
  m.givenBy (m.inputs.zip buffers)

end Model

end HeteroNet
