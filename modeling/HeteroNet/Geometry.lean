import HeteroNet.Kernel
import HeteroNet.Operand
import HeteroNet.Operation

/-
The geometry of an operation, worked out from its operands and the constants that hold its
attributes. Checks are made in a fixed order, so the first fault found is always the same one.
-/

namespace HeteroNet.Geometry

def invalid {α : Type} (kind : Kind) (i : OperandId) (reason : String) : Except Error α :=
  .error (GraphError.invalidParam kind i reason)

/-- The fused activation whose code operand `i` holds. -/
def activation (kind : Kind) (os : Operands) (i : OperandId) : Except Error Activation := do
  let code ← os.scalarInt i
  match Activation.ofCode? code with
  | some a => .ok a
  | none => invalid kind i s!"unknown fused activation {code}"

/-- A stride or window extent, which is positive. -/
def positive (kind : Kind) (os : Operands) (i : OperandId) : Except Error Nat := do
  let value ← os.scalarInt i
  if value ≤ 0 then invalid kind i s!"expected a positive value, got {value}" else .ok value.toNat

/-- The padding rule whose code operand `i` holds. -/
def padding (kind : Kind) (os : Operands) (i : OperandId) : Except Error PaddingRule := do
  let code ← os.scalarInt i
  match PaddingRule.ofCode? code with
  | some rule => .ok rule
  | none => invalid kind i s!"unknown padding code {code}"

/-- The output extent along one axis; `i` is the operand blamed if no window fits. -/
def places (kind : Kind) (i : OperandId) (rule : PaddingRule) (input window stride : Nat) :
    Except Error Nat :=
  match rule.outputExtent? input window stride with
  | some n => .ok n
  | none => invalid kind i s!"window {window} does not fit input extent {input}"

def conv2d (op : Operation) (p : ConvParams) (os : Operands) :
    Except Failure (ConvGeometry × Activation) := do
  let ifm ← os.feature (← op.input 0)
  let weights ← os.weights (← op.input 1)
  let rule ← padding .conv2d os p.padding
  let strideW ← positive .conv2d os p.strideW
  let strideH ← positive .conv2d os p.strideH
  let h ← places .conv2d p.padding rule ifm.h weights.h strideH
  let w ← places .conv2d p.padding rule ifm.w weights.w strideW
  let ofm : Feature := ⟨ifm.n, h, w, weights.n⟩
  let geometry : ConvGeometry :=
    { input := ifm, weights, output := ofm, strideH, strideW
      padding := rule.around ifm ofm weights.h weights.w strideH strideW }
  return (geometry, ← activation .conv2d os p.activation)

def pool2d (kind : Kind) (op : Operation) (p : PoolParams) (os : Operands) :
    Except Failure (PoolGeometry × Activation) := do
  let ifm ← os.feature (← op.input 0)
  let rule ← padding kind os p.padding
  let strideW ← positive kind os p.strideW
  let strideH ← positive kind os p.strideH
  let windowW ← positive kind os p.windowW
  let windowH ← positive kind os p.windowH
  let h ← places kind p.padding rule ifm.h windowH strideH
  let w ← places kind p.padding rule ifm.w windowW strideW
  let ofm : Feature := ⟨ifm.n, h, w, ifm.c⟩
  let window : Window :=
    ⟨windowH, windowW, strideH, strideW, rule.around ifm ofm windowH windowW strideH strideW⟩
  return ({ input := ifm, output := ofm, window }, ← activation kind os p.activation)

/-- The rows a fully connected layer reads and the units it has. -/
structure Dense where
  batch : Nat
  inputSize : Nat
  units : Nat
  deriving DecidableEq, Repr

def fullyConnected (op : Operation) (act : OperandId) (os : Operands) :
    Except Failure (Dense × Activation) := do
  let input ← op.input 0
  let (units, inputSize) ← os.matrix (← op.input 1)
  let elements := (← os.shape input).elements
  if inputSize = 0 || elements % inputSize != 0 then
    throw (.error (.graph (.shapeMismatch .fullyConnected input
      s!"{elements} elements are not a multiple of input size {inputSize}")))
  return (⟨elements / inputSize, inputSize, units⟩, ← activation .fullyConnected os act)

/-- The axis of a concatenation, which the first input has. -/
def concatAxis (op : Operation) (axis : OperandId) (os : Operands) : Except Failure Nat := do
  let value ← os.scalarInt axis
  let rank := (← os.shape (← op.input 0)).rank
  if value < 0 || (rank : Int) ≤ value then
    throw (.error (.graph (.invalidParam .concat axis
      s!"axis {value} out of range for rank {rank}")))
  return value.toNat

/-- A softmax over the last logical axis, as outer, axis and inner extents in storage order. -/
def softmaxExtents (s : Shape) (layout : Layout) : Nat × Nat × Nat :=
  match layout, s.feature? with
  | .nchw, some f => (f.n, f.c, f.h * f.w)
  | _, _ => (Shape.elements s.dropLast, s.getLastD 1, 1)

end HeteroNet.Geometry
