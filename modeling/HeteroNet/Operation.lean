import HeteroNet.Error

/-
Operations of a model. An operation reads its data inputs and writes its outputs; its
attributes (strides, padding, axis, ...) are operands too, held apart from the data.
-/

namespace HeteroNet

/-- The attribute operands of a pooling operation. -/
structure PoolParams where
  padding : OperandId
  strideW : OperandId
  strideH : OperandId
  windowW : OperandId
  windowH : OperandId
  activation : OperandId
  deriving DecidableEq, Repr

/-- The attribute operands of a convolution. -/
structure ConvParams where
  padding : OperandId
  strideW : OperandId
  strideH : OperandId
  activation : OperandId
  deriving DecidableEq, Repr

/-- The kind of an operation together with its attributes. A `permute` copies its input from one
backend to another; lowering inserts it. -/
inductive Attributes where
  | conv2d (p : ConvParams)
  | maxPool2d (p : PoolParams)
  | avgPool2d (p : PoolParams)
  | concat (axis : OperandId)
  | fullyConnected (activation : OperandId)
  | reshape (target : Option OperandId)
  | softmax (beta : OperandId)
  | add (activation : OperandId)
  | cast
  | nop
  | permute (source target : BackendId)
  deriving DecidableEq, Repr

structure Operation where
  inputs : List OperandId
  outputs : List OperandId
  attributes : Attributes
  deriving DecidableEq, Repr

namespace PoolParams

def operands (p : PoolParams) : List OperandId :=
  [p.padding, p.strideW, p.strideH, p.windowW, p.windowH, p.activation]

end PoolParams

namespace Attributes

def kind : Attributes → Kind
  | conv2d _ => .conv2d
  | maxPool2d _ => .maxPool2d
  | avgPool2d _ => .avgPool2d
  | concat _ => .concat
  | fullyConnected _ => .fullyConnected
  | reshape _ => .reshape
  | softmax _ => .softmax
  | add _ => .add
  | cast => .cast
  | nop => .nop
  | permute _ _ => .permute

/-- The attribute operands, in the order in which a caller lists them. -/
def operands : Attributes → List OperandId
  | conv2d p => [p.padding, p.strideW, p.strideH, p.activation]
  | maxPool2d p | avgPool2d p => p.operands
  | concat axis => [axis]
  | fullyConnected activation => [activation]
  | reshape target => target.toList
  | softmax beta => [beta]
  | add activation => [activation]
  | cast | nop | permute _ _ => []

/-- The attributes of a kind, given the operands that hold them in a caller's order; more than
the kind asks for are ignored. The backends of a `permute` are no operands. -/
def ofOperands? : Kind → List OperandId → Option Attributes
  | .conv2d, pad :: sw :: sh :: act :: _ => some (conv2d ⟨pad, sw, sh, act⟩)
  | .maxPool2d, pad :: sw :: sh :: ww :: wh :: act :: _ => some (maxPool2d ⟨pad, sw, sh, ww, wh, act⟩)
  | .avgPool2d, pad :: sw :: sh :: ww :: wh :: act :: _ => some (avgPool2d ⟨pad, sw, sh, ww, wh, act⟩)
  | .concat, axis :: _ => some (concat axis)
  | .fullyConnected, act :: _ => some (fullyConnected act)
  | .reshape, is => some (reshape is.head?)
  | .softmax, beta :: _ => some (softmax beta)
  | .add, act :: _ => some (add act)
  | .cast, _ => some cast
  | .nop, _ => some nop
  | _, _ => none

/-- Reading the attribute operands back gives the attributes again. -/
theorem ofOperands?_operands (a : Attributes) (h : a.kind ≠ .permute) :
    ofOperands? a.kind a.operands = some a := by
  cases a with
  | reshape target => cases target <;> rfl
  | permute source target => exact absurd rfl h
  | _ => rfl

end Attributes

namespace Kind

/-- How many data inputs an operation of this kind takes, in words. -/
def inputCount : Kind → String
  | conv2d | fullyConnected => "3"
  | add => "2"
  | concat => "at least 1"
  | _ => "1"

/-- An operation of this kind may have `n` data inputs. -/
def admits : Kind → Nat → Bool
  | conv2d, n | fullyConnected, n => n == 3
  | add, n => n == 2
  | concat, n => 1 ≤ n
  | _, n => n == 1

end Kind

namespace Operation

def kind (op : Operation) : Kind := op.attributes.kind

def params (op : Operation) : List OperandId := op.attributes.operands

/-- Every operand the operation names: data, then attributes. -/
def operands (op : Operation) : List OperandId := op.inputs ++ op.outputs ++ op.params

/-- Data input number `role`. -/
def input (op : Operation) (role : Nat) : Except Failure OperandId :=
  match op.inputs[role]? with
  | some i => .ok i
  | none => .error .outOfBounds

/-- The first output. -/
def output (op : Operation) : Except Failure OperandId :=
  match op.outputs[0]? with
  | some i => .ok i
  | none => .error .outOfBounds

/-- Reads `new` wherever `old` was read as data. -/
def replaceInput (op : Operation) (old new : OperandId) : Operation :=
  { op with inputs := op.inputs.map fun i => if i = old then new else i }

/-- The numbers of data inputs and outputs fit the kind. -/
def checkArity (op : Operation) : Except Error Unit :=
  if !op.kind.admits op.inputs.length then
    .error (GraphError.arityMismatch op.kind op.kind.inputCount op.inputs.length)
  else if op.outputs.length ≠ 1 then
    .error (GraphError.arityMismatch op.kind "1 output" op.outputs.length)
  else .ok ()

end Operation

end HeteroNet
