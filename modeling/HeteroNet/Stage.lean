import HeteroNet.Geometry
import HeteroNet.TensorBuilder

/-
Stages and runnables. A stage is a planned operation that still names operands; applying it to
the tensors of a plan gives runnables, which name memory.

The host folds a fused activation into the kernel. The device runs it as a step of its own, on
the output in place. And since rows of a fully connected layer are read in logical order, the
device first flattens a rank 4 input into a scratch tensor.
-/

namespace HeteroNet

/-- Reshapes the first input of a stage into a scratch tensor, which is read in its place. -/
structure Flatten where
  kernel : Kernel
  scratch : TensorInfo
  deriving DecidableEq, Repr

inductive Stage where
  | host (backend : BackendId) (kernel : Kernel) (inputs : List OperandId) (output : OperandId)
  | device (backend : BackendId) (kernel : Kernel) (activation : Activation)
      (inputs : List OperandId) (output : OperandId) (flatten : Option Flatten)
  | permute (input output : OperandId) (source target : BackendId)
  deriving DecidableEq, Repr

/-- One step of a plan. -/
inductive Runnable where
  | host (label : String) (kernel : Kernel) (inputs : List CellId) (output : CellId)
  | device (label : String) (kernel : Kernel) (inputs : List CellId) (output : CellId)
  | permute (label : String) (source target : Tensor)
  deriving DecidableEq, Repr

namespace Runnable

def label : Runnable → String
  | host label .. => label
  | device label .. => label
  | permute label .. => label

/-- Runs a kernel on device memory. A kernel that reaches outside a buffer breaks off and
leaves its output damaged. -/
def kernelCommand (label : String) (kernel : Kernel) (inputs : List CellId) (output : CellId) :
    Command where
  label := label
  run memory :=
    match inputs.mapM memory.load, memory.load output with
    | .error reason, _ => (memory, .error reason)
    | .ok _, .error reason => (memory, .error reason)
    | .ok ins, .ok old =>
      match kernel.compute .nchw ins old with
      | some words => (memory.store output words, .ok ())
      | none => (memory.damage output, .error "command panicked")

def run : Runnable → Task Unit
  | host _ kernel inputs output => do
    let m ← get
    let words i := (m.memory.cell i).words
    match kernel.compute .nhwc (inputs.map words) (words output) with
    | some out => set { m with memory := m.memory.store output out }
    | none => throw .outOfBounds
  | device label kernel inputs output =>
    Machine.submit (kernelCommand label kernel inputs output)
  | permute _ source target => do target.writeLogical (← source.readLogical)

end Runnable

/-- Stages being turned into runnables: the builders whose tensors they find, and the runnables
so far. -/
structure Assembly where
  builders : List TensorBuilder
  runnables : List Runnable := []
  machine : Machine
  deriving DecidableEq, Repr

/-- A step of assembly; what it changed before it failed stays. -/
abbrev Assemble := ExceptT Failure (StateM Assembly)

namespace Assembly

/-- A call on the machine as a step of assembly. -/
def onMachine {α : Type} (t : Task α) : Assemble α := do
  let a ← get
  let (answer, machine) := t.on a.machine
  set { a with machine }
  answer

/-- The tensor that `backend` made for an operand. -/
def tensor (backend : BackendId) (i : OperandId) : Assemble Tensor := do
  match (← get).builders.find? (·.backend == backend) with
  | some b => b.tensor i
  | none => TensorBuilder.fail (.unboundOperand backend i)

/-- Adds a scratch tensor to the first builder of that name. -/
def addScratchTo (backend : BackendId) (info : TensorInfo) :
    List TensorBuilder → Task (List TensorBuilder × Tensor)
  | [] => throw (.error (.resolution (.unknownBackend backend)))
  | b :: rest => do
    if b.backend == backend then
      let (b, t) ← b.addScratch info
      return (b :: rest, t)
    else
      let (rest, t) ← addScratchTo backend info rest
      return (b :: rest, t)

def scratch (backend : BackendId) (info : TensorInfo) : Assemble Tensor := do
  let (builders, t) ← onMachine (addScratchTo backend info (← get).builders)
  modify fun a => { a with builders }
  return t

def append (r : Runnable) : Assemble Unit :=
  modify fun a => { a with runnables := a.runnables ++ [r] }

/-- The memory of an operand's tensor, which a host kernel needs on the host. -/
def hostCell (backend : BackendId) (i : OperandId) : Assemble CellId := do
  let t ← tensor backend i
  if t.place ≠ .host then
    throw (.error (.internal s!"operand #{i} on {backend} is not a host tensor"))
  return t.cell

/-- The memory of a tensor, which a device kernel needs on the device. -/
def deviceCellOf (t : Tensor) : Assemble CellId := do
  if t.place ≠ .device then
    throw (.error (.internal s!"{t.info.describe} on {t.backend} is not a device tensor"))
  onMachine t.requireReserved
  return t.cell

def deviceCell (backend : BackendId) (i : OperandId) : Assemble CellId := do
  deviceCellOf (← tensor backend i)

end Assembly

namespace Stage

/-- Puts the first input of a device stage in logical order, if the stage asks for it; the
answer is where the kernel reads its inputs. -/
def applyFlatten (backend : BackendId) (flatten : Option Flatten) (inputs : List OperandId)
    (cells : List CellId) : Assemble (List CellId) := do
  match flatten, inputs, cells with
  | some f, i :: _, first :: rest =>
    let scratch ← Assembly.deviceCellOf (← Assembly.scratch backend f.scratch)
    Assembly.append (.device s!"gpu flatten #{i}" f.kernel [first] scratch)
    return scratch :: rest
  | _, _, _ => return cells

/-- Finds the tensors of a stage and appends its runnables. -/
def apply : Stage → Assemble Unit
  | host backend kernel inputs output => do
    let ins ← inputs.mapM (Assembly.hostCell backend)
    let out ← Assembly.hostCell backend output
    Assembly.append (.host s!"cpu {kernel.name} #{output}" kernel ins out)
  | device backend kernel activation inputs output flatten => do
    let out ← Assembly.deviceCell backend output
    let ins ← inputs.mapM (Assembly.deviceCell backend)
    let ins ← applyFlatten backend flatten inputs ins
    Assembly.append (.device s!"gpu {kernel.name} #{output}" kernel ins out)
    if activation ≠ .none then
      Assembly.append (.device s!"gpu activation #{output}" (.activation activation) [] out)
  | permute input output source target => do
    let src ← Assembly.tensor source input
    let dst ← Assembly.tensor target output
    Assembly.append (.permute s!"permute {source}->{target} #{output}" src dst)

/-! ### The stage of an operation -/

/-- A stage of a place: on the host the kernel takes the activation with it. -/
def ofKernel (place : Place) (backend : BackendId) (op : Operation)
    (kernel : Activation → Kernel) (activation : Activation) : Except Failure Stage := do
  let output ← op.output
  match place with
  | .host => return .host backend (kernel activation) op.inputs output
  | .device => return .device backend (kernel .none) activation op.inputs output none

def concat (place : Place) (backend : BackendId) (op : Operation) (axis : OperandId)
    (os : Operands) : Except Failure Stage := do
  let axis ← Geometry.concatAxis op axis os
  let shapes ← op.inputs.mapM fun i => os.shape i
  let rank := (shapes.getLastD []).rank
  let layout := place.layout
  let kernel := Kernel.concat (shapes.map layout.storageDims) (layout.storageAxis rank axis)
  ofKernel place backend op (fun _ => kernel) .none

def fullyConnected (place : Place) (backend : BackendId) (op : Operation) (act : OperandId)
    (os : Operands) : Except Failure Stage := do
  let (dense, activation) ← Geometry.fullyConnected op act os
  let kernel := Kernel.fullyConnected dense.batch dense.inputSize
  match place with
  | .host => ofKernel .host backend op kernel activation
  | .device =>
    let input ← os.get (← op.input 0)
    let rows := [dense.batch, dense.inputSize]
    let flatten : Option Flatten :=
      if input.shape.rank = 4 then
        some ⟨.reshape input.shape rows, ⟨rows, input.type⟩⟩
      else none
    return .device backend (kernel .none) activation op.inputs (← op.output) flatten

/-- The stage of an operation on a backend whose tensors are on the host or on the device. -/
def generate (place : Place) (backend : BackendId) (op : Operation) (os : Operands) :
    Except Failure Stage := do
  match op.attributes with
  | .conv2d p =>
    let (g, act) ← Geometry.conv2d op p os
    ofKernel place backend op (.conv2d g) act
  | .maxPool2d p =>
    let (g, act) ← Geometry.pool2d .maxPool2d op p os
    ofKernel place backend op (.maxPool2d g) act
  | .avgPool2d p =>
    let (g, act) ← Geometry.pool2d .avgPool2d op p os
    ofKernel place backend op (.avgPool2d g) act
  | .concat axis => concat place backend op axis os
  | .fullyConnected act => fullyConnected place backend op act os
  | .reshape _ =>
    let input ← os.shape (← op.input 0)
    let output ← os.shape (← op.output)
    ofKernel place backend op (fun _ => .reshape input output) .none
  | .softmax beta =>
    let beta ← os.scalarFloat beta
    let (outer, axisLen, inner) :=
      Geometry.softmaxExtents (← os.shape (← op.input 0)) place.layout
    ofKernel place backend op (fun _ => .softmax outer axisLen inner beta) .none
  | .add act =>
    let act ← Geometry.activation .add os act
    ofKernel place backend op .add act
  | .cast =>
    let source := (← os.get (← op.input 0)).type
    let target := (← os.get (← op.output)).type
    ofKernel place backend op (fun _ => .cast source target) .none
  | .nop => ofKernel place backend op (fun _ => .copy) .none
  | .permute source target => return .permute (← op.input 0) (← op.output) source target

end Stage

end HeteroNet
