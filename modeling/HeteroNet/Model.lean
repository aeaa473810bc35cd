import HeteroNet.Operand
import HeteroNet.Operation

/-
Models. A model is a list of operands and a list of operations that name operands by index. It
is built by a caller, then finished (linked, checked, read only), then lowered (every operation
has a backend). This module holds the model itself, the calls that build it and the links
between operands and operations.

Calls may fail. What a failed call leaves behind is part of the model's behaviour, so calls are
written as `Edit`s, whose state outlives a failure.
-/

namespace HeteroNet

inductive Phase where
  | building
  | finished
  | lowered
  deriving DecidableEq, Repr

namespace Phase

def name : Phase → String
  | building => "building"
  | finished => "model"
  | lowered => "lowered"

end Phase

structure Model where
  operands : Operands := []
  operations : List Operation := []
  /-- The backend of each operation; empty until the model is lowered. -/
  placements : List Placement := []
  inputs : List OperandId := []
  outputs : List OperandId := []
  phase : Phase := .building
  deriving DecidableEq, Repr

/-- A call on a model: it may fail, and the model it leaves is kept either way. -/
abbrev Edit := ExceptT Error (StateM Model)

namespace Edit

/-- The answer of a call and the model it leaves. -/
def on {α : Type} (e : Edit α) (m : Model) : Except Error α × Model := StateT.run (ExceptT.run e) m

end Edit

namespace Model

def operation (m : Model) (i : OperationId) : Except Error Operation :=
  match m.operations[i]? with
  | some op => .ok op
  | none => .error (GraphError.noOperation i)

def inputAt (m : Model) (slot : SlotId) : Except Error OperandId :=
  match m.inputs[slot]? with
  | some o => .ok o
  | none => .error (GraphError.noSlot slot)

def outputAt (m : Model) (slot : SlotId) : Except Error OperandId :=
  match m.outputs[slot]? with
  | some o => .ok o
  | none => .error (GraphError.noSlot slot)

/-- The backend of an operation of a lowered model. -/
def placement (m : Model) (i : OperationId) : Except Error Placement :=
  match m.placements[i]? with
  | some p => .ok p
  | none => .error (GraphError.invalidPhase Phase.lowered.name m.phase.name)

def requirePhase (m : Model) (expected : Phase) : Except Error Unit :=
  if m.phase = expected then .ok ()
  else .error (GraphError.invalidPhase expected.name m.phase.name)

/-! ### Building -/

def addOperand (shape : Shape) (type : TypeInfo) : Edit OperandId := do
  let m ← get
  m.requirePhase .building
  set { m with operands := m.operands ++ [{ shape, type : Operand }] }
  return m.operands.length

/-- Makes an operand a constant. -/
def setValue (i : OperandId) (data : Bytes) : Edit Unit := do
  let m ← get
  m.requirePhase .building
  let o ← m.operands.get i
  if data.length ≠ o.byteSize then
    throw (.graph (.dataLength i o.byteSize data.length))
  set { m with operands := m.operands.set i { o with data := some data } }

def addOperation (op : Operation) : Edit OperationId := do
  let m ← get
  m.requirePhase .building
  op.checkArity
  set { m with operations := m.operations ++ [op] }
  return m.operations.length

def addInput (i : OperandId) : Edit SlotId := do
  let m ← get
  m.requirePhase .building
  let _ ← m.operands.get i
  set { m with inputs := m.inputs ++ [i] }
  return m.inputs.length

def addOutput (i : OperandId) : Edit SlotId := do
  let m ← get
  m.requirePhase .building
  let _ ← m.operands.get i
  set { m with outputs := m.outputs ++ [i] }
  return m.outputs.length

/-! ### Links -/

def linkUse (op : OperationId) (i : OperandId) : Edit Unit := do
  let m ← get
  let o ← m.operands.get i
  set { m with operands := m.operands.set i (o.addUse op) }

def linkWriter (op : OperationId) (i : OperandId) : Edit Unit := do
  let m ← get
  let o ← m.operands.get i
  if o.writer.isSome then throw (.graph (.multipleWriters i))
  set { m with operands := m.operands.set i { o with writer := some op } }

/-- Computes the links of every operand anew. A second writer ends the call at once, with the
links met so far in place. -/
def link : Edit Unit := do
  modify fun m => { m with operands := m.operands.map Operand.clearLinks }
  (← get).operations.zipIdx.forM fun (op, i) => do
    op.inputs.forM (linkUse i)
    op.outputs.forM (linkWriter i)

end Model

end HeteroNet
