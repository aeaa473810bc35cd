import HeteroNet.Model.Search

/-
The checks a model passes before it leaves the building phase, and again after it is lowered:
every index exists, nothing is written twice, everything read is written or given, and no
operation depends on its own result.
-/

namespace HeteroNet.Model

/-- Every operand named exists, and the operations have as many inputs and outputs as their
kinds take. -/
def checkIndices (m : Model) : Except Error Unit := do
  m.operations.forM fun op => do
    op.checkArity
    op.operands.forM fun i => discard (m.operands.get i)
  (m.inputs ++ m.outputs).forM fun i => discard (m.operands.get i)

/-- Goes through a list of written operands, given those written `before`. -/
def checkWriters (m : Model) : (written before : List OperandId) → Except Error Unit
  | [], _ => .ok ()
  | i :: rest, before => do
    let o ← m.operands.get i
    if o.isConstant || m.inputs.contains i || before.contains i then
      throw (.graph (.multipleWriters i))
    m.checkWriters rest (i :: before)

/-- No operand is written twice, and no constant or model input is written at all. -/
def checkSingleWriter (m : Model) : Except Error Unit :=
  m.checkWriters (m.operations.flatMap (·.outputs)) []

/-- What an operation reads is written, constant or a model input. -/
def checkRead (m : Model) (i : OperandId) : Except Error Unit := do
  let o ← m.operands.get i
  if o.writer.isNone && !o.isConstant && !m.inputs.contains i then
    throw (.graph (.undefinedOperand i))

/-- A model output is written, or is a model input that some operation reads. -/
def checkOutput (m : Model) (i : OperandId) : Except Error Unit := do
  let o ← m.operands.get i
  if o.writer.isNone then
    if !m.inputs.contains i then throw (.graph (.undefinedOperand i))
    if o.uses.isEmpty then throw (.graph (.detachedOutput i))

def checkDefined (m : Model) : Except Error Unit := do
  m.operations.forM fun op => op.inputs.forM m.checkRead
  m.outputs.forM m.checkOutput

/-- The dependencies between operations form no cycle. -/
def checkAcyclic (m : Model) : Except Error Unit :=
  discard (Search.all m fun via => throw (.graph (.cycle via)))

def check (m : Model) : Except Error Unit := do
  m.checkIndices
  m.checkSingleWriter
  m.checkDefined
  m.checkAcyclic

/-- Links the operands, checks the model and closes it to further building. -/
def finish : Edit Unit := do
  (← get).requirePhase .building
  (← get).checkIndices
  link
  (← get).check
  modify fun m => { m with phase := .finished }

end HeteroNet.Model
