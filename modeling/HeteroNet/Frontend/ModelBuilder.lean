import HeteroNet.Frontend.Code
import HeteroNet.Model.Check

/-
Building a model by codes. A caller lists the operands of an operation in one list, data inputs
first and attributes behind them; decoding sorts them out. Calls answer with a result code.
-/

namespace HeteroNet

/-- An operand as a caller describes it. -/
structure OperandDescription where
  code : Int
  dims : List Nat
  scale : Word
  zeroPoint : Int
  deriving DecidableEq, Repr

namespace ModelBuilder

/-- A call that takes `expected` operands has `count` of them, and one output. -/
def checkCounts (kind : Kind) (expected : Nat) (inputs outputs : List OperandId) :
    Except Error Unit :=
  if inputs.length ≠ expected then
    .error (GraphError.arityMismatch kind (toString expected) inputs.length)
  else if outputs.length ≠ 1 then
    .error (GraphError.arityMismatch kind "1 output" outputs.length)
  else .ok ()

/-- How many data inputs an operation of this code lists. -/
def dataCount : OperationCode → Nat
  | .conv2d | .fullyConnected => 3
  | .add => 2
  | _ => 1

/-- How many attributes it lists behind them. -/
def attributeCount : OperationCode → Nat
  | .averagePool2d | .maxPool2d => 6
  | .conv2d => 4
  | .castEx => 0
  | _ => 1

/-- A concatenation lists any number of inputs, and the axis last. -/
def decodeConcat (inputs outputs : List OperandId) : Except Error Operation :=
  match inputs.getLast? with
  | none => .error (GraphError.arityMismatch .concat "at least 2" 0)
  | some axis => do
    checkCounts .concat inputs.length inputs outputs
    return ⟨inputs.dropLast, outputs, .concat axis⟩

/-- The operation that a code and lists of operands stand for. -/
def decode (code : Int) (inputs outputs : List OperandId) : Except Error Operation :=
  match OperationCode.ofCode? code with
  | none => .error (GraphError.unknownOperationCode code)
  | some .concatenation => decodeConcat inputs outputs
  | some op => do
    let expected := dataCount op + attributeCount op
    checkCounts op.kind expected inputs outputs
    match Attributes.ofOperands? op.kind (inputs.drop (dataCount op)) with
    | some attributes => return ⟨inputs.take (dataCount op), outputs, attributes⟩
    | none => throw (.graph (.arityMismatch op.kind (toString expected) inputs.length))

/-- The type that a description names. -/
def typeOf (m : Model) (d : OperandDescription) : Except Error TypeInfo :=
  match ElementType.ofCode? d.code with
  | some element => .ok { element, scale := d.scale, zeroPoint := d.zeroPoint }
  | none =>
    .error (GraphError.typeMismatch m.operands.length "a known operand type code" (toString d.code))

def addOperand (d : OperandDescription) : Edit OperandId := do
  let type ← typeOf (← get) d
  Model.addOperand d.dims type

def addOperation (code : Int) (inputs outputs : List OperandId) : Edit OperationId := do
  Model.addOperation (← decode code inputs outputs)

/-- Appends to the model's inputs and outputs, one after another. -/
def identifyInputsAndOutputs (inputs outputs : List OperandId) : Edit Unit := do
  inputs.forM fun i => discard (Model.addInput i)
  outputs.forM fun i => discard (Model.addOutput i)

/-- The model after a call, and the code it ends with. -/
def report {α : Type} (e : Edit α) (m : Model) : ResultCode × Model :=
  let (answer, m) := e.on m
  (ResultCode.ofResult answer, m)

end ModelBuilder

end HeteroNet
