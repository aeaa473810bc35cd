import HeteroNet.Backend
import HeteroNet.Plan

/-
Planning one operation: its operands must have the types and shapes its kind asks for. Then the
tensors of its data are recorded, the constants among its inputs get initializers, and its
backend gives the stage.
-/

namespace HeteroNet.Planner

/-- A planning step extends a draft. -/
abbrev Planning := StateT PlanDraft (Except Failure)

def mismatch {α : Type} (kind : Kind) (i : OperandId) (reason : String) : Except Error α :=
  .error (GraphError.shapeMismatch kind i reason)

/-! ### Checks -/

/-- The operands are all tensors of floats. -/
def allFloat (os : Operands) (is : List OperandId) : Except Error Unit :=
  is.forM fun i => do
    let o ← os.get i
    if o.element ≠ .float32 then
      throw (.graph (.typeMismatch i ElementType.float32.name o.element.name))

/-- The input has the type of the output, scale and zero point included. -/
def sameType (os : Operands) (input output : OperandId) : Except Error Unit := do
  let expected := (← os.get output).type
  let actual := (← os.get input).type
  if !expected.same actual then
    throw (.graph (.typeMismatch input expected.element.name actual.element.name))

def expectDims (kind : Kind) (os : Operands) (i : OperandId) (expected : Shape) :
    Except Error Unit := do
  let actual ← os.shape i
  if actual ≠ expected then
    mismatch kind i s!"declared {Text.numbers actual}, expected {Text.numbers expected}"

/-- The operand has the shape of the output. -/
def sameShape (kind : Kind) (os : Operands) (i output : OperandId) : Except Error Unit := do
  expectDims kind os i (← os.shape output)

def isConstant (os : Operands) (i : OperandId) : Except Error Bool :=
  (·.isConstant) <$> os.get i

/-- The operand is constant: give it an initializer. -/
def initializeConstant (os : Operands) (i : OperandId) (init : Except Failure Initializer) :
    Planning Unit := do
  if ← (isConstant os i : Except Error Bool) then
    let init ← init
    modify (·.addInitializer i init)

/-! ### Kinds -/

def conv2d (os : Operands) (c : Context) (op : Operation) (p : ConvParams) : Planning Unit := do
  let input ← op.input 0
  let weightsId ← op.input 1
  let biasId ← op.input 2
  let output ← op.output
  (allFloat os [input, weightsId, biasId, output] : Except Error Unit)
  let ifm ← os.feature input
  let weights ← os.weights weightsId
  let bias ← os.vector biasId
  if weights.c ≠ ifm.c then
    (mismatch .conv2d weightsId
      s!"kernel depth {weights.c} does not match input channels {ifm.c}" : Except Error Unit)
  if bias ≠ weights.n then
    (mismatch .conv2d biasId
      s!"bias length {bias} does not match output channels {weights.n}" : Except Error Unit)
  let (g, _) ← Geometry.conv2d op p os
  (expectDims .conv2d os output g.output.dims : Except Error Unit)
  initializeConstant os weightsId (Initializer.convWeights c.backend.initializers os op)
  initializeConstant os biasId (Initializer.bias os op)

def pool2d (os : Operands) (op : Operation) (kind : Kind) (p : PoolParams) :
    Except Failure Unit := do
  let input ← op.input 0
  let output ← op.output
  if kind = .avgPool2d then
    (allFloat os [input, output] : Except Error Unit)
  else
    sameType os input output
    let element := (← os.get input).element
    if element ≠ .float32 ∧ element ≠ .quant8 then
      throw (.error (.graph (.typeMismatch input ElementType.float32.name element.name)))
  let (g, _) ← Geometry.pool2d kind op p os
  expectDims kind os output g.output.dims

/-- The extents of the output of a concatenation: those of the first input, with the axis
extents of all inputs added up. -/
def concatDims (os : Operands) (output : OperandId) (first : Shape) (axis : Nat) :
    List OperandId → (sum : Nat) → Except Error Shape
  | [], sum => .ok (first.set axis sum)
  | i :: rest, sum => do
    sameType os i output
    let dims ← os.shape i
    if dims.length ≠ first.length then
      throw (.graph (.unsupportedRank i (toString first.length) dims.length))
    if dims.eraseIdx axis ≠ first.eraseIdx axis then
      mismatch .concat i
        s!"{Text.numbers dims} differs from {Text.numbers first} off axis {axis}"
    concatDims os output first axis rest (sum + dims.getD axis 0)

def concat (os : Operands) (op : Operation) (axis : OperandId) : Except Failure Unit := do
  let axis ← Geometry.concatAxis op axis os
  let output ← op.output
  let first ← os.shape (← op.input 0)
  let expected ← concatDims os output first axis op.inputs 0
  expectDims .concat os output expected

def fullyConnected (os : Operands) (op : Operation) (act : OperandId) : Planning Unit := do
  let weightsId ← op.input 1
  let biasId ← op.input 2
  let input ← op.input 0
  let output ← op.output
  (allFloat os [input, weightsId, biasId, output] : Except Error Unit)
  let (dense, _) ← Geometry.fullyConnected op act os
  let bias ← os.vector biasId
  if bias ≠ dense.units then
    (mismatch .fullyConnected biasId
      s!"bias length {bias} does not match {dense.units} units" : Except Error Unit)
  (expectDims .fullyConnected os output [dense.batch, dense.units] : Except Error Unit)
  initializeConstant os weightsId (Initializer.denseWeights os op)
  initializeConstant os biasId (Initializer.bias os op)

/-- An entry of a target shape allows an extent. `-1` leaves the extent open; any other negative
entry stands for the extent of 64 bits that has the same bits. -/
def allowsExtent (entry : Int) (extent : Nat) : Bool :=
  entry == -1 || entry % 0x10000000000000000 == extent

/-- The target shape a caller asked for, if it is a constant, agrees with the output. -/
def checkTarget (os : Operands) (target : OperandId) (output : Shape) : Except Error Unit := do
  let o ← os.get target
  if let some data := o.data then
    let requested := (ElementType.wordsOfBytes data).map Word.signed
    let fits := requested.length = output.length ∧
      (requested.zip output).all fun (r, d) => allowsExtent r d
    if ¬fits then
      let asked := Text.bracketed (requested.map toString)
      throw (.graph (.invalidParam .reshape target
        s!"target shape {asked} disagrees with output {Text.numbers output}"))

def reshape (os : Operands) (op : Operation) (target : Option OperandId) :
    Except Failure Unit := do
  let input ← op.input 0
  let output ← op.output
  sameType os input output
  let elements := (← os.shape input).elements
  let dims ← os.shape output
  if elements ≠ dims.elements then
    (mismatch .reshape output
      s!"{elements} elements cannot be reshaped into {Text.numbers dims}" : Except Error Unit)
  if let some target := target then
    checkTarget os target dims

def softmax (os : Operands) (op : Operation) (betaId : OperandId) : Except Failure Unit := do
  let input ← op.input 0
  let output ← op.output
  (allFloat os [input, output] : Except Error Unit)
  sameShape .softmax os input output
  let rank := (← os.shape input).rank
  if rank ≠ 2 ∧ rank ≠ 4 then
    throw (.error (.graph (.unsupportedRank input "2 or 4" rank)))
  let beta ← os.scalarFloat betaId
  if !Word.zero.lt beta then
    throw (.error (.graph (.invalidParam .softmax betaId
      s!"beta must be positive, got {NumberStyle.plain.write beta}")))

def add (os : Operands) (op : Operation) (act : OperandId) : Except Failure Unit := do
  let lhs ← op.input 0
  let rhs ← op.input 1
  let output ← op.output
  (allFloat os [lhs, rhs, output] : Except Error Unit)
  sameShape .add os lhs output
  sameShape .add os rhs output
  discard (Geometry.activation .add os act)

/-- A copy keeps the shape and the type. -/
def copy (os : Operands) (op : Operation) : Except Failure Unit := do
  let input ← op.input 0
  let output ← op.output
  sameShape op.kind os input output
  sameType os input output

def cast (os : Operands) (op : Operation) : Except Failure Unit := do
  sameShape op.kind os (← op.input 0) (← op.output)

/-- Checks an operation, and gives initializers to the constants whose role is that of weights
or bias. -/
def checkOperation (os : Operands) (c : Context) (op : Operation) : Planning Unit := do
  match op.attributes with
  | .conv2d p => conv2d os c op p
  | .maxPool2d p => pool2d os op .maxPool2d p
  | .avgPool2d p => pool2d os op .avgPool2d p
  | .concat axis => concat os op axis
  | .fullyConnected act => fullyConnected os op act
  | .reshape target => reshape os op target
  | .softmax beta => softmax os op beta
  | .add act => add os op act
  | .cast => cast os op
  | .nop | .permute _ _ => copy os op

/-! ### All operations -/

/-- The inputs that are weights or bias, and have initializers of their own. -/
def weightRoles : Kind → List Nat
  | .conv2d | .fullyConnected => [1, 2]
  | _ => []

/-- Records the tensor of each operand the operation reads or writes. -/
def addConstraints (os : Operands) (op : Operation) : Planning Unit :=
  (op.inputs ++ op.outputs).forM fun i => do
    let o ← os.get i
    set (← (← get).addConstraint i ⟨o.shape, o.type⟩)

/-- Gives a plain copy to the constants among the inputs that have no other role. -/
def addPlainConstants (os : Operands) (op : Operation) : Planning Unit :=
  op.inputs.zipIdx.forM fun (i, role) => do
    if !(weightRoles op.kind).contains role then
      initializeConstant os i (Initializer.constant os i)

/-- Plans one operation on the backend it is placed on. -/
def visit (os : Operands) (contexts : SortedMap BackendId Context) (op : Operation)
    (p : Placement) : Planning Unit := do
  match contexts.find? p.backend with
  | none => throw (.error (.resolution (.unknownBackend p.backend)))
  | some c => do
    op.checkArity
    checkOperation os c op
    addConstraints os op
    addPlainConstants os op
    let stage ← Stage.generate c.backend.stages c.backend.stageName op os
    modify (·.addStage stage)

end HeteroNet.Planner
