import HeteroNet.Compile
import HeteroNet.Session

/-
Two small models to try the backends on, and a run of a plan on a ramp of numbers.
-/

namespace HeteroNet

inductive Demo where
  /-- A convolution, a pool, a reshape, a fully connected layer and a softmax. -/
  | classifier
  /-- Two feature maps put together along their channels. -/
  | concat
  deriving DecidableEq, Repr

namespace Demo

def name : Demo → String
  | classifier => "classifier"
  | concat => "concat"

def ofName? (s : String) : Option Demo := [classifier, concat].find? fun d => d.name == s

/-! ### Operands of the demos -/

def tensor (dims : Shape) : Edit OperandId := Model.addOperand dims { element := .float32 }

def floatBytes (ws : List UInt32) : Bytes := ElementType.encode .float32 (ws.map Word.mk)

/-- A constant tensor, given by the bits of its elements. -/
def constant (dims : Shape) (ws : List UInt32) : Edit OperandId := do
  let i ← tensor dims
  Model.setValue i (floatBytes ws)
  return i

def scalarInt (value : Int) : Edit OperandId := do
  let i ← Model.addOperand [] { element := .scalarInt32 }
  Model.setValue i (Word.ofSigned value).toBytes
  return i

def scalarFloat (bits : UInt32) : Edit OperandId := do
  let i ← Model.addOperand [] { element := .scalarFloat32 }
  Model.setValue i (Word.mk bits).toBytes
  return i

/-- The bits of `1.0`, `-4.0`, `0.5`, `0.25`, `0.1` and `0.2`. -/
def one : UInt32 := 0x3f800000
def minusFour : UInt32 := 0xc0800000
def half : UInt32 := 0x3f000000
def quarter : UInt32 := 0x3e800000
def tenth : UInt32 := 0x3dcccccd
def fifth : UInt32 := 0x3e4ccccd

/-! ### The models -/

def buildClassifier : Edit Unit := do
  let input ← tensor [1, 3, 3, 1]
  let weights ← constant [1, 3, 3, 1] [0, one, 0, one, minusFour, one, 0, one, 0]
  let bias ← constant [1] [half]
  let features ← tensor [1, 3, 3, 1]
  let conv : ConvParams :=
    { padding := ← scalarInt 1, strideW := ← scalarInt 1, strideH := ← scalarInt 1,
      activation := ← scalarInt 1 }
  discard (Model.addOperation ⟨[input, weights, bias], [features], .conv2d conv⟩)
  let pooled ← tensor [1, 2, 2, 1]
  let pool : PoolParams :=
    { padding := ← scalarInt 2, strideW := ← scalarInt 1, strideH := ← scalarInt 1,
      windowW := ← scalarInt 2, windowH := ← scalarInt 2, activation := ← scalarInt 0 }
  discard (Model.addOperation ⟨[features], [pooled], .maxPool2d pool⟩)
  let flat ← tensor [1, 4]
  discard (Model.addOperation ⟨[pooled], [flat], .reshape none⟩)
  let units ← constant [3, 4]
    [one, 0, 0, 0, 0, one, one, 0, quarter, quarter, quarter, quarter]
  let unitBias ← constant [3] [0, tenth, fifth]
  let logits ← tensor [1, 3]
  let act ← scalarInt 0
  discard (Model.addOperation ⟨[flat, units, unitBias], [logits], .fullyConnected act⟩)
  let probabilities ← tensor [1, 3]
  let beta ← scalarFloat one
  discard (Model.addOperation ⟨[logits], [probabilities], .softmax beta⟩)
  discard (Model.addInput input)
  discard (Model.addOutput probabilities)

def buildConcat : Edit Unit := do
  let lhs ← tensor [1, 2, 3, 2]
  let rhs ← tensor [1, 2, 3, 2]
  let output ← tensor [1, 2, 3, 4]
  let axis ← scalarInt 3
  discard (Model.addOperation ⟨[lhs, rhs], [output], .concat axis⟩)
  discard (Model.addInput lhs)
  discard (Model.addInput rhs)
  discard (Model.addOutput output)

def build : Demo → Edit Unit
  | classifier => buildClassifier
  | concat => buildConcat

/-- The finished model. -/
def model (d : Demo) : Except Error Model :=
  match (do d.build; Model.finish : Edit Unit).on {} with
  | (.ok (), m) => .ok m
  | (.error e, _) => .error e

/-! ### Running on a ramp -/

/-- The bytes of `0.1, 0.2, ...`, each the product of its number and a tenth. -/
def ramp (count : Nat) : Bytes :=
  ElementType.encode .float32 ((List.range count).map fun i => (Word.ofNat (i + 1)).mul ⟨tenth⟩)

/-- Feeds a ramp to every input; the answer is the shape and the elements of the first
output. -/
def runRamp (plan : Plan) : Task (Shape × List Word) := do
  let m := plan.model
  let shape ← m.operands.shape (← m.outputAt 0)
  let mut session := Session.new plan
  for (i, slot) in m.inputs.zipIdx do
    session ← session.setInput slot (ramp (← m.operands.shape i).elements)
  session ← session.setOutput 0 (List.replicate (shape.elements * 4) 0)
  let (answer, ran, machine) := StateT.run (ExceptT.run Session.run) (session, ← get)
  set machine
  answer
  return (shape, ElementType.wordsOfBytes (← ran.output 0))

end Demo

end HeteroNet
