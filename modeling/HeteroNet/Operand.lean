import HeteroNet.Layout
import HeteroNet.Element
import HeteroNet.Error

/-
Operands: the typed, shaped slots that operations read and write. An operand with data is a
constant. Links to its writer and readers are kept with the operand once a model is finished,
and the backends that touch it once the model is lowered.
-/

namespace HeteroNet

/-- A backend and the layout in which it stores rank 4 tensors. -/
structure Placement where
  backend : BackendId
  layout : Layout
  deriving DecidableEq, Repr

/-- The backends that write and read an operand, each listed once, in the order in which they
were met. -/
structure OperandPlacement where
  dims : List Nat
  writers : List Placement := []
  readers : List Placement := []
  deriving DecidableEq, Repr

namespace OperandPlacement

/-- Appends a placement unless its backend is listed already. -/
def insertBackend (ps : List Placement) (p : Placement) : List Placement :=
  if ps.any (·.backend == p.backend) then ps else ps ++ [p]

def addWriter (o : OperandPlacement) (p : Placement) : OperandPlacement :=
  { o with writers := insertBackend o.writers p }

def addReader (o : OperandPlacement) (p : Placement) : OperandPlacement :=
  { o with readers := insertBackend o.readers p }

/-- Every backend that needs a tensor for the operand, writers first. -/
def backends (o : OperandPlacement) : List BackendId :=
  (o.writers ++ o.readers).foldl (fun ids p => if p.backend ∈ ids then ids else ids ++ [p.backend]) []

end OperandPlacement

structure Operand where
  shape : Shape
  type : TypeInfo
  data : Option Bytes := none
  /-- The operations that read the operand as data, in index order, each once. -/
  uses : List OperationId := []
  /-- The operation that writes the operand. -/
  writer : Option OperationId := none
  placement : Option OperandPlacement := none
  deriving DecidableEq, Repr

namespace Operand

def element (o : Operand) : ElementType := o.type.element

/-- The size of the operand in a caller's buffer. -/
def byteSize (o : Operand) : Nat := o.shape.elements * o.element.size

def isConstant (o : Operand) : Bool := o.data.isSome

/-- Records a reader, once. -/
def addUse (o : Operand) (op : OperationId) : Operand :=
  if op ∈ o.uses then o else { o with uses := o.uses ++ [op] }

def clearLinks (o : Operand) : Operand := { o with uses := [], writer := none }

end Operand

/-- The operands of a model, by index. -/
abbrev Operands := List Operand

namespace Operands

def get (os : Operands) (i : OperandId) : Except Error Operand :=
  match os[i]? with
  | some o => .ok o
  | none => .error (GraphError.noOperand i)

def shape (os : Operands) (i : OperandId) : Except Error Shape := (·.shape) <$> os.get i

/-- The shape of an operand read through `view`, or the complaint that its rank is wrong. -/
def viewShape {α : Type} (view : Shape → Option α) (expected : String) (os : Operands)
    (i : OperandId) : Except Error α := do
  let s ← os.shape i
  match view s with
  | some a => .ok a
  | none => .error (GraphError.unsupportedRank i expected s.rank)

def feature (os : Operands) (i : OperandId) : Except Error Feature :=
  os.viewShape Shape.feature? "4 (NHWC)" i

/-- Convolution weights: output channel, height, width, input channel. -/
def weights (os : Operands) (i : OperandId) : Except Error Feature :=
  os.viewShape Shape.feature? "4 (OHWI)" i

def vector (os : Operands) (i : OperandId) : Except Error Nat :=
  os.viewShape Shape.vector? "1" i

def matrix (os : Operands) (i : OperandId) : Except Error (Nat × Nat) :=
  os.viewShape Shape.matrix? "2" i

def constantData (os : Operands) (i : OperandId) : Except Error (Operand × Bytes) := do
  let o ← os.get i
  match o.data with
  | some data => .ok (o, data)
  | none => .error (GraphError.notAConstant i)

/-- The first word of a constant whose element type is one of `types`. -/
def scalarWord (types : List ElementType) (expected : ElementType) (os : Operands)
    (i : OperandId) : Except Error Word := do
  let (o, data) ← os.constantData i
  match types.contains o.element, (ElementType.wordsOfBytes data).head? with
  | true, some w => .ok w
  | _, _ => .error (GraphError.typeMismatch i expected.name o.element.name)

/-- A constant integer. Unsigned words are read as signed ones. -/
def scalarInt (os : Operands) (i : OperandId) : Except Error Int :=
  Word.signed <$> os.scalarWord [.scalarInt32, .int32, .scalarUInt32] .scalarInt32 i

/-- A constant float. -/
def scalarFloat (os : Operands) (i : OperandId) : Except Error Word :=
  os.scalarWord [.scalarFloat32, .float32] .scalarFloat32 i

end Operands

end HeteroNet
