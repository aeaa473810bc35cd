import HeteroNet.Element
import HeteroNet.Layout
import HeteroNet.Machine

/-
Tensors. A tensor describes a cell: its logical shape and element type, and the backend it
belongs to. Device tensors keep rank 4 data channel first. Reading one waits for the device
first, and so reports what failed there; writing one is a command like any other.
-/

namespace HeteroNet

/-- The logical shape and element type of a tensor. -/
structure TensorInfo where
  shape : Shape
  type : TypeInfo
  deriving DecidableEq, Repr

namespace TensorInfo

def elements (info : TensorInfo) : Nat := info.shape.elements

def describe (info : TensorInfo) : String :=
  "TensorInfo \x7b shape: Shape(" ++ Text.numbers info.shape ++ "), type_info: "
    ++ info.type.describe ++ " \x7d"

end TensorInfo

namespace Place

/-- The order in which tensors of a place store rank 4 data. -/
def layout : Place → Layout
  | host => .nhwc
  | device => .nchw

end Place

structure Tensor where
  info : TensorInfo
  place : Place
  backend : BackendId
  cell : CellId
  deriving DecidableEq, Repr

namespace Tensor

/-- A tensor without memory. -/
def create (place : Place) (backend : BackendId) (info : TensorInfo) : Task Tensor := do
  return { info, place, backend, cell := ← Machine.newCell place }

def layout (t : Tensor) : Layout := t.place.layout

/-- Reserves the tensor's memory, filled with zeros; the answer is its size in bytes. A device
tensor is reserved once only. -/
def allocate (t : Tensor) : Task Nat := do
  if t.place = .device && ((← get).memory.cell t.cell).reserved then
    throw (.error (.allocation (.alreadyAllocated t.backend)))
  Machine.reserve t.cell t.info.elements

def backendFailure {α : Type} (t : Tensor) (reason : String) : Task α :=
  throw (.error (.execution (.backend t.backend reason)))

/-- A device tensor has memory. -/
def requireReserved (t : Tensor) : Task Unit := do
  if t.place = .device && !((← get).memory.cell t.cell).reserved then
    throw (.error (.allocation (.notPrepared t.backend)))

/-- The words in storage order. -/
def read (t : Tensor) : Task Buffer := do
  t.requireReserved
  if t.place = .device then Machine.synchronize
  match (← get).memory.load t.cell with
  | .ok words => return words
  | .error reason => t.backendFailure reason

/-- Stores words from the host in a device cell. -/
def uploadCommand (cell : CellId) (words : Buffer) : Command where
  label := "copy host to device"
  run memory :=
    match memory.load cell with
    | .ok _ => (memory.store cell words, .ok ())
    | .error reason => (memory, .error reason)

/-- Replaces the words, given in storage order. -/
def write (t : Tensor) (words : Buffer) : Task Unit := do
  t.requireReserved
  let given := words.size
  let held := ((← get).memory.cell t.cell).words.size
  if given ≠ held then
    t.backendFailure s!"write of {given} elements into a tensor of {held}"
  match t.place with
  | .host => modify fun m => { m with memory := m.memory.store t.cell words }
  | .device => Machine.submit (uploadCommand t.cell words)

/-- Reorders words of this tensor's shape; words that are missing are out of bounds. -/
def reorder (t : Tensor) (source target : Layout) (words : Buffer) : Task Buffer :=
  match Layout.convert source target t.info.shape words with
  | some out => return out
  | none => throw .outOfBounds

/-- The words in the model's logical order. -/
def readLogical (t : Tensor) : Task Buffer := do
  t.reorder t.layout .nhwc (← t.read)

/-- Replaces the words, given in the model's logical order. -/
def writeLogical (t : Tensor) (words : Buffer) : Task Unit := do
  t.write (← t.reorder .nhwc t.layout words)

end Tensor

end HeteroNet
