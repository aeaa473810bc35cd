import HeteroNet.SortedMap
import HeteroNet.Tensor

/-
The tensors of one backend in one plan. Operands are marked first; then one tensor is prepared
for each from its shape constraint; then all of them get memory. After that, scratch tensors
that stand for no operand can be added.
-/

namespace HeteroNet

inductive BuilderPhase where
  | marking
  | prepared
  | allocated
  deriving DecidableEq, Repr

structure BuilderStats where
  markCalls : Nat := 0
  marked : Nat := 0
  prepareCalls : Nat := 0
  allocateCalls : Nat := 0
  tensors : Nat := 0
  /-- Tensors that stand for no operand. -/
  scratch : Nat := 0
  /-- The memory of all tensors, scratch included. -/
  bytes : Nat := 0
  deriving DecidableEq, Repr

namespace BuilderStats

def text (s : BuilderStats) : String :=
  s!"marked={s.marked} tensors={s.tensors} scratch={s.scratch} bytes={s.bytes} " ++
    s!"(mark calls={s.markCalls}, prepare={s.prepareCalls}, allocate={s.allocateCalls})"

end BuilderStats

structure TensorBuilder where
  backend : BackendId
  place : Place
  phase : BuilderPhase := .marking
  /-- The marked operands, ascending. -/
  marked : List OperandId := []
  tensors : SortedMap OperandId Tensor := []
  scratch : List Tensor := []
  stats : BuilderStats := {}
  deriving DecidableEq, Repr

/-- The tensor that each operand needs. -/
abbrev ShapeConstraints := SortedMap OperandId TensorInfo

namespace TensorBuilder

def fail {α : Type} (e : AllocationError) : Except Failure α := .error (.error (.allocation e))

def mark (b : TensorBuilder) (i : OperandId) : Except Failure TensorBuilder :=
  if b.phase ≠ .marking then fail (.alreadyPrepared b.backend)
  else
    let marked := insertSorted i b.marked
    .ok { b with marked, stats :=
      { b.stats with markCalls := b.stats.markCalls + 1, marked := marked.length } }

/-- The tensors of the marked operands, without memory. -/
def createTensors (b : TensorBuilder) (wanted : List (OperandId × TensorInfo)) :
    Task (SortedMap OperandId Tensor) :=
  wanted.mapM fun (i, info) => return (i, ← Tensor.create b.place b.backend info)

/-- What each marked operand needs, in order. -/
def wanted (b : TensorBuilder) (constraints : ShapeConstraints) :
    Except Failure (List (OperandId × TensorInfo)) :=
  b.marked.mapM fun i =>
    match constraints.find? i with
    | some info => .ok (i, info)
    | none => fail (.missingShapeConstraint i)

def prepare (b : TensorBuilder) (constraints : ShapeConstraints) : Task TensorBuilder := do
  if b.phase ≠ .marking then fail (.alreadyPrepared b.backend)
  let tensors ← b.createTensors (← b.wanted constraints)
  return { b with tensors, phase := .prepared, stats :=
    { b.stats with prepareCalls := b.stats.prepareCalls + 1 } }

/-- Counts one operand tensor of `bytes` bytes. -/
def countTensor (bytes : Nat) (b : TensorBuilder) : TensorBuilder :=
  { b with stats :=
    { b.stats with bytes := b.stats.bytes + bytes, tensors := b.stats.tensors + 1 } }

/-- Gives memory to tensors one after another, and stops at the first that gets none. The
builder has counted those before it. -/
def reserveAll : List Tensor → TensorBuilder → Machine → Except Failure Unit × TensorBuilder × Machine
  | [], b, m => (.ok (), b, m)
  | t :: ts, b, m =>
    match t.allocate.on m with
    | (.ok bytes, m) => reserveAll ts (b.countTensor bytes) m
    | (.error e, m) => (.error e, b, m)

/-- Gives memory to every prepared tensor. The answer comes with the builder and the machine as
the call leaves them, which it does also when it fails halfway. -/
def allocate (b : TensorBuilder) (m : Machine) : Except Failure Unit × TensorBuilder × Machine :=
  match b.phase with
  | .marking => (fail (.notPrepared b.backend), b, m)
  | .allocated => (fail (.alreadyAllocated b.backend), b, m)
  | .prepared =>
    let counted := { b with stats := { b.stats with allocateCalls := b.stats.allocateCalls + 1 } }
    match reserveAll (b.tensors.map (·.2)) counted m with
    | (.ok (), b, m) => (.ok (), { b with phase := .allocated }, m)
    | (.error e, b, m) => (.error e, b, m)

/-- Adds a scratch tensor. -/
def addScratch (b : TensorBuilder) (info : TensorInfo) : Task (TensorBuilder × Tensor) := do
  if b.phase ≠ .allocated then fail (.notAllocated b.backend)
  let t ← Tensor.create b.place b.backend info
  let bytes ← t.allocate
  let b := { b with scratch := b.scratch ++ [t], stats :=
    { b.stats with bytes := b.stats.bytes + bytes, scratch := b.stats.scratch + 1 } }
  return (b, t)

/-- The tensor of an operand. -/
def tensor (b : TensorBuilder) (i : OperandId) : Except Failure Tensor :=
  match b.tensors.find? i with
  | some t => .ok t
  | none => fail (.unboundOperand b.backend i)

/-- Every tensor the builder made. -/
def allTensors (b : TensorBuilder) : List Tensor := b.tensors.map (·.2) ++ b.scratch

/-- Waits for the device, if the tensors live there. -/
def synchronize (b : TensorBuilder) : Task Unit :=
  match b.place with
  | .host => return ()
  | .device => Machine.synchronize

end TensorBuilder

namespace Tensor

def retain (t : Tensor) (m : Machine) : Machine := m.retain t.cell
def release (t : Tensor) (m : Machine) : Machine := m.release t.cell

end Tensor

end HeteroNet
