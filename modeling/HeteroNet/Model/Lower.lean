import HeteroNet.Model.Check

/-
Lowering: every operation gets a backend, and every edge between two backends is split by a
`permute`, which copies the operand that crosses the edge. Two readers of one operand on the
same backend share a copy.
-/

namespace HeteroNet.Model

/-- The copies made so far: the copy of an operand for a backend. -/
abbrev Copies := List ((OperandId × BackendId) × OperandId)

/-- The backend given to an operation, while the model is being lowered. -/
def placementOf (i : OperationId) : Edit Placement := do
  match (← get).placements[i]? with
  | some p => return p
  | none => throw (Error.internal s!"operation #{i} has no backend")

/-- Appends a copy of operand `o`, and the operation that writes it for a reader placed at
`reader`. -/
def addCopy (o : OperandId) (source : BackendId) (reader : Placement) : Edit OperandId := do
  let m ← get
  let copied ← m.operands.get o
  let copy := m.operands.length
  let permute : Operation :=
    { inputs := [o], outputs := [copy], attributes := .permute source reader.backend }
  set { m with
    operands := m.operands ++ [{ shape := copied.shape, type := copied.type : Operand }]
    operations := m.operations ++ [permute]
    placements := m.placements ++ [reader] }
  return copy

/-- Makes operation `user` read a copy of `o` if it runs on another backend than its writer. -/
def redirect (writer : Placement) (o : OperandId) (copies : Copies) (user : OperationId) :
    Edit Copies := do
  let reader ← placementOf user
  if reader.backend = writer.backend then return copies
  let key := (o, reader.backend)
  let (copy, copies) ← match copies.lookup key with
    | some copy => pure (copy, copies)
    | none => do
      let copy ← addCopy o writer.backend reader
      pure (copy, (key, copy) :: copies)
  modify fun m => { m with operations := m.operations.modify user (·.replaceInput o copy) }
  return copies

/-- Splits the edges that leave operation `i`. -/
def splitEdges (copies : Copies) (i : OperationId) : Edit Copies := do
  let writer ← placementOf i
  let op ← (← get).operation i
  op.outputs.foldlM (fun copies o => do
    (← (← get).operands.get o).uses.foldlM (redirect writer o) copies) copies

/-- Splits every edge between two backends. Only the operations there were before have edges to
split. -/
def splitAll : Edit Unit := do
  discard ((List.range (← get).operations.length).foldlM splitEdges [])

/-- The layout in which a backend stores rank 4 tensors, as the last operation placed on it
says. -/
def layoutOf (m : Model) (id : BackendId) : Layout :=
  ((m.placements.reverse.find? (·.backend == id)).map (·.layout)).getD .nhwc

/-- Where an operation placed at `p` reads its inputs: a `permute` reads on the backend it
copies from. -/
def readPlacement (m : Model) (op : Operation) (p : Placement) : Placement :=
  match op.attributes with
  | .permute source _ => ⟨source, m.layoutOf source⟩
  | _ => p

/-- Changes what is known of the backends of operand `i`. -/
def updatePlacement (i : OperandId) (f : OperandPlacement → OperandPlacement) (m : Model) : Model :=
  { m with operands := m.operands.modify i fun o =>
      { o with placement := some (f (o.placement.getD { dims := o.shape.lastFour })) } }

/-- Records for every operand which backends write and read it. -/
def placeOperands (m : Model) : Model :=
  let cleared := { m with operands := m.operands.map fun o => { o with placement := none } }
  (m.operations.zip m.placements).foldl (fun acc (op, p) =>
    let read := m.readPlacement op p
    let acc := op.inputs.foldl (fun acc i => acc.updatePlacement i (·.addReader read)) acc
    op.outputs.foldl (fun acc i => acc.updatePlacement i (·.addWriter p)) acc) cleared

/-- Gives every operation a backend and splits the edges between backends. -/
def lower (placements : List Placement) : Edit Unit := do
  let m ← get
  m.requirePhase .finished
  if placements.length ≠ m.operations.length then
    let given := placements.length
    let wanted := m.operations.length
    throw (Error.internal s!"{given} backend assignments for {wanted} operations")
  set { m with placements }
  splitAll
  link
  modify placeOperands
  (← get).check
  modify fun m => { m with phase := .lowered }

end HeteroNet.Model
