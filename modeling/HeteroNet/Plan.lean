import HeteroNet.Initializer
import HeteroNet.Model.Order
import HeteroNet.Stage

/-
Plans. What planning collects (the tensor each operand needs, how constants are filled, one
stage per operation) is finalized into a plan: a lowered model, tensors with memory, and
runnables in order.
-/

namespace HeteroNet

structure PlanDraft where
  constraints : ShapeConstraints := []
  /-- One initializer per constant; the last one given wins. -/
  initializers : SortedMap OperandId Initializer := []
  stages : List Stage := []
  deriving DecidableEq, Repr

structure Plan where
  model : Model
  builders : List TensorBuilder
  runnables : List Runnable
  deriving DecidableEq, Repr

namespace PlanDraft

/-- Records the tensor an operand needs. Its shape may be recorded again, but not changed. -/
def addConstraint (d : PlanDraft) (i : OperandId) (info : TensorInfo) : Except Error PlanDraft :=
  match d.constraints.find? i with
  | some existing =>
    if existing.shape ≠ info.shape then
      .error (AllocationError.inconsistentShapeConstraint i existing.shape info.shape)
    else .ok { d with constraints := d.constraints.insert i info }
  | none => .ok { d with constraints := d.constraints.insert i info }

def addInitializer (d : PlanDraft) (i : OperandId) (init : Initializer) : PlanDraft :=
  { d with initializers := d.initializers.insert i init }

def addStage (d : PlanDraft) (s : Stage) : PlanDraft := { d with stages := d.stages ++ [s] }

end PlanDraft

namespace Plan

/-- The backends of the plan, in order. -/
def backends (p : Plan) : List BackendId := p.builders.map (·.backend)

/-- The tensors made for an operand, one for each backend that marked it. -/
def tensors (p : Plan) (i : OperandId) : List Tensor :=
  p.builders.filterMap fun b => if i ∈ b.marked then b.tensors.find? i else none

/-- Every tensor of the plan, scratch included. -/
def allTensors (p : Plan) : List Tensor := p.builders.flatMap (·.allTensors)

/-- Another holder of the plan's memory. -/
def retain (p : Plan) (m : Machine) : Machine := p.allTensors.foldl (fun m t => t.retain m) m

/-- One holder of the plan's memory fewer. -/
def release (p : Plan) (m : Machine) : Machine := p.allTensors.foldl (fun m t => t.release m) m

/-- Waits for the tensors of several builders. All are waited for, and the first failure is the
one reported. -/
def synchronizeAll : List TensorBuilder → Task Unit
  | [] => return ()
  | b :: rest => do
    let first ← observing b.synchronize
    let others ← observing (synchronizeAll rest)
    match first, others with
    | .error e, _ => throw e
    | .ok (), .error e => throw e
    | .ok (), .ok () => return ()
where
  /-- Runs a call and takes its failure as an answer. -/
  observing (t : Task Unit) : Task (Except Failure Unit) := do
    let (answer, m) := t.on (← get)
    set m
    return answer

def synchronize (p : Plan) : Task Unit := synchronizeAll p.builders

/-- Runs the steps in order. After a failed step the device is waited for, so that the next run
starts clean; the failure of the step is the one reported. -/
def runAll (p : Plan) : List Runnable → Task Unit
  | [] => p.synchronize
  | r :: rest => do
    match r.run.on (← get) with
    | (.ok (), m) => do
      set m
      p.runAll rest
    | (.error e, m) => do
      set (p.synchronize.on m).2
      throw e

def execute (p : Plan) : Task Unit := p.runAll p.runnables

/-- Gives memory to the tensors of all builders. -/
def allocateAll : List TensorBuilder → Machine → Except Failure Unit × List TensorBuilder × Machine
  | [], m => (.ok (), [], m)
  | b :: rest, m =>
    match b.allocate m with
    | (.ok (), b, m) =>
      let (answer, rest, m) := allocateAll rest m
      (answer, b :: rest, m)
    | (.error e, b, m) => (.error e, b :: rest, m)

/-- Fills the tensors of every constant. -/
def fillConstants (p : Plan) (inits : SortedMap OperandId Initializer) : Task Unit :=
  inits.forM fun (i, init) => (p.tensors i).forM init.fill

def releaseAll (bs : List TensorBuilder) (m : Machine) : Machine :=
  (bs.flatMap (·.allTensors)).foldl (fun m t => t.release m) m

end Plan

namespace PlanDraft

/-- The last steps to a plan, once tensors are prepared: memory, runnables, constants. The
builders are kept when a step fails, for their memory to be given back. -/
def assemble (d : PlanDraft) (model : Model) : Assemble Plan := do
  let a ← get
  let (answer, builders, machine) := Plan.allocateAll a.builders a.machine
  set { a with builders, machine }
  answer
  d.stages.forM Stage.apply
  let a ← get
  let plan : Plan := { model, builders := a.builders, runnables := a.runnables }
  Assembly.onMachine (plan.fillConstants d.initializers)
  Assembly.onMachine plan.synchronize
  return plan

/-- Prepares and allocates all tensors, binds the stages to them and fills the constants. A
failed call gives back all memory. -/
def finalize (d : PlanDraft) (model : Model) (builders : List TensorBuilder) : Task Plan := do
  let builders ← builders.mapM (·.prepare d.constraints)
  let (answer, a) := StateT.run (ExceptT.run (d.assemble model)) { builders, machine := ← get }
  match answer with
  | .ok plan => do
    set a.machine
    return plan
  | .error e => do
    set (Plan.releaseAll a.builders a.machine)
    throw e

end PlanDraft

end HeteroNet
