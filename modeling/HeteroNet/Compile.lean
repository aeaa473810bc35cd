import HeteroNet.Planner
import HeteroNet.Policy

/-
From a model to a plan: choose backends, lower, order, mark the tensors each backend needs, plan
every operation, finalize. Any failure ends the compilation, and gives back its memory.
-/

namespace HeteroNet

/-- Marks one tensor with the context of its backend, which is made when it is first needed. -/
def markTensor (contexts : SortedMap BackendId Context) (need : BackendId × OperandId) :
    PlatformTask (SortedMap BackendId Context) := do
  let (id, i) := need
  let c ← match contexts.find? id with
    | some c => pure c
    | none => Platform.newContext id
  let builder ← c.builder.mark i
  return contexts.insert id { c with builder }

/-- The model, finished if it was still being built, with a backend for every operation. -/
def placeModel (model : Model) (registry : Registry) (policy : Policy) : Except Error Model := do
  let model ← if model.phase = .building then after Model.finish model else pure model
  let placements ← policy.resolve registry model
  after (Model.lower placements) model
where
  /-- The model after a call that succeeds. -/
  after (e : Edit Unit) (m : Model) : Except Error Model :=
    match e.on m with
    | (.ok (), m) => .ok m
    | (.error e, _) => .error e

/-- Plans the operations of a lowered model in order. -/
def draftPlan (model : Model) (contexts : SortedMap BackendId Context)
    (order : List OperationId) : Except Failure PlanDraft := do
  let ops ← model.placedOperations order
  let ((), draft) ← (ops.forM fun (op, p) => Planner.visit model.operands contexts op p).run {}
  return draft

/-- Compiles a model against the registered backends. -/
def compile (model : Model) (policy : Policy) : PlatformTask Plan := do
  let model ← placeModel model (← get).registry policy
  let order ← model.linearize
  let marks ← model.tensorMarks order
  let contexts ← marks.foldlM markTensor []
  let draft ← draftPlan model contexts order
  Platform.onMachine (draft.finalize model (contexts.map fun (_, c) => c.builder))

end HeteroNet
