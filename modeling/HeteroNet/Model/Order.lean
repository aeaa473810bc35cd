import HeteroNet.Model.Lower

/-
The order in which the operations of a lowered model run, and the tensors that each backend
needs for it.
-/

namespace HeteroNet.Model

/-- Every operation once, writers before readers. -/
def linearize (m : Model) : Except Error (List OperationId) := do
  m.requirePhase .lowered
  return (← Search.all m fun _ => pure ()).finished

/-- The backend and operand of each tensor that one operation needs. A `permute` reads on the
backend it copies from and writes on the one it copies to. -/
def tensorsOf (op : Operation) (p : Placement) : List (BackendId × OperandId) :=
  match op.attributes with
  | .permute source target =>
    op.inputs.map (fun i => (source, i)) ++ op.outputs.map (fun i => (target, i))
  | _ => (op.inputs ++ op.outputs).map fun i => (p.backend, i)

/-- The operations of a list of indices, each with its backend. -/
def placedOperations (m : Model) (order : List OperationId) :
    Except Error (List (Operation × Placement)) :=
  order.mapM fun i => return (← m.operation i, ← m.placement i)

/-- The backend and operand of every tensor the model needs, in the order of use. -/
def tensorMarks (m : Model) (order : List OperationId) :
    Except Error (List (BackendId × OperandId)) := do
  return (← m.placedOperations order).flatMap fun (op, p) => tensorsOf op p

end HeteroNet.Model
