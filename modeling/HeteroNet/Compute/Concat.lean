import HeteroNet.Buffer
import HeteroNet.Shape

/-
Concatenation along one storage axis. The inputs agree in every extent but that one. For each
index before the axis, every input contributes one run of the output.
-/

namespace HeteroNet.Compute

/-- Copies one input to its place: `before` elements of the axis come from earlier inputs, and
the output has `total` of them. -/
def placeInput (axis outer inner total before : Nat) (data : Buffer) (dims : Shape)
    (output : Buffer) : Option Buffer := do
  let extent ← dims[axis]?
  let run := extent * inner
  Loop.count outer (fun out o => do
    let ws ← data.slice (o * run) ((o + 1) * run)
    out.writeRun ((o * total + before) * inner) ws) output

def placeInputs (axis outer inner total : Nat) :
    (before : Nat) → List (Buffer × Shape) → Buffer → Option Buffer
  | _, [], output => some output
  | before, (data, dims) :: rest, output => do
    let extent ← dims[axis]?
    let output ← placeInput axis outer inner total before data dims output
    placeInputs axis outer inner total (before + extent) rest output

/-- Concatenates `inputs`, each with its storage extents. Without inputs the output stays. -/
def concat (inputs : List (Buffer × Shape)) (axis : Nat) (output : Buffer) : Option Buffer :=
  match inputs with
  | [] => some output
  | (_, first) :: _ => do
    if first.length ≤ axis then none
    let extents ← inputs.mapM fun (_, dims) => dims[axis]?
    let outer := Shape.elements (first.take axis)
    let inner := Shape.elements (first.drop (axis + 1))
    placeInputs axis outer inner (extents.foldl (· + ·) 0) 0 inputs output

end HeteroNet.Compute
