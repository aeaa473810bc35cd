import HeteroNet.Buffer
import HeteroNet.Loop

/-
Softmax along one axis of a tensor, seen as `outer` by `axisLen` by `inner` elements.
-/

namespace HeteroNet.Compute

/-- The softmax of one line of elements, scaled by `beta`. The largest is subtracted first. -/
def softmaxLine (beta : Word) (xs : List Word) : List Word :=
  let top := xs.foldl Word.max Word.negInfinity
  let es := xs.map fun x => ((x.sub top).mul beta).exp
  let total := es.foldl Word.add Word.zero
  es.map fun e => e.div total

/-- Element `a` of the line at `(o, i)` is stored at `(o * axisLen + a) * inner + i`. -/
def softmaxAt (axisLen inner o i a : Nat) : Nat := (o * axisLen + a) * inner + i

/-- Replaces the line at `(o, i)`. -/
def softmaxAlong (axisLen inner : Nat) (beta : Word) (input : Buffer) (o i : Nat)
    (output : Buffer) : Option Buffer := do
  let xs ← Loop.gather axisLen fun a => input.read (softmaxAt axisLen inner o i a)
  Buffer.fill (fun p : Word × Nat => softmaxAt axisLen inner o i p.2) (fun p => some p.1)
    (softmaxLine beta xs).zipIdx output

def softmax (outer axisLen inner : Nat) (beta : Word) (input output : Buffer) : Option Buffer :=
  Loop.count outer (fun output o =>
    Loop.count inner (fun output i =>
      softmaxAlong axisLen inner beta input o i output) output) output

end HeteroNet.Compute
