import HeteroNet.Buffer
import HeteroNet.Kind
import HeteroNet.Loop

/-
A fully connected layer: the input, whatever its rank, is read as rows, and every unit takes
the dot product of each row with its weights.
-/

namespace HeteroNet.Compute

/-- The dot product, summed in order from a negative zero, which is neutral for sums. -/
def dot (xs ws : List Word) : Word := (List.zipWith Word.mul xs ws).foldl Word.add Word.negZero

def fullyConnected (batch inputSize : Nat) (input weights bias : Buffer) (activation : Activation)
    (output : Buffer) : Option Buffer :=
  Loop.count batch (fun out b => do
    let row ← input.slice (b * inputSize) ((b + 1) * inputSize)
    let unit (u : Nat) : Option Word := do
      let ws ← weights.slice (u * inputSize) ((u + 1) * inputSize)
      return activation.apply ((dot row ws).add (← bias.read u))
    Buffer.fill (fun u => b * bias.size + u) unit (List.range bias.size) out) output

end HeteroNet.Compute
