import HeteroNet.Buffer
import HeteroNet.Element
import HeteroNet.Kind

/-
Kernels that treat each element by itself. Where buffers differ in length the shortest decides.
-/

namespace HeteroNet.Compute

def add (lhs rhs : Buffer) (activation : Activation) (output : Buffer) : Option Buffer :=
  Buffer.fill id
    (fun i => do return activation.apply ((← lhs.read i).add (← rhs.read i)))
    (List.range (min output.size (min lhs.size rhs.size))) output

/-- Stores the numbers of `input` as words of another type. Words of the same type are copied
as they are, as many as the output holds. -/
def cast (source target : TypeInfo) (input output : Buffer) : Option Buffer :=
  if source.same target then
    if output.size ≤ input.size then some (input.extract 0 output.size) else none
  else
    Buffer.fill id (fun i => do return target.word (source.real (← input.read i)))
      (List.range (min output.size input.size)) output

def activate (activation : Activation) (output : Buffer) : Buffer := output.map activation.apply

end HeteroNet.Compute
