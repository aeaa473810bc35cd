import HeteroNet.Plan

/-
Those who hold memory of one device. Buffers are taken from the device one by one, and they are
taken by builders, for tensors. Whoever has a handle on a buffer or a tensor can make another one,
and lets go of each of them at a time of his own; a builder lets go of its tensors when it is
dropped. A buffer is live as long as somebody holds it.
-/

namespace HeteroNet

/-! ## Calls on a builder -/

namespace TensorBuilder

/-- A call that makes another builder of this one; if it fails this one stays. -/
def becomes (b : TensorBuilder) (t : Task TensorBuilder) (m : Machine) :
    Except Failure Unit × TensorBuilder × Machine :=
  match t.on m with
  | (.ok b', m') => (.ok (), b', m')
  | (.error e, m') => (.error e, b, m')

/-- The cells of its tensors. -/
def cells (b : TensorBuilder) : List CellId := b.allTensors.map Tensor.cell

end TensorBuilder

inductive BuilderCall where
  | mark (i : OperandId)
  | prepare (constraints : ShapeConstraints)
  | allocate
  | scratch (info : TensorInfo)

/-- The answer of the call, and the builder and the machine as it leaves them. -/
def BuilderCall.on (b : TensorBuilder) (m : Machine) :
    BuilderCall → Except Failure Unit × TensorBuilder × Machine
  | mark i => b.becomes (b.mark i) m
  | prepare constraints => b.becomes (b.prepare constraints) m
  | allocate => b.allocate m
  | scratch info => b.becomes (do return (← b.addScratch info).1) m

/-! ## Tenants -/

structure Tenants where
  machine : Machine
  builders : List TensorBuilder := []
  /-- The cells that are held otherwise, each as often as there are handles on it. -/
  handles : List CellId := []

namespace Tenants

/-- A call. Builders and handles are given by their positions; a call on one that is not there is
none. -/
inductive Call where
  /-- Takes a buffer from the device. -/
  | allocate (elements : Nat)
  | cloneHandle (k : Nat)
  | dropHandle (k : Nat)
  | newBuilder (backend : BackendId)
  | onBuilder (k : Nat) (c : BuilderCall)
  /-- Makes a handle on one of the builder's tensors. -/
  | keep (k n : Nat)
  | dropBuilder (k : Nat)

/-- Another handle on a cell. -/
def hold (p : Tenants) (i : CellId) : Tenants :=
  { p with machine := p.machine.retain i, handles := i :: p.handles }

def call (p : Tenants) : Call → Except Failure Unit × Tenants
  | .allocate elements =>
    match (Machine.allocate elements).on p.machine with
    | (.ok i, machine) => (.ok (), { p with machine, handles := i :: p.handles })
    | (.error e, machine) => (.error e, { p with machine })
  | .cloneHandle k =>
    match p.handles[k]? with
    | some i => (.ok (), p.hold i)
    | none => (.ok (), p)
  | .dropHandle k =>
    match p.handles[k]? with
    | some i =>
      (.ok (), { p with machine := p.machine.release i, handles := p.handles.eraseIdx k })
    | none => (.ok (), p)
  | .newBuilder backend =>
    (.ok (), { p with builders := p.builders ++ [{ backend, place := .device }] })
  | .onBuilder k c =>
    match p.builders[k]? with
    | some b =>
      let (answer, b, machine) := c.on b p.machine
      (answer, { p with machine, builders := p.builders.set k b })
    | none => (.ok (), p)
  | .keep k n =>
    match p.builders[k]? with
    | some b =>
      match b.cells[n]? with
      | some i => (.ok (), p.hold i)
      | none => (.ok (), p)
    | none => (.ok (), p)
  | .dropBuilder k =>
    match p.builders[k]? with
    | some b => (.ok (), { p with
        machine := Plan.releaseAll [b] p.machine, builders := p.builders.eraseIdx k })
    | none => (.ok (), p)

/-- After some calls, whatever they answered. -/
def after (p : Tenants) (calls : List Call) : Tenants := calls.foldl (fun p c => (p.call c).2) p

/-- All handles on cells, those of builders included. -/
def holders (p : Tenants) : List CellId := p.handles ++ p.builders.flatMap TensorBuilder.cells

/-- The buffers that somebody holds. -/
def live (p : Tenants) : List CellId :=
  (List.range p.machine.memory.length).filter fun i =>
    (p.machine.memory.cell i).reserved && decide (i ∈ p.holders)

end Tenants

end HeteroNet
