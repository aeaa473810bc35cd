import HeteroNet.Plan

/-
Sessions: one binding of a caller's buffers to a plan.

A run pushes the bound inputs into every tensor of their operands, runs the plan, and pulls each
output from the first tensor of its operand. Inputs and outputs are rows (`[1, n]`) or rank 4
feature maps, in logical order.
-/

namespace HeteroNet

/-- How a caller's buffer is read. -/
inductive SlotShape where
  | vector (length : Nat)
  | feature (f : Feature)
  deriving DecidableEq, Repr

namespace SlotShape

def ofShape (i : OperandId) (s : Shape) : Except Error SlotShape :=
  match s with
  | [1, n] => .ok (.vector n)
  | [n, h, w, c] => .ok (.feature ⟨n, h, w, c⟩)
  | _ => .error (ExecutionError.unsupportedRank i s.rank)

def elements : SlotShape → Nat
  | vector n => n
  | feature f => f.elements

end SlotShape

/-- A caller's buffer bound to a model input or output. -/
structure Binding where
  operand : OperandId
  shape : SlotShape
  element : ElementType
  buffer : Bytes
  deriving DecidableEq, Repr

namespace Binding

/-- Binds a buffer that is long enough for the operand. -/
def create (i : OperandId) (o : Operand) (buffer : Bytes) : Except Error Binding := do
  let shape ← SlotShape.ofShape i o.shape
  if buffer.length < o.byteSize then
    throw (.execution (.bufferTooSmall i o.byteSize buffer.length))
  return { operand := i, shape, element := o.element, buffer }

/-- The elements of the operand in the buffer. -/
def values (b : Binding) : List Word := (b.element.decode b.buffer).take b.shape.elements

/-- Writes elements over the start of the buffer; what lies beyond them stays. -/
def overwrite (b : Binding) (ws : Buffer) : Binding :=
  let bytes := b.element.encode (ws.toList.take b.shape.elements)
  { b with buffer := bytes ++ b.buffer.drop bytes.length }

def push (b : Binding) (t : Tensor) : Task Unit := t.writeLogical b.values.toArray

def pull (b : Binding) (t : Tensor) : Task Binding := do return b.overwrite (← t.readLogical)

end Binding

inductive SessionState where
  | created
  | inputsBound
  | outputsBound
  | ran
  deriving DecidableEq, Repr

namespace SessionState

def name : SessionState → String
  | created => "created"
  | inputsBound => "inputs bound"
  | outputsBound => "outputs bound"
  | ran => "ran"

/-- The state as descriptions of a session write it. -/
def label : SessionState → String
  | created => "Created"
  | inputsBound => "InputsBound"
  | outputsBound => "OutputsBound"
  | ran => "Ran"

end SessionState

structure Session where
  plan : Plan
  sources : List (Option Binding)
  sinks : List (Option Binding)
  state : SessionState := .created
  deriving DecidableEq, Repr

/-- A run changes the session and the machine, also when it fails. -/
abbrev SessionTask := ExceptT Failure (StateM (Session × Machine))

namespace Session

/-- A session with nothing bound. -/
def new (plan : Plan) : Session :=
  { plan
    sources := List.replicate plan.model.inputs.length none
    sinks := List.replicate plan.model.outputs.length none }

/-- The progress that the bindings make up: all inputs first, then all outputs. -/
def boundState (s : Session) : SessionState :=
  if s.sources.any (·.isNone) then .created
  else if s.sinks.any (·.isNone) then .inputsBound
  else .outputsBound

/-- The binding of a buffer to one of the slots that `operands` lists. -/
def bind (s : Session) (operands : List OperandId) (slot : SlotId) (buffer : Bytes) :
    Except Error Binding := do
  match operands[slot]? with
  | none => throw (.execution (.noSlot slot operands.length))
  | some i => Binding.create i (← s.plan.model.operands.get i) buffer

def setInput (s : Session) (slot : SlotId) (buffer : Bytes) : Except Error Session := do
  let b ← s.bind s.plan.model.inputs slot buffer
  let s := { s with sources := s.sources.set slot (some b) }
  return { s with state := s.boundState }

def setOutput (s : Session) (slot : SlotId) (buffer : Bytes) : Except Error Session := do
  let b ← s.bind s.plan.model.outputs slot buffer
  let s := { s with sinks := s.sinks.set slot (some b) }
  return { s with state := s.boundState }

/-- Every slot is bound; the first that is not is reported, inputs before outputs. -/
def requireBound (s : Session) : Except Error Unit := do
  match s.sources.findIdx? (·.isNone), s.sinks.findIdx? (·.isNone) with
  | some i, _ => throw (.execution (.unboundInput i))
  | none, some i => throw (.execution (.unboundOutput i))
  | none, none => return ()

/-- A call on the machine as part of a run. -/
def onMachine {α : Type} (t : Task α) : SessionTask α := do
  let (s, m) ← get
  let (answer, m) := t.on m
  set (s, m)
  answer

/-- Writes every input into all tensors of its operand. -/
def pushAll (s : Session) : Task Unit :=
  s.sources.forM fun source =>
    match source with
    | some b => (s.plan.tensors b.operand).forM b.push
    | none => return ()

/-- Reads one output from the first tensor of its operand. -/
def pullOne (slot : SlotId) : SessionTask Unit := do
  let (s, _) ← get
  match s.sinks[slot]? with
  | some (some b) =>
    match s.plan.tensors b.operand with
    | t :: _ => do
      let b ← onMachine (b.pull t)
      modify fun (s, m) => ({ s with sinks := s.sinks.set slot (some b) }, m)
    | [] => throw (.error (.internal s!"output #{b.operand} has no tensor"))
  | _ => return ()

/-- Pushes the inputs, runs the plan, pulls the outputs. -/
def run : SessionTask Unit := do
  let (s, _) ← get
  s.requireBound
  onMachine s.pushAll
  onMachine s.plan.execute
  (List.range s.sinks.length).forM pullOne
  modify fun (s, m) => ({ s with state := .ran }, m)

/-- The buffer bound to an output. -/
def output (s : Session) (slot : SlotId) : Except Error Bytes :=
  match s.sinks[slot]? with
  | none => .error (ExecutionError.noSlot slot s.sinks.length)
  | some none => .error (ExecutionError.unboundOutput slot)
  | some (some b) => .ok b.buffer

def describe (s : Session) : String :=
  let inputs := (s.sources.filter (·.isSome)).length
  let outputs := (s.sinks.filter (·.isSome)).length
  s!"Execution \x7b state: {s.state.label}, inputs: {inputs}, outputs: {outputs} \x7d"

end Session

end HeteroNet
