import HeteroNet.Tensor

/-
The queue of the device, with its worker. Commands are sent to the queue, and a worker takes them
from its front at times of its own. To wait for the device the host sends a fence and does not go on
until the worker has met it; only then does it look at what failed. So the machine lags behind the
host by what is still in the queue.

A queue goes on by turns. On its turn the host makes its next call, or ends the call in which it
waited; on its turn the worker takes the item at the front. Who has its turn when is a schedule.
`eager` makes the same calls on a machine whose commands run when they are submitted.
-/

namespace HeteroNet

/-! ## Jobs -/

/-- How the body of a job ends. -/
inductive Ending where
  | done
  | failed (reason : String)
  | panicked
  deriving DecidableEq, Repr

/-- What the device makes of it. A panic is caught. -/
def Ending.result : Ending → Except String Unit
  | done => .ok ()
  | failed reason => .error reason
  | panicked => .error "command panicked"

/-- A body to run on the device, and a label to report it under. -/
structure Job where
  label : String
  body : Memory → Memory × Ending

def Job.command (j : Job) : Command where
  label := j.label
  run memory := ((j.body memory).1, (j.body memory).2.result)

/-- What there is to know of a cell but for the words in it and for damage. -/
def Cell.slot (c : Cell) : Place × Nat × Bool × Nat :=
  (c.place, c.words.size, c.reserved, c.holders)

namespace Memory

def slots (m : Memory) : List (Place × Nat × Bool × Nat) := m.map Cell.slot

end Memory

/-- The job writes into cells; it makes, resizes and frees none. -/
def Job.Writes (j : Job) : Prop := ∀ memory, Memory.slots (j.body memory).1 = memory.slots

/-! ## Calls of the host -/

/-- A call of the host. Tensors are the device's. -/
inductive Request where
  | enqueue (j : Job) (writes : j.Writes)
  | synchronize
  | write (t : Tensor) (onDevice : t.place = .device) (words : Buffer)
  | read (t : Tensor) (onDevice : t.place = .device)
  | injectFault (text : String)

/-- A call that reads answers with words, every other call with nothing. -/
abbrev Reply := Except Failure (Option Buffer)

namespace Tensor

/-- The command that writes words into a device tensor, which must have room for just as many. -/
def upload (t : Tensor) (words : Buffer) : Task Command := do
  t.requireReserved
  let given := words.size
  let held := ((← get).memory.cell t.cell).words.size
  if given ≠ held then
    t.backendFailure s!"write of {given} elements into a tensor of {held}"
  return uploadCommand t.cell words

end Tensor

/-- What is left of a call once its fence is met: to report what failed, and to read. -/
def afterFence (read : Option Tensor) : Task (Option Buffer) := do
  Machine.synchronize
  match read with
  | none => return none
  | some t =>
    match (← get).memory.load t.cell with
    | .ok words => return some words
    | .error reason => t.backendFailure reason

/-! ## The queue -/

inductive Item where
  | job (c : Command)
  | fence

/-- Where the host is: between two calls, or in one that waits. -/
inductive Host where
  | ready
  /-- The fence is in the queue. -/
  | waiting (read : Option Tensor)
  /-- The fence was met. -/
  | woken (read : Option Tensor)
  deriving DecidableEq, Repr

/-- The worker has met the host's fence. -/
def Host.wake : Host → Host
  | waiting read => woken read
  | h => h

structure Queue where
  /-- The machine as the worker has left it. -/
  machine : Machine
  /-- The items in the queue, the oldest first. -/
  pending : List Item := []
  host : Host := .ready
  /-- The calls to be made. -/
  script : List Request
  /-- What the calls answered so far, in order. -/
  answers : List Reply := []

namespace Queue

def answer (q : Queue) (a : Reply) : Queue := { q with answers := q.answers ++ [a] }

def send (q : Queue) (i : Item) : Queue := { q with pending := q.pending ++ [i] }

/-- Sends a fence and waits for it. -/
def wait (q : Queue) (read : Option Tensor) : Queue := { q.send .fence with host := .waiting read }

/-- Makes a call, as far as it goes without waiting. A fault is injected only when the worker has
nothing left to do. -/
def make (q : Queue) (rest : List Request) : Request → Queue
  | .enqueue j _ => ({ q with script := rest }.send (.job j.command)).answer (.ok none)
  | .synchronize => { q with script := rest }.wait none
  | .write t _ words =>
    match (t.upload words).on q.machine with
    | (.ok c, _) => ({ q with script := rest }.send (.job c)).answer (.ok none)
    | (.error e, _) => { q with script := rest }.answer (.error e)
  | .read t _ =>
    match t.requireReserved.on q.machine with
    | (.ok (), _) => { q with script := rest }.wait (some t)
    | (.error e, _) => { q with script := rest }.answer (.error e)
  | .injectFault text =>
    match q.pending with
    | [] => { q with script := rest, machine := q.machine.injectFault text }.answer (.ok none)
    | _ :: _ => q

/-- Ends the call that has waited. -/
def endCall (q : Queue) (read : Option Tensor) : Queue :=
  let (a, machine) := (afterFence read).on q.machine
  { q with host := .ready, machine }.answer a

/-- The host's turn. -/
def hostTurn (q : Queue) : Queue :=
  match q.host, q.script with
  | .ready, [] => q
  | .ready, r :: rest => q.make rest r
  | .waiting _, _ => q
  | .woken read, _ => q.endCall read

/-- The worker's turn. -/
def workerTurn (q : Queue) : Queue :=
  match q.pending with
  | [] => q
  | .job c :: rest => { q with pending := rest, machine := q.machine.process c }
  | .fence :: rest => { q with pending := rest, host := q.host.wake }

end Queue

inductive Turn where
  | host
  | worker
  deriving DecidableEq, Repr

namespace Queue

def turn (q : Queue) : Turn → Queue
  | .host => q.hostTurn
  | .worker => q.workerTurn

/-- The queue after the turns of a schedule. -/
def run (q : Queue) (schedule : List Turn) : Queue := schedule.foldl turn q

/-- A queue with nothing in it, and a host that has calls to make. -/
def start (machine : Machine) (script : List Request) : Queue := { machine, script }

end Queue

/-! ## Commands that run when they are submitted -/

/-- The call on a machine whose commands run when they are submitted. -/
def Request.task : Request → Task (Option Buffer)
  | enqueue j _ => do
    Machine.submit j.command
    return none
  | synchronize => do
    Machine.synchronize
    return none
  | write t _ words => do
    t.write words
    return none
  | read t _ => do return some (← t.read)
  | injectFault text => do
    modify fun m => m.injectFault text
    return none

/-- Calls one after another: their answers, and the machine they leave. -/
def eager : List Request → Machine → List Reply × Machine
  | [], m => ([], m)
  | r :: rest, m =>
    let (a, m) := r.task.on m
    let (as, m) := eager rest m
    (a :: as, m)

end HeteroNet
