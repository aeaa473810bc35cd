import HeteroNet.Stage

/-
Backends. A backend has a name, a layout it prefers, the kinds of operation it takes, and a
choice, for each of its parts, between the host's way and the device's way. It is started once,
when it is first needed; a start that fails is tried again the next time.
-/

namespace HeteroNet

/-- What starting a backend does. -/
inductive Startup where
  | immediate
  /-- Waits for the device, and fails with what failed there. -/
  | waitsForDevice
  /-- Fails so many times, then succeeds. -/
  | failsFirst (times : Nat)
  deriving DecidableEq, Repr

structure Backend where
  id : BackendId
  layout : Layout
  /-- The kinds of operation the backend does not take. -/
  refuses : List Kind := []
  startup : Startup := .immediate
  initializers : Place
  stages : Place
  tensors : Place
  /-- The name the stages use for the backend. -/
  stageName : BackendId := id
  /-- The name the tensors carry. -/
  tensorName : BackendId := id
  started : Bool := false
  /-- How often the backend was asked to start. -/
  starts : Nat := 0
  deriving DecidableEq, Repr

namespace Backend

/-- The backend whose tensors lie in host memory. -/
def host : Backend :=
  { id := "cpu", layout := .nhwc, initializers := .host, stages := .host, tensors := .host }

/-- The backend whose kernels run on the device. -/
def device : Backend :=
  { id := "gpu", layout := .nchw, startup := .waitsForDevice, initializers := .device,
    stages := .device, tensors := .device }

def supports (b : Backend) (k : Kind) : Bool := !b.refuses.contains k

/-- Asks the backend to start. -/
def runStartup (b : Backend) : Task Unit :=
  match b.startup with
  | .immediate => return ()
  | .waitsForDevice => Machine.synchronize
  | .failsFirst times =>
    if b.starts < times then
      throw (.error (.execution (.backend b.id "initialization failed")))
    else return ()

/-- Starts the backend unless it was started before. It counts the attempt also when it
fails. -/
def start (b : Backend) (m : Machine) : Except Failure Unit × Backend × Machine :=
  if b.started then (.ok (), b, m)
  else
    match b.runStartup.on m with
    | (.ok (), m) => (.ok (), { b with started := true, starts := b.starts + 1 }, m)
    | (.error e, m) => (.error e, { b with starts := b.starts + 1 }, m)

end Backend

/-- One compilation's share of a backend: the tensors it will have there. -/
structure Context where
  backend : Backend
  builder : TensorBuilder
  deriving DecidableEq, Repr

namespace Context

def new (b : Backend) : Context :=
  { backend := b, builder := { backend := b.tensorName, place := b.tensors } }

end Context

/-- Backends in the order in which they were registered, each name once. -/
abbrev Registry := List Backend

namespace Registry

/-- Adds a backend; one of the same name is replaced where it stands. -/
def add (r : Registry) (b : Backend) : Registry :=
  if r.any (·.id == b.id) then r.map fun old => if old.id == b.id then b else old
  else r ++ [b]

def ids (r : Registry) : List BackendId := r.map (·.id)

def contains (r : Registry) (id : BackendId) : Bool := r.any (·.id == id)

def lookup (r : Registry) (id : BackendId) : Except Error Backend :=
  match r.find? (·.id == id) with
  | some b => .ok b
  | none => .error (ResolutionError.unknownBackend id)

end Registry

/-- What compilations share: the registered backends and the machine they run on. -/
structure Platform where
  registry : Registry := []
  machine : Machine := {}
  deriving DecidableEq, Repr

/-- A call that may start backends and change the machine, also when it fails. -/
abbrev PlatformTask := ExceptT Failure (StateM Platform)

namespace Platform

def onMachine {α : Type} (t : Task α) : PlatformTask α := do
  let s ← get
  let (answer, machine) := t.on s.machine
  set { s with machine }
  answer

/-- Starts the backend of a name. -/
def start (id : BackendId) : PlatformTask Backend := do
  let s ← get
  let b ← s.registry.lookup id
  let (answer, b, machine) := b.start s.machine
  set { s with registry := s.registry.add b, machine }
  answer
  return b

/-- A new context of a backend, which is started first if need be. -/
def newContext (id : BackendId) : PlatformTask Context := do return Context.new (← start id)

end Platform

end HeteroNet
