import HeteroNet.Policy
import HeteroNet.Text.Digits
import HeteroNet.Text.Quoted

/-
Settings, and how they are read from environment variables: which backends there are, the
default one, the memory of the device, and overrides of the backend for kinds of operation.
-/

namespace HeteroNet

/-- The values of the environment variables that are set. -/
abbrev Environment := String → Option String

structure Settings where
  defaultBackend : BackendId := "gpu"
  /-- The device's memory in bytes, if it is bounded. -/
  memoryLimit : Option Nat := none
  hostEnabled : Bool := true
  deviceEnabled : Bool := true
  deriving DecidableEq, Repr

namespace Settings

def defaultBackendVariable : String := "NNFORGE_DEFAULT_BACKEND"
def memoryLimitVariable : String := "NNFORGE_GPU_MEMORY_LIMIT"

/-- The memory limit that a variable gives. -/
def readLimit (text : String) : Except Error Nat :=
  match Text.readNat Text.sizeBound (Text.trim text) with
  | .ok n => .ok n
  | .error e =>
    .error (.config (memoryLimitVariable ++ "=" ++ Text.quoted text ++ ": " ++ e.message))

/-- The settings of an environment. A blank default backend counts as none given. -/
def ofEnvironment (env : Environment) : Except Error Settings := do
  let chosen := ((env defaultBackendVariable).map Text.trim).filter (!·.isEmpty)
  let settings : Settings := { defaultBackend := chosen.getD "gpu" }
  match env memoryLimitVariable with
  | none => return settings
  | some text => return { settings with memoryLimit := some (← readLimit text) }

/-- The registered backends, the device's before the host's, and a machine with the device's
memory. -/
def platform (s : Settings) : Platform :=
  let device := if s.deviceEnabled then [Backend.device] else []
  let host := if s.hostEnabled then [Backend.host] else []
  { registry := device ++ host, machine := { device := { limit := s.memoryLimit } } }

end Settings

namespace Policy

/-- The overrides of an environment: the one for all kinds, then those of each kind. -/
def ofEnvironment (env : Environment) : Policy :=
  ofPairs ((allKey :: Kind.all.map Kind.name).filterMap fun key =>
    (env (keyStart ++ key)).map fun value => (key, value))

end Policy

end HeteroNet
