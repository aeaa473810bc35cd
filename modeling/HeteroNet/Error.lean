import HeteroNet.Kind
import HeteroNet.Shape
import HeteroNet.Text.Quoted

/-
What can go wrong, by the phase that finds it: a malformed graph, an operation no backend takes,
tensors that cannot be allocated, a run that fails. Everything found before a plan exists ends
that compilation; an execution error leaves the plan usable.

Operands, operations and input or output slots are numbered from 0 and written `#0`.
-/

namespace HeteroNet

/-- The place of an operand in its model. -/
abbrev OperandId := Nat

/-- The place of an operation in its model. -/
abbrev OperationId := Nat

/-- The place of an operand in the ordered list of model inputs or outputs. -/
abbrev SlotId := Nat

/-- The name under which a backend is registered. -/
abbrev BackendId := String

inductive GraphError where
  | noOperand (index : OperandId)
  | noOperation (index : OperationId)
  | noSlot (index : SlotId)
  | multipleWriters (index : OperandId)
  | cycle (through : OperandId)
  | unsupportedRank (index : OperandId) (expected : String) (actual : Nat)
  | shapeMismatch (kind : Kind) (index : OperandId) (reason : String)
  | invalidParam (kind : Kind) (index : OperandId) (reason : String)
  | undefinedOperand (index : OperandId)
  | detachedOutput (index : OperandId)
  | dataLength (index : OperandId) (expected actual : Nat)
  | notAConstant (index : OperandId)
  | typeMismatch (index : OperandId) (expected actual : String)
  | arityMismatch (kind : Kind) (expected : String) (actual : Nat)
  | invalidPhase (expected actual : String)
  | unknownOperationCode (code : Int)
  deriving DecidableEq, Repr

inductive ResolutionError where
  | unresolvedOperation (kind : Kind)
  | unknownBackend (id : BackendId)
  deriving DecidableEq, Repr

inductive AllocationError where
  | missingShapeConstraint (index : OperandId)
  | inconsistentShapeConstraint (index : OperandId) (existing requested : Shape)
  | unboundOperand (backend : BackendId) (index : OperandId)
  | alreadyPrepared (backend : BackendId)
  | notPrepared (backend : BackendId)
  | alreadyAllocated (backend : BackendId)
  | notAllocated (backend : BackendId)
  | outOfMemory (requested available : Nat)
  deriving DecidableEq, Repr

inductive ExecutionError where
  | backend (id : BackendId) (reason : String)
  | unsupportedRank (index : OperandId) (rank : Nat)
  | bufferTooSmall (index : OperandId) (required actual : Nat)
  | noSlot (index : SlotId) (count : Nat)
  | unboundInput (index : SlotId)
  | unboundOutput (index : SlotId)
  deriving DecidableEq, Repr

inductive Error where
  | graph (e : GraphError)
  | resolution (e : ResolutionError)
  | allocation (e : AllocationError)
  | execution (e : ExecutionError)
  | config (text : String)
  | lockPoisoned (text : String)
  | internal (text : String)
  deriving DecidableEq, Repr

/-- How a call ends when it does not return: with an error, or by breaking off. It breaks off where it
reaches outside a buffer, and where it makes one that no buffer can be as large as. -/
inductive Failure where
  | error (e : Error)
  | outOfBounds
  | oversized
  deriving DecidableEq, Repr

/-- A check that found an error is a failed call. -/
instance : MonadLift (Except Error) (Except Failure) := ⟨Except.mapError Failure.error⟩

instance : Coe GraphError Error := ⟨Error.graph⟩
instance : Coe ResolutionError Error := ⟨Error.resolution⟩
instance : Coe AllocationError Error := ⟨Error.allocation⟩
instance : Coe ExecutionError Error := ⟨Error.execution⟩

namespace GraphError

/-- What tells this error from others, whatever it is about. -/
def name : GraphError → String
  | noOperand _ => "InvalidOperandIndex"
  | noOperation _ => "InvalidOperationIndex"
  | noSlot _ => "InvalidIoIndex"
  | multipleWriters _ => "MultipleWriters"
  | cycle _ => "Cycle"
  | unsupportedRank .. => "UnsupportedRank"
  | shapeMismatch .. => "ShapeMismatch"
  | invalidParam .. => "InvalidParam"
  | undefinedOperand _ => "UndefinedOperand"
  | detachedOutput _ => "DetachedOutput"
  | dataLength .. => "DataLength"
  | notAConstant _ => "NotAConstant"
  | typeMismatch .. => "TypeMismatch"
  | arityMismatch .. => "ArityMismatch"
  | invalidPhase .. => "InvalidPhase"
  | unknownOperationCode _ => "UnknownOperationCode"

def message : GraphError → String
  | noOperand i => s!"operand #{i} does not exist"
  | noOperation i => s!"operation #{i} does not exist"
  | noSlot i => s!"io index #{i} is out of range"
  | multipleWriters i => s!"operand #{i} is written by more than one operation"
  | cycle i => s!"operation graph contains a cycle through operand #{i}"
  | unsupportedRank i expected actual => s!"operand #{i} has rank {actual}, expected {expected}"
  | shapeMismatch kind i reason => s!"{kind.name}: shape mismatch on operand #{i}: {reason}"
  | invalidParam kind i reason => s!"{kind.name}: invalid parameter operand #{i}: {reason}"
  | undefinedOperand i =>
    s!"operand #{i} is read but never written, not a constant and not a model input"
  | detachedOutput i => s!"model output #{i} is a model input that no operation reads"
  | dataLength i expected actual =>
    s!"operand #{i} expects {expected} bytes of constant data, got {actual}"
  | notAConstant i => s!"operand #{i} is not a constant"
  | typeMismatch i expected actual => s!"operand #{i} has type {actual}, expected {expected}"
  | arityMismatch kind expected actual => s!"{kind.name} expects {expected} inputs, got {actual}"
  | invalidPhase expected actual =>
    s!"model is in phase {actual}, operation requires {expected}"
  | unknownOperationCode code => s!"unknown operation code {code}"

end GraphError

namespace ResolutionError

def name : ResolutionError → String
  | unresolvedOperation _ => "UnresolvedOperation"
  | unknownBackend _ => "UnknownBackend"

def message : ResolutionError → String
  | unresolvedOperation kind => s!"no backend claims operation kind {kind.name}"
  | unknownBackend id => s!"unknown backend: {id}"

end ResolutionError

namespace AllocationError

def name : AllocationError → String
  | missingShapeConstraint _ => "MissingShapeConstraint"
  | inconsistentShapeConstraint .. => "InconsistentShapeConstraint"
  | unboundOperand .. => "UnboundOperand"
  | alreadyPrepared _ => "AlreadyPrepared"
  | notPrepared _ => "NotPrepared"
  | alreadyAllocated _ => "AlreadyAllocated"
  | notAllocated _ => "NotAllocated"
  | outOfMemory .. => "OutOfMemory"

def message : AllocationError → String
  | missingShapeConstraint i => s!"operand #{i} was marked but has no shape constraint"
  | inconsistentShapeConstraint i existing requested =>
    s!"operand #{i} constrained to {Text.numbers existing}, then to {Text.numbers requested}"
  | unboundOperand backend i => s!"backend {backend} has no tensor for operand #{i}"
  | alreadyPrepared backend => s!"tensor builder for {backend} is already prepared"
  | notPrepared backend => s!"tensor builder for {backend} is not prepared"
  | alreadyAllocated backend => s!"tensor builder for {backend} is already allocated"
  | notAllocated backend => s!"tensor builder for {backend} has not allocated its tensors yet"
  | outOfMemory requested available =>
    s!"out of device memory: requested {requested} bytes, {available} available"

end AllocationError

namespace ExecutionError

def name : ExecutionError → String
  | backend .. => "Backend"
  | unsupportedRank .. => "UnsupportedOperandRank"
  | bufferTooSmall .. => "BufferTooSmall"
  | noSlot .. => "InvalidIoIndex"
  | unboundInput _ => "UnboundInput"
  | unboundOutput _ => "UnboundOutput"

def message : ExecutionError → String
  | backend id reason => s!"backend {id} failed: {reason}"
  | unsupportedRank i rank => s!"io operand #{i} has unsupported rank {rank}"
  | bufferTooSmall i required actual =>
    s!"buffer for operand #{i} holds {actual} bytes, needs {required}"
  | noSlot i count => s!"io index #{i} is out of range ({count} available)"
  | unboundInput i => s!"input #{i} is not bound"
  | unboundOutput i => s!"output #{i} is not bound"

end ExecutionError

inductive ErrorCategory where
  | graph
  | resolution
  | allocation
  | execution
  | config
  | internal
  deriving DecidableEq, Repr

namespace ErrorCategory

def name : ErrorCategory → String
  | graph => "Graph"
  | resolution => "Resolution"
  | allocation => "Allocation"
  | execution => "Execution"
  | config => "Config"
  | internal => "Internal"

end ErrorCategory

namespace Error

/-- The name of an error of one phase is its name within that phase. -/
def name : Error → String
  | graph e => e.name
  | resolution e => e.name
  | allocation e => e.name
  | execution e => e.name
  | config _ => "Config"
  | lockPoisoned _ => "LockPoisoned"
  | internal _ => "Internal"

def message : Error → String
  | graph e => "graph error: " ++ e.message
  | resolution e => "resolution error: " ++ e.message
  | allocation e => "allocation error: " ++ e.message
  | execution e => "execution error: " ++ e.message
  | config text => "invalid configuration: " ++ text
  | lockPoisoned text => "internal lock poisoned: " ++ text
  | internal text => "internal error: " ++ text

/-- The text of the error of one phase that this error wraps, if it does. -/
def cause? : Error → Option String
  | graph e => some e.message
  | resolution e => some e.message
  | allocation e => some e.message
  | execution e => some e.message
  | _ => none

def category : Error → ErrorCategory
  | graph _ => .graph
  | resolution _ => .resolution
  | allocation _ => .allocation
  | execution _ => .execution
  | config _ => .config
  | lockPoisoned _ | internal _ => .internal

/-- Raised while compiling a model; there is no plan. -/
def isCompileTime (e : Error) : Bool :=
  match e.category with
  | .graph | .resolution | .allocation | .config => true
  | .execution | .internal => false

/-- The plan is still valid and may run again. -/
def isRecoverable (e : Error) : Bool := e.category == .execution

def isInternal (e : Error) : Bool := e.category == .internal

end Error

end HeteroNet
