import HeteroNet.Error

/-
The integer codes of the call interface: what kind of operation a caller means, and how a call
ended.
-/

namespace HeteroNet

inductive ResultCode where
  | noError
  | outOfMemory
  | incomplete
  | unexpectedNull
  | badData
  | opFailed
  | badState
  deriving DecidableEq, Repr

namespace ResultCode

/-- All codes, in the order of their numbers, which start from 0. -/
def all : List ResultCode :=
  [noError, outOfMemory, incomplete, unexpectedNull, badData, opFailed, badState]

def code : ResultCode → Nat
  | noError => 0
  | outOfMemory => 1
  | incomplete => 2
  | unexpectedNull => 3
  | badData => 4
  | opFailed => 5
  | badState => 6

def name : ResultCode → String
  | noError => "ANEURALNETWORKS_NO_ERROR"
  | outOfMemory => "ANEURALNETWORKS_OUT_OF_MEMORY"
  | incomplete => "ANEURALNETWORKS_INCOMPLETE"
  | unexpectedNull => "ANEURALNETWORKS_UNEXPECTED_NULL"
  | badData => "ANEURALNETWORKS_BAD_DATA"
  | opFailed => "ANEURALNETWORKS_OP_FAILED"
  | badState => "ANEURALNETWORKS_BAD_STATE"

def isOk (c : ResultCode) : Bool := c == noError

/-- How a call that failed with `e` ends. -/
def ofError : Error → ResultCode
  | .graph (.invalidPhase ..) => badState
  | .graph _ | .resolution _ | .config _ => badData
  | .allocation (.outOfMemory ..) => outOfMemory
  | .allocation _ => badData
  | .execution (.backend ..) => opFailed
  | .execution (.unboundInput _) | .execution (.unboundOutput _) => badState
  | .execution _ => badData
  | .lockPoisoned _ | .internal _ => opFailed

/-- How a call ends. -/
def ofResult {α : Type} : Except Error α → ResultCode
  | .ok _ => noError
  | .error e => ofError e

end ResultCode

inductive OperationCode where
  | add
  | averagePool2d
  | concatenation
  | conv2d
  | fullyConnected
  | maxPool2d
  | reshape
  | softmax
  | castEx
  deriving DecidableEq, Repr

namespace OperationCode

def all : List OperationCode :=
  [add, averagePool2d, concatenation, conv2d, fullyConnected, maxPool2d, reshape, softmax, castEx]

def code : OperationCode → Int
  | add => 0
  | averagePool2d => 1
  | concatenation => 2
  | conv2d => 3
  | fullyConnected => 9
  | maxPool2d => 17
  | reshape => 22
  | softmax => 25
  | castEx => 50000

def name : OperationCode → String
  | add => "Add"
  | averagePool2d => "AveragePool2D"
  | concatenation => "Concatenation"
  | conv2d => "Conv2D"
  | fullyConnected => "FullyConnected"
  | maxPool2d => "MaxPool2D"
  | reshape => "Reshape"
  | softmax => "Softmax"
  | castEx => "CastEx"

def ofCode? (c : Int) : Option OperationCode := all.find? fun op => op.code == c

theorem ofCode?_code (op : OperationCode) : ofCode? op.code = some op := by cases op <;> decide

/-- The kind of operation a code stands for. -/
def kind : OperationCode → Kind
  | add => .add
  | averagePool2d => .avgPool2d
  | concatenation => .concat
  | conv2d => .conv2d
  | fullyConnected => .fullyConnected
  | maxPool2d => .maxPool2d
  | reshape => .reshape
  | softmax => .softmax
  | castEx => .cast

end OperationCode

end HeteroNet
