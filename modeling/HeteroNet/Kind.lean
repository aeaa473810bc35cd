import HeteroNet.Word

/-
The kinds of operation, and the codes that scalar attributes hold: fused activations and
padding rules.
-/

namespace HeteroNet

inductive Kind where
  | conv2d
  | maxPool2d
  | avgPool2d
  | concat
  | fullyConnected
  | reshape
  | softmax
  | add
  | cast
  | nop
  | permute
  deriving DecidableEq, Repr

namespace Kind

def all : List Kind :=
  [conv2d, maxPool2d, avgPool2d, concat, fullyConnected, reshape, softmax, add, cast, nop, permute]

def name : Kind → String
  | conv2d => "CONV_2D"
  | maxPool2d => "MAX_POOL_2D"
  | avgPool2d => "AVERAGE_POOL_2D"
  | concat => "CONCATENATION"
  | fullyConnected => "FULLY_CONNECTED"
  | reshape => "RESHAPE"
  | softmax => "SOFTMAX"
  | add => "ADD"
  | cast => "CAST_EX"
  | nop => "NOP"
  | permute => "PERMUTE"

def ofName? (s : String) : Option Kind := all.find? fun k => k.name == s

theorem mem_all (k : Kind) : k ∈ all := by cases k <;> decide

theorem ofName?_name (k : Kind) : ofName? k.name = some k := by cases k <;> decide

end Kind

/-- A function applied to each output element of an operation. -/
inductive Activation where
  | none
  | relu
  | relu1
  | relu6
  deriving DecidableEq, Repr

namespace Activation

def ofCode? : Int → Option Activation
  | 0 => some none
  | 1 => some relu
  | 2 => some relu1
  | 3 => some relu6
  | _ => Option.none

def name : Activation → String
  | none => "None"
  | relu => "Relu"
  | relu1 => "Relu1"
  | relu6 => "Relu6"

/-- A NaN becomes 0 under `relu` and stays under the two bounded activations. -/
def apply : Activation → Word → Word
  | none, w => w
  | relu, w => w.max Word.zero
  | relu1, w => w.clamp (Word.ofInt (-1)) (Word.ofInt 1)
  | relu6, w => w.clamp Word.zero (Word.ofInt 6)

end Activation

/-- How a window treats the border: padded so that the output covers the input, or kept
inside it. -/
inductive PaddingRule where
  | same
  | valid
  deriving DecidableEq, Repr

namespace PaddingRule

def ofCode? : Int → Option PaddingRule
  | 1 => some same
  | 2 => some valid
  | _ => none

def name : PaddingRule → String
  | same => "Same"
  | valid => "Valid"

end PaddingRule

end HeteroNet
