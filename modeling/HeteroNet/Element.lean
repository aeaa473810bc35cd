import HeteroNet.Decimal.Text

/-
Element types, and what a stored word of each type means.

A quantized element is stored as its code, a number from 0 to 255. An integer element is stored
by its bits. So storing and reading back never rounds; the value an element stands for is
`TypeInfo.real`.
-/

namespace HeteroNet

/-- Bytes of a caller or of a constant, least significant byte of each element first. -/
abbrev Bytes := List UInt8

inductive ElementType where
  | scalarFloat32
  | scalarInt32
  | scalarUInt32
  | float32
  | int32
  | quant8
  deriving DecidableEq, Repr

namespace ElementType

def ofCode? : Int → Option ElementType
  | 0 => some scalarFloat32
  | 1 => some scalarInt32
  | 2 => some scalarUInt32
  | 3 => some float32
  | 4 => some int32
  | 5 => some quant8
  | _ => none

def name : ElementType → String
  | scalarFloat32 => "FLOAT32"
  | scalarInt32 => "INT32"
  | scalarUInt32 => "UINT32"
  | float32 => "TENSOR_FLOAT32"
  | int32 => "TENSOR_INT32"
  | quant8 => "TENSOR_QUANT8_ASYMM"

/-- The short name used in descriptions of a tensor. -/
def label : ElementType → String
  | scalarFloat32 => "ScalarFloat32"
  | scalarInt32 => "ScalarInt32"
  | scalarUInt32 => "ScalarUInt32"
  | float32 => "Float32"
  | int32 => "Int32"
  | quant8 => "QuantAsymm8"

/-- Bytes of one element. -/
def size : ElementType → Nat
  | quant8 => 1
  | _ => 4

def isScalar : ElementType → Bool
  | scalarFloat32 | scalarInt32 | scalarUInt32 => true
  | _ => false

/-- The words of consecutive groups of four bytes; an incomplete group at the end is dropped. -/
def wordsOfBytes : Bytes → List Word
  | a :: b :: c :: d :: rest => Word.ofBytes a b c d :: wordsOfBytes rest
  | _ => []

/-- The words of all complete elements in `bytes`. -/
def decode : ElementType → Bytes → List Word
  | quant8, bytes => bytes.map Word.ofCode
  | _, bytes => wordsOfBytes bytes

/-- The bytes of one word: its code, or its four bytes. -/
def encodeWord : ElementType → Word → Bytes
  | quant8, w => [w.toCode]
  | _, w => w.toBytes

def encode (t : ElementType) (ws : List Word) : Bytes := ws.flatMap t.encodeWord

theorem size_pos (t : ElementType) : 0 < t.size := by cases t <;> decide

theorem length_encodeWord (t : ElementType) (w : Word) : (t.encodeWord w).length = t.size := by
  cases t <;> rfl

theorem length_encode (t : ElementType) (ws : List Word) :
    (t.encode ws).length = ws.length * t.size := by
  induction ws with
  | nil => simp [encode]
  | cons w ws ih =>
    have : t.encode (w :: ws) = t.encodeWord w ++ t.encode ws := rfl
    rw [this, List.length_append, length_encodeWord, ih, List.length_cons, Nat.add_mul]
    omega

end ElementType

/-- The element type and, for quantized elements, the scale and zero point. -/
structure TypeInfo where
  element : ElementType
  scale : Word := Word.zero
  zeroPoint : Int := 0
  deriving DecidableEq, Repr

namespace TypeInfo

/-- Equality of type, scale and zero point. Scales are compared as numbers, so a type whose
scale is NaN is not the same as itself. -/
def same (a b : TypeInfo) : Bool :=
  a.element == b.element && a.scale.numEq b.scale && a.zeroPoint == b.zeroPoint

/-- The number that a stored word stands for. -/
def real (t : TypeInfo) (w : Word) : Word :=
  match t.element with
  | .quant8 => ((w.sub (Word.ofInt t.zeroPoint)).mul t.scale)
  | .int32 | .scalarInt32 => Word.ofInt w.signed
  | .scalarUInt32 => Word.ofNat w.unsigned
  | .float32 | .scalarFloat32 => w

/-- The word that stores a number: integers truncate toward zero and saturate, quantized codes
round and clamp. A scale of zero counts as one. -/
def word (t : TypeInfo) (x : Word) : Word :=
  match t.element with
  | .quant8 =>
    let scale := if t.scale.numEq Word.zero then Word.ofNat 1 else t.scale
    ((x.div scale).add (Word.ofInt t.zeroPoint)).roundToCode
  | .int32 | .scalarInt32 => x.truncSigned
  | .scalarUInt32 => x.truncUnsigned
  | .float32 | .scalarFloat32 => x

/-- The type in full, for descriptions of a tensor. -/
def describe (t : TypeInfo) : String :=
  "TypeInfo \x7b dtype: " ++ t.element.label ++ ", scale: " ++ NumberStyle.listing.write t.scale
    ++ ", zero_point: " ++ toString t.zeroPoint ++ " \x7d"

end TypeInfo

end HeteroNet
