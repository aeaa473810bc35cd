/-
A tensor holds 32-bit words. A word is a bit pattern first: moving it never changes a bit.
Arithmetic reads it as an IEEE single, or, for the integer element types, as a 32-bit integer.

Sums, products, quotients and comparisons are those of `Float32`. Rounding to an integer is
done on the bits, so that it is computed the same way everywhere, and `exp` is the one
operation about which nothing more is known.
-/

namespace HeteroNet

/-- One element of a tensor, as stored. -/
structure Word where
  bits : UInt32
  deriving DecidableEq, Inhabited, Repr

namespace Word

def zero : Word := ⟨0⟩
def negZero : Word := ⟨0x80000000⟩
def negInfinity : Word := ⟨0xff800000⟩

/-! ### The word as a number -/

def toFloat (w : Word) : Float32 := Float32.ofBits w.bits
def ofFloat (x : Float32) : Word := ⟨x.toBits⟩

/-- The float nearest to an integer; halves go to the even neighbour. -/
def ofInt (i : Int) : Word := ofFloat (Float32.ofInt i)

def ofNat (n : Nat) : Word := ofFloat (Float32.ofNat n)

/-- The word as a signed 32-bit integer. -/
def signed (w : Word) : Int := w.bits.toInt32.toInt

/-- The word as an unsigned 32-bit integer. -/
def unsigned (w : Word) : Nat := w.bits.toNat

/-- The word whose bits are those of an integer, modulo 2^32. -/
def ofSigned (i : Int) : Word := ⟨UInt32.ofInt i⟩

/-- Truncates toward zero and saturates at the ends of the signed range; NaN gives 0. -/
def truncSigned (w : Word) : Word := ⟨w.toFloat.toModel.toInt32.toUInt32⟩

/-- Truncates toward zero and saturates at the ends of the unsigned range; NaN gives 0. -/
def truncUnsigned (w : Word) : Word := ⟨w.toFloat.toUInt32⟩

/-! ### Classes -/

def magnitude (w : Word) : UInt32 := w.bits &&& 0x7fffffff
def sign (w : Word) : UInt32 := w.bits &&& 0x80000000
def exponent (w : Word) : Nat := (w.magnitude >>> 23).toNat

def isNaN (w : Word) : Bool := 0x7f800000 < w.magnitude

/-! ### Arithmetic -/

def add (a b : Word) : Word := ofFloat (a.toFloat + b.toFloat)
def sub (a b : Word) : Word := ofFloat (a.toFloat - b.toFloat)
def mul (a b : Word) : Word := ofFloat (a.toFloat * b.toFloat)
def div (a b : Word) : Word := ofFloat (a.toFloat / b.toFloat)
def exp (a : Word) : Word := ofFloat a.toFloat.exp

def lt (a b : Word) : Bool := a.toFloat < b.toFloat

/-- Equality of the numbers: the two zeros are equal and a NaN differs from itself. -/
def numEq (a b : Word) : Bool := a.toFloat == b.toFloat

/-- The larger of two numbers; a NaN gives way to the other. -/
def max (a b : Word) : Word :=
  if a.isNaN then b else if b.isNaN then a else if a.lt b then b else a

/-- The nearest point of `[lo, hi]`. A NaN, and a zero of either sign at an end that is zero,
stay as they are. -/
def clamp (w lo hi : Word) : Word :=
  if w.lt lo then lo else if hi.lt w then hi else w

/-- The nearest integer, halves away from zero. The sign is kept, so a small negative number
gives a negative zero.

Below one half (exponent field at most 125) the result is a zero; from one half to one it is
one; at 2^23 and above, infinities and NaN included, the word is already whole. In between,
half a unit is added in the place of the last whole bit and what lies below is cleared; a carry
runs into the exponent field as it should. -/
def round (w : Word) : Word :=
  let e := w.exponent
  if e < 126 then ⟨w.sign⟩
  else if e = 126 then ⟨w.sign ||| 0x3f800000⟩
  else if 150 ≤ e then w
  else
    let unit : UInt32 := 1 <<< (150 - e).toUInt32
    ⟨(w.bits + unit / 2) &&& ~~~(unit - 1)⟩

/-! ### Eight-bit codes -/

/-- The code `b` as a number. -/
def ofCode (b : UInt8) : Word := ofNat b.toNat

/-- `255`, the largest code. -/
def maxCode : Word := ⟨0x437f0000⟩

/-- Rounds, then clamps to the range of codes; NaN stays. -/
def roundToCode (w : Word) : Word := w.round.clamp zero maxCode

/-- The nearest code; NaN gives 0. -/
def toCode (w : Word) : UInt8 := w.roundToCode.toFloat.toUInt8

/-! ### Bytes, least significant first -/

def toBytes (w : Word) : List UInt8 :=
  [w.bits.toUInt8, (w.bits >>> 8).toUInt8, (w.bits >>> 16).toUInt8, (w.bits >>> 24).toUInt8]

def ofBytes (a b c d : UInt8) : Word :=
  ⟨a.toUInt32 ||| b.toUInt32 <<< 8 ||| c.toUInt32 <<< 16 ||| d.toUInt32 <<< 24⟩

end Word

end HeteroNet
