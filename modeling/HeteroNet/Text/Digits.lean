/-
Reading a natural number of bounded size, as a setting holds it.
-/

namespace HeteroNet.Text

inductive DigitsError where
  | empty
  | notADigit
  | tooLarge
  deriving DecidableEq, Repr

namespace DigitsError

def message : DigitsError → String
  | empty => "cannot parse integer from empty string"
  | notADigit => "invalid digit found in string"
  | tooLarge => "number too large to fit in target type"

end DigitsError

/-- The digits of `cs` appended to `acc`, which stays below `bound`. The first fault from the
left is the one reported. -/
def digitsFrom (bound : Nat) : Nat → List Char → Except DigitsError Nat
  | acc, [] => .ok acc
  | acc, c :: cs =>
    if c.isDigit then
      let next := acc * 10 + (c.toNat - '0'.toNat)
      if next < bound then digitsFrom bound next cs else .error .tooLarge
    else .error .notADigit

/-- A decimal number below `bound`, optionally after one plus sign. -/
def readNat (bound : Nat) (s : String) : Except DigitsError Nat :=
  match s.toList with
  | [] => .error .empty
  | ['+'] => .error .notADigit
  | '+' :: cs => digitsFrom bound 0 cs
  | cs => digitsFrom bound 0 cs

/-- Sizes in bytes have 64 bits. -/
def sizeBound : Nat := 0x10000000000000000

end HeteroNet.Text
