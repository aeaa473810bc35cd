/-
Sizes. The program counts in words of 64 bits. What does not fit into a word wraps around, and a
size that an offset is taken from is first read as a signed number.
-/

namespace HeteroNet.Size

/-- How many sizes there are. -/
def modulus : Nat := 0x10000000000000000

/-- How many of them are not negative as signed sizes. -/
def half : Nat := 0x8000000000000000

/-- A number as the program counts it. -/
def wrap (n : Nat) : Nat := n % modulus

/-- A number as a signed size. -/
@[irreducible]
def signed (i : Int) : Int := i.bmod modulus

theorem wrap_of_lt {n : Nat} (h : n < modulus) : wrap n = n := Nat.mod_eq_of_lt h

theorem signed_of_lt {n : Nat} (h : n < half) : signed n = n := by
  rw [signed]
  refine Int.bmod_eq_of_le ?_ ?_
  · exact Int.le_trans (by decide) (Int.natCast_nonneg n)
  · exact Int.ofNat_lt.2 h

/-- What wraps around on the way to a difference does not matter. -/
theorem signed_sub (i j : Int) : signed (signed i - signed j) = signed (i - j) := by
  simp only [signed, Int.bmod_sub_bmod, Int.sub_bmod_bmod]

end HeteroNet.Size
