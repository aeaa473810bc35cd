import HeteroNet.Element
import Mathlib

/-
Words that are not numbers. A word that is a NaN differs from itself, and no other word does
(`Word.numEq_self`). Types are compared by their scales too, so it is the types with such a scale
that differ from themselves (`TypeInfo.same_self`).
-/

namespace HeteroNet

open Float.Model UnpackedFloat

namespace Word

theorem unpack_eq_notANumber (b : BitVec Format.binary32.numBits) :
    UnpackedFloat.unpack Format.binary32 b = notANumber ↔ isNaNBits b = true := by
  simp only [UnpackedFloat.unpack, isNaNBits, decide_eq_true_eq]
  split
  · split <;> simp_all
  · rename_i hexponent
    simp only [hexponent, false_and, iff_false]
    split
    · split <;> exact nofun
    · exact nofun

/-- The bits of a NaN have the largest exponent, and a fraction. -/
theorem isNaN_eq (w : Word) : w.isNaN = @isNaNBits Format.binary32 w.bits.toBitVec := by
  obtain ⟨⟨b⟩⟩ := w
  have hnan : isNaN ⟨⟨b⟩⟩ = true ↔ 0x7f800000 < b.toNat &&& 0x7fffffff := by
    simp [isNaN, magnitude, UInt32.lt_iff_toNat_lt]
  have hmagnitude : b.toNat &&& 0x7fffffff = b.toNat % 2 ^ 31 :=
    Nat.and_two_pow_sub_one_eq_mod b.toNat 31
  have hexponent : b.extractLsb 30 23 = -1#8 ↔ b.toNat / 2 ^ 23 % 256 = 255 := by
    rw [← BitVec.toNat_inj, BitVec.extractLsb_toNat, Nat.shiftRight_eq_div_pow]
    rfl
  have hfraction : b.extractLsb 22 0 = 0#23 ↔ b.toNat % 2 ^ 23 = 0 := by
    rw [← BitVec.toNat_inj, BitVec.extractLsb_toNat, Nat.shiftRight_zero]
    rfl
  have hmax : 0x7f800000 < b.toNat % 2 ^ 31 ↔
      b.toNat / 2 ^ 23 % 256 = 255 ∧ b.toNat % 2 ^ 23 ≠ 0 := by
    omega
  rw [Bool.eq_iff_iff, hnan, hmagnitude, hmax, ← hexponent, ne_eq, ← hfraction]
  exact decide_eq_true_iff.symm

/-- **A word differs from itself if it is a NaN, and only then.** -/
theorem numEq_self (w : Word) : w.numEq w = !w.isNaN := by
  have hself : w.numEq w = true ↔ UnpackedFloat.unpack Format.binary32
      (UnpackedFloat.pack Format.binary32
        (UnpackedFloat.unpack Format.binary32 w.bits.toBitVec)) ≠ notANumber :=
    (beq_iff_ne_notANumber_and_eq _ _).trans ⟨fun h => h.1, fun h => ⟨h, h, .inl rfl⟩⟩
  rw [Bool.eq_iff_iff, hself, pack_unpack, isNaN_eq]
  split
  · rename_i hnan
    simp [hnan, unpack_packedNaN]
  · rename_i hnan
    simp [unpack_eq_notANumber, hnan]

end Word

/-- A type is the same as itself unless its scale is a NaN. -/
theorem TypeInfo.same_self (t : TypeInfo) : t.same t = !t.scale.isNaN := by
  simp [same, Word.numEq_self]

end HeteroNet
