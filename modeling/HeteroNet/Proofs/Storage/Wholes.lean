import HeteroNet.Proofs.Storage.Numbers
import HeteroNet.Proofs.Storage.Rounding

/-
Whole numbers in words. A word keeps 24 significant bits of a whole number and rounds the rest away
(`nearest`); numbers that have no more bits stay what they are (`nearest_eq_self`). Read back as an
integer, the number saturates at the ends of the range, and singles of whole numbers compare as the
numbers do.
-/

namespace HeteroNet

open Float.Model UnpackedFloat Rounding

/-! ### The nearest number of 24 bits -/

/-- The whole number of at most 24 significant bits that is nearest to another; halves go to the
one whose last bit is 0. -/
def nearest (n : Nat) : Nat := halfEven n (n.log2 - 23) * 2 ^ (n.log2 - 23)

/-- The number has at most 24 significant bits. -/
def Short (n : Nat) : Prop := ∃ m k, m < 2 ^ 24 ∧ n = m * 2 ^ k

theorem nearest_short (n : Nat) : Short (nearest n) := by
  by_cases hn : n = 0
  · subst hn
    exact ⟨0, 0, by decide, rfl⟩
  have hlt : n / 2 ^ (n.log2 - 23) < 2 ^ 24 := by
    rw [Nat.div_lt_iff_lt_mul (by positivity), ← Nat.pow_add]
    exact Nat.lt_log2_self.trans_le (Nat.pow_le_pow_right (by decide) (by omega))
  have hle := (le_halfEven n (n.log2 - 23)).2
  rcases Nat.lt_or_ge (halfEven n (n.log2 - 23)) (2 ^ 24) with hsmall | hcarry
  · exact ⟨_, _, hsmall, rfl⟩
  · have hpower : halfEven n (n.log2 - 23) = 2 ^ 24 := by omega
    exact ⟨1, 24 + (n.log2 - 23), by decide, by rw [nearest, hpower, Nat.pow_add, Nat.one_mul]⟩

/-- Nothing is rounded if what is cut off are zeros. -/
theorem nearest_of_dvd {n : Nat} (h : 2 ^ (n.log2 - 23) ∣ n) : nearest n = n := by
  obtain ⟨q, hq⟩ := h
  have hn : n = q * 2 ^ (n.log2 - 23) := hq.trans (Nat.mul_comm _ _)
  rw [nearest]
  generalize n.log2 - 23 = t at hn
  rw [hn, halfEven_exact]

/-- Numbers of at most 24 significant bits stay, and no others. -/
theorem nearest_eq_self {n : Nat} : nearest n = n ↔ Short n := by
  constructor
  · intro h
    rw [← h]
    exact nearest_short n
  · rintro ⟨m, k, hm, rfl⟩
    refine nearest_of_dvd (Nat.dvd_mul_left_of_dvd (Nat.pow_dvd_pow 2 ?_) m)
    by_cases hzero : m = 0
    · simp [hzero]
    · have hlog := log2_mul_two_pow hzero k
      have hm' : m.log2 < 24 := (Nat.log2_lt hzero).2 hm
      omega

/-- The same for numbers of either sign. -/
def nearestInt (i : Int) : Int := i.sign * nearest i.natAbs

theorem nearestInt_eq_self {i : Int} : nearestInt i = i ↔ Short i.natAbs := by
  rw [← nearest_eq_self, nearestInt]
  constructor
  · intro h
    by_cases hzero : i = 0
    · subst hzero
      rfl
    · have hsign : i.sign * nearest i.natAbs = i.sign * i.natAbs :=
        h.trans (Int.sign_mul_natAbs i).symm
      exact Int.ofNat_inj.1 (Int.eq_of_mul_eq_mul_left (mt Int.sign_eq_zero_iff_zero.1 hzero) hsign)
  · intro h
    rw [h, Int.sign_mul_natAbs]

/-! ### Reading the number back -/

/-- Truncation shifts to the left as far as the exponent says, or to the right. -/
theorem roundToInt_eq (s : Sign) (m : Nat) (e : Int) :
    roundToInt s m e = s.apply ((m * 2 ^ e.toNat / 2 ^ (-e).toNat : Nat) : Int) := by
  have hright : (0 - (e - (e.toNat : Int))).toNat = (-e).toNat := by omega
  simp only [roundToInt, decreaseExponent, shiftToExponent, Int.sub_zero, hright,
    (Shifted.shift _ _).mantissa, Nat.shiftLeft_eq]

theorem toInt_single {n : Nat} (hn : n ≠ 0) (lo hi : Int) :
    (single n hn).toInt lo hi = nearest n := by
  have hhigh := (significand_bounds hn).2
  rcases Nat.lt_or_ge n.log2 23 with hlog | hlog
  · obtain ⟨k, hk⟩ : ∃ k, n.log2 + k = 23 := ⟨23 - n.log2, by omega⟩
    obtain ⟨hexact, hlt⟩ := significand_exact hk
    have hnearest : nearest n = n := by
      rw [nearest, show n.log2 - 23 = 0 by omega, halfEven_zero, Nat.pow_zero, Nat.mul_one]
    have hup : ((n.log2 : Int) - 23).toNat = 0 := by omega
    have hdown : (-((n.log2 : Int) - 23)).toNat = k := by omega
    rw [single, dif_pos hlt, UnpackedFloat.toInt, roundToInt_eq, hup, hdown, hexact, Nat.pow_zero,
      Nat.mul_one, Nat.mul_div_cancel _ (by positivity), hnearest]
    rfl
  · obtain ⟨t, ht⟩ := Nat.exists_eq_add_of_le hlog
    have hsignificand : significand n = halfEven n t := by
      rw [significand, ht, Nat.add_comm, halfEven_mul]
    have hnearest : nearest n = significand n * 2 ^ t := by
      rw [nearest, hsignificand, ht, Nat.add_sub_cancel_left]
    have hup : ((n.log2 : Int) - 23).toNat = t := by omega
    have hdown : (-((n.log2 : Int) - 23)).toNat = 0 := by omega
    rw [single]
    split
    · rw [UnpackedFloat.toInt, roundToInt_eq, hup, hdown, Nat.pow_zero, Nat.div_one, hnearest]
      rfl
    · have hcarry : significand n = 2 ^ 24 := by omega
      have hup : ((n.log2 : Int) - 22).toNat = t + 1 := by omega
      have hdown : (-((n.log2 : Int) - 22)).toNat = 0 := by omega
      have hvalue : 2 ^ 23 * 2 ^ (t + 1) = 2 ^ 24 * 2 ^ t := by ring
      rw [UnpackedFloat.toInt, roundToInt_eq, hup, hdown, Nat.pow_zero, Nat.div_one, hnearest,
        hcarry, hvalue]
      rfl

theorem toInt_ofInt {i : Int} (hlarge : i.natAbs.log2 < 64) (lo hi : Int) :
    (Float32.ofInt i).toModel.unpack.toInt lo hi = nearestInt i := by
  cases i with
  | ofNat n =>
    change (Float32.ofNat n).toModel.unpack.toInt lo hi = _
    by_cases hn : n = 0
    · subst hn
      rfl
    · rw [unpack_ofNat hn hlarge, toInt_single hn, nearestInt]
      simp [Int.sign_natCast_of_ne_zero hn]
  | negSucc n =>
    have hn : n + 1 ≠ 0 := by omega
    obtain ⟨m, e, h, hsingle⟩ := single_normal hn hlarge
    have hunpack : (Float32.ofInt (.negSucc n)).toModel.unpack = .finite .negative m e h.pos := by
      change (Float32.Model.pack ((Float32.ofNat (n + 1)).toModel.unpack.neg)).unpack = _
      rw [unpack_ofNat hn hlarge, hsingle]
      exact h.unpack_pack .negative
    have hpositive := toInt_single hn lo hi
    rw [hsingle, UnpackedFloat.toInt, roundToInt_eq] at hpositive
    rw [hunpack, UnpackedFloat.toInt, roundToInt_eq, nearestInt, Int.sign_negSucc, Int.neg_one_mul]
    exact congrArg Neg.neg hpositive

namespace Word

/-- An integer that was turned into a single and back is the nearest one of 24 bits, if that is in
range. -/
theorem signed_truncSigned {i : Int} (hlarge : i.natAbs.log2 < 64) :
    (ofInt i).truncSigned.signed = Max.max (-0x80000000) (Min.min 0x7fffffff (nearestInt i)) := by
  have hint : (ofInt i).truncSigned.signed = (Int32.ofIntClamp (nearestInt i)).toInt := by
    rw [truncSigned, ofInt, toFloat, ofFloat, Float32.ofBits_toBits, signed]
    change (Int32.ofIntClamp ((Float32.ofInt i).toModel.unpack.toInt _ _)).toInt = _
    rw [toInt_ofInt hlarge]
  have hleast : Int32.minValue.toInt = -0x80000000 := rfl
  have hgreatest : Int32.maxValue.toInt = 0x7fffffff := rfl
  rw [hint, Int32.ofIntClamp]
  split
  · split
    · rw [Int32.toInt_ofIntLE]
      omega
    · omega
  · omega

theorem unsigned_truncUnsigned {i : Int} (hlarge : i.natAbs.log2 < 64) :
    ((ofInt i).truncUnsigned.unsigned : Int)
      = Max.max 0 (Min.min 0xffffffff (nearestInt i)) := by
  have hnat : (ofInt i).truncUnsigned.unsigned
      = (UInt32.ofNatClamp (nearestInt i).toNat).toNat := by
    rw [truncUnsigned, ofInt, toFloat, ofFloat, Float32.ofBits_toBits, unsigned]
    change (UInt32.ofNatClamp ((Float32.ofInt i).toModel.unpack.toInt _ _).toNat).toNat = _
    rw [toInt_ofInt hlarge]
  have hsize : UInt32.size = 0x100000000 := rfl
  rw [hnat, UInt32.ofNatClamp]
  split <;> rw [UInt32.toNat_ofNatLT] <;> omega

/-! ### Comparing -/

theorem lt_iff (a b : Word) :
    a.lt b = true ↔ a.toFloat.toModel.unpack.compare b.toFloat.toModel.unpack = some .lt := by
  have hfloat : a.lt b = true ↔ a.toFloat.lt b.toFloat = true := decide_eq_true_iff
  have hmodel : a.toFloat.lt b.toFloat = true ↔
      a.toFloat.toModel.unpack.lt b.toFloat.toModel.unpack = true := decide_eq_true_iff
  rw [hfloat, hmodel, UnpackedFloat.lt, beq_iff_eq]

theorem numEq_iff (a b : Word) :
    a.numEq b = true ↔ a.toFloat.toModel.unpack.compare b.toFloat.toModel.unpack = some .eq := by
  have hmodel : a.numEq b = a.toFloat.toModel.unpack.beq b.toFloat.toModel.unpack := rfl
  rw [hmodel, UnpackedFloat.beq, beq_iff_eq]

theorem toFloat_ofNat (n : Nat) : (ofNat n).toFloat = Float32.ofNat n := Float32.ofBits_toBits _

/-- The single of a number of at most 24 bits has all of them. -/
theorem unpack_ofNat_exact {n : Nat} (hn : n ≠ 0) (hsmall : n < 2 ^ 24) :
    ∃ k, n.log2 + k = 23 ∧ ∃ hpos,
      (ofNat n).toFloat.toModel.unpack = .finite .positive (n * 2 ^ k) (-k) hpos := by
  have hlog : n.log2 < 24 := (Nat.log2_lt hn).2 hsmall
  obtain ⟨k, hk⟩ : ∃ k, n.log2 + k = 23 := ⟨23 - n.log2, by omega⟩
  obtain ⟨hexact, hlt⟩ := significand_exact hk
  refine ⟨k, hk, Nat.mul_pos (Nat.pos_of_ne_zero hn) (by positivity), ?_⟩
  rw [toFloat_ofNat, unpack_ofNat hn (by omega), single, dif_pos hlt, UnpackedFloat.finite.injEq]
  exact ⟨rfl, hexact, by omega⟩

theorem unpack_ofNat_zero : (ofNat 0).toFloat.toModel.unpack = .zero .positive := by rfl

/-- Singles of whole numbers compare as the numbers do. -/
theorem lt_ofNat {a b : Nat} (ha : a < 2 ^ 24) (hb : b < 2 ^ 24) :
    (ofNat a).lt (ofNat b) = true ↔ a < b := by
  rw [lt_iff]
  rcases Nat.eq_zero_or_pos a with rfl | hapos <;> rcases Nat.eq_zero_or_pos b with rfl | hbpos
  · rw [unpack_ofNat_zero]
    decide
  · obtain ⟨k, -, hpos, hunpack⟩ := unpack_ofNat_exact hbpos.ne' hb
    rw [unpack_ofNat_zero, hunpack]
    simp [UnpackedFloat.compare, hbpos]
  · obtain ⟨k, -, hpos, hunpack⟩ := unpack_ofNat_exact hapos.ne' ha
    rw [unpack_ofNat_zero, hunpack]
    simp [UnpackedFloat.compare]
  · obtain ⟨j, hj, hposa, hunpacka⟩ := unpack_ofNat_exact hapos.ne' ha
    obtain ⟨k, hk, hposb, hunpackb⟩ := unpack_ofNat_exact hbpos.ne' hb
    -- the exponents compare as the lengths of the numbers do
    have hmono : a < b → a.log2 ≤ b.log2 := fun h =>
      (Nat.le_log2 hbpos.ne').2 ((Nat.log2_self_le hapos.ne').trans h.le)
    have hstrict : a.log2 < b.log2 → a < b := fun h =>
      calc a < 2 ^ (a.log2 + 1) := Nat.lt_log2_self
        _ ≤ 2 ^ b.log2 := Nat.pow_le_pow_right (by decide) h
        _ ≤ b := Nat.log2_self_le hbpos.ne'
    rw [hunpacka, hunpackb]
    simp only [UnpackedFloat.compare, Option.some.injEq, Ordering.then_eq_lt, Int.compare_eq_lt,
      Int.compare_eq_eq, Nat.compare_eq_lt]
    rcases Nat.lt_trichotomy a.log2 b.log2 with hlog | hlog | hlog
    · exact ⟨fun _ => hstrict hlog, fun _ => .inl (by omega)⟩
    · obtain rfl : j = k := by omega
      rw [Nat.mul_lt_mul_right (by positivity)]
      omega
    · exact ⟨fun h => by omega, fun h => absurd (hmono h) (by omega)⟩

theorem isNaN_of_unpack {w : Word} (h : w.toFloat.toModel.unpack ≠ .notANumber) :
    w.isNaN = false := by
  have hself : w.numEq w = true := (beq_iff_ne_notANumber_and_eq _ _).2 ⟨h, h, .inl rfl⟩
  rw [numEq_self] at hself
  simpa using hself

/-- What is less than something is a number. -/
theorem isNaN_of_lt {a b : Word} (h : a.lt b = true) : a.isNaN = false := by
  refine isNaN_of_unpack fun hnan => ?_
  rw [lt_iff, hnan] at h
  cases h

theorem negInfinity_lt_ofNat {n : Nat} (h : n < 2 ^ 24) : negInfinity.lt (ofNat n) = true := by
  rw [lt_iff]
  have hinfinity : negInfinity.toFloat.toModel.unpack = .infinity .negative := by rfl
  rw [hinfinity]
  rcases Nat.eq_zero_or_pos n with rfl | hpos
  · rw [unpack_ofNat_zero]
    rfl
  · obtain ⟨_, -, _, hunpack⟩ := unpack_ofNat_exact hpos.ne' h
    rw [hunpack]
    rfl

theorem ofNat_not_lt_neg_one {n : Nat} (h : n < 2 ^ 24) : (ofNat n).lt (ofInt (-1)) = false := by
  rw [Bool.eq_false_iff, ne_eq, lt_iff]
  have hneg : (ofInt (-1)).toFloat.toModel.unpack
      = .finite .negative (2 ^ 23) (-23) (by decide) := by rfl
  rw [hneg]
  rcases Nat.eq_zero_or_pos n with rfl | hpos
  · rw [unpack_ofNat_zero]
    exact nofun
  · obtain ⟨_, -, _, hunpack⟩ := unpack_ofNat_exact hpos.ne' h
    rw [hunpack]
    exact nofun

end Word

end HeteroNet
