import HeteroNet.Proofs.Storage.Accuracy

/-
Rounding to codes. Adding half a unit to the bits of a number and clearing those of its fraction
rounds it, also where the sum carries into the exponent (`bits_round`, `fields_eq`). So a number
that is within a quarter of a whole number becomes that one (`Represents.round`), and a small error
in a number does not show in its code.
-/

namespace HeteroNet

open Float.Model UnpackedFloat Rounding

namespace Word

variable {w : Word} {m n b f u : Nat} {e : Int} {x : ℚ}

/-- The bits of a positive single of full length: the exponent, and the fraction. -/
theorem toNat_packComponents (hb : b < 256) (hf : f < 2 ^ 23) :
    (packComponents Format.binary32 .positive (BitVec.ofNat 8 b)
      (BitVec.ofNat 23 (2 ^ 23 + f))).toNat = b * 2 ^ 23 + f := by
  change ((0#1 ++ BitVec.ofNat 8 b) ++ BitVec.ofNat 23 (2 ^ 23 + f)).toNat = _
  rw [BitVec.toNat_append, BitVec.toNat_append,
    ← Nat.shiftLeft_add_eq_or_of_lt (BitVec.isLt _),
    ← Nat.shiftLeft_add_eq_or_of_lt (BitVec.isLt _), BitVec.toNat_ofNat, BitVec.toNat_ofNat,
    Nat.shiftLeft_eq, Nat.shiftLeft_eq]
  norm_num
  omega

theorem toModel_unpack (w : Word) : w.toFloat.toModel.unpack
    = UnpackedFloat.unpack Format.binary32 (UnpackedFloat.pack Format.binary32
      (UnpackedFloat.unpack Format.binary32 w.bits.toBitVec)) := rfl

theorem bits_of_unpack (h : Normal (2 ^ 23 + f) e) (hb : e = b - 150)
    (hw : w.toFloat.toModel.unpack = .finite .positive (2 ^ 23 + f) e h.pos) :
    w.bits.toNat = b * 2 ^ 23 + f := by
  have hlarge := h.large
  have hhigh := h.high
  have hunpack : UnpackedFloat.unpack Format.binary32 w.bits.toBitVec
      = .finite .positive (2 ^ 23 + f) e h.pos := by
    rw [toModel_unpack, pack_unpack] at hw
    split at hw
    · rw [unpack_packedNaN] at hw
      cases hw
    · exact hw
  have hpack : w.bits.toBitVec = packComponents Format.binary32 .positive (BitVec.ofNat 8 b)
      (BitVec.ofNat 23 (2 ^ 23 + f)) := by
    rw [← h.pack hb, ← hunpack, pack_unpack, if_neg]
    intro hnan
    rw [← unpack_eq_notANumber, hunpack] at hnan
    cases hnan
  rw [← UInt32.toNat_toBitVec, hpack, toNat_packComponents (by omega) (by omega)]

/-- Numbers of full length have one word each. -/
theorem Represents.eq_of_unpack {a : Word} (h : w.Represents .positive x)
    (ha : a.toFloat.toModel.unpack = w.toFloat.toModel.unpack) : a = w := by
  obtain ⟨m, e, hnormal, hunpack, -⟩ := h
  obtain ⟨f, rfl⟩ := Nat.exists_eq_add_of_le hnormal.low
  obtain ⟨b, hb⟩ := hnormal.exists_field
  have hbits := bits_of_unpack hnormal hb hunpack
  rw [← bits_of_unpack hnormal hb (ha.trans hunpack)] at hbits
  exact (congrArg Word.mk (UInt32.toNat_inj.1 hbits)).symm

/-- Which number a word is, from its fields. -/
theorem represents_of_bits (hbits : w.bits.toNat = b * 2 ^ 23 + f) (hf : f < 2 ^ 23) (hlow : 1 ≤ b)
    (hhigh : b ≤ 254) : w.Represents .positive (value (2 ^ 23 + f) (b - 150)) := by
  have hnormal : Normal (2 ^ 23 + f) (b - 150) := ⟨by omega, by omega, by omega, by omega⟩
  have hpack : w.bits.toBitVec = UnpackedFloat.pack Format.binary32
      (.finite .positive (2 ^ 23 + f) (b - 150) hnormal.pos) := by
    rw [hnormal.pack rfl]
    refine BitVec.eq_of_toNat_eq ?_
    rw [toNat_packComponents (by omega) hf, UInt32.toNat_toBitVec, hbits]
  have hunpack : UnpackedFloat.unpack Format.binary32 (UnpackedFloat.pack Format.binary32
      (.finite .positive (2 ^ 23 + f) (b - 150) hnormal.pos)) = _ := hnormal.unpack_pack .positive
  refine ⟨_, _, hnormal, ?_, rfl⟩
  rw [toModel_unpack, hpack, hunpack, hunpack]

theorem toNat_one_shiftLeft (hu : u < 32) : ((1 : UInt32) <<< u.toUInt32).toNat = 2 ^ u := by
  have hshift : u.toUInt32.toNat % 32 = u := by
    rw [Nat.toUInt32_eq, UInt32.toNat_ofNat']
    omega
  rw [UInt32.toNat_shiftLeft, hshift, Nat.shiftLeft_eq, UInt32.toNat_one, Nat.one_mul,
    Nat.mod_eq_of_lt (Nat.pow_lt_pow_right (by norm_num) hu)]

/-- Clearing the bits below a power of two. -/
theorem and_not_mask (a : UInt32) (hu : u < 32) :
    (a &&& ~~~((1 <<< u.toUInt32) - 1)).toNat = a.toNat / 2 ^ u * 2 ^ u := by
  have hpow : 2 ^ u < 2 ^ 32 := Nat.pow_lt_pow_right (by norm_num) hu
  have hunit := toNat_one_shiftLeft hu
  have hmask : ((1 : UInt32) <<< u.toUInt32 - 1).toNat = 2 ^ u - 1 := by
    rw [UInt32.toNat_sub_of_le, hunit]
    · rfl
    · rw [UInt32.le_iff_toNat_le, hunit]
      exact Nat.one_le_two_pow
  rw [UInt32.toNat_and, UInt32.toNat_not, hmask]
  have hcomplement : UInt32.size - 1 - (2 ^ u - 1) = 2 ^ 32 - ((2 ^ u - 1) + 1) := by
    have : UInt32.size = 2 ^ 32 := rfl
    omega
  rw [hcomplement]
  refine Nat.eq_of_testBit_eq fun i => ?_
  rw [Nat.testBit_and, Nat.testBit_two_pow_sub_succ (by omega), Nat.testBit_two_pow_sub_one,
    Nat.testBit_mul_two_pow, Nat.testBit_div_two_pow]
  rcases Nat.lt_or_ge i u with hi | hi
  · simp [hi]
  · rcases Nat.lt_or_ge i 32 with hi' | hi'
    · simp [hi, hi']
    · have hzero : a.toNat.testBit i = false :=
        Nat.testBit_lt_two_pow (a.toNat_lt.trans_le (Nat.pow_le_pow_right (by norm_num) hi'))
      simp [hi, hzero]

theorem exponent_of_bits (hbits : w.bits.toNat = b * 2 ^ 23 + f) (hf : f < 2 ^ 23)
    (hb : b < 256) : w.exponent = b := by
  have hmask : w.magnitude.toNat = w.bits.toNat % 2 ^ 31 :=
    Nat.and_two_pow_sub_one_eq_mod w.bits.toNat 31
  rw [exponent, UInt32.toNat_shiftRight, hmask, hbits, Nat.shiftRight_eq_div_pow]
  change (b * 2 ^ 23 + f) % 2 ^ 31 / 2 ^ 23 = b
  omega

/-- From one half on, and below one, rounding leaves one. -/
theorem round_half (hbits : w.bits.toNat = 126 * 2 ^ 23 + f) (hf : f < 2 ^ 23) :
    w.round = ofNat 1 := by
  have hexponent := exponent_of_bits hbits hf (by norm_num)
  have hsign : w.sign = 0 := by
    have hbit : w.bits.toNat.testBit 31 = false := Nat.testBit_lt_two_pow (by omega)
    have hnat : w.sign.toNat = 0 := by
      rw [sign, UInt32.toNat_and]
      change w.bits.toNat &&& 2 ^ 31 = 0
      rw [Nat.and_two_pow, hbit]
      rfl
    exact UInt32.toNat_inj.1 hnat
  have hone : (⟨0 ||| 0x3f800000⟩ : Word) = ofNat 1 := by decide +kernel
  simp only [round, hexponent, hsign, hone, if_neg (Nat.lt_irrefl 126), if_true]

/-- Rounding adds half a unit in the place of the last whole bit and clears what lies below. -/
theorem bits_round (hbits : w.bits.toNat = b * 2 ^ 23 + f) (hf : f < 2 ^ 23) (hlow : 127 ≤ b)
    (hhigh : b < 150) : w.round.bits.toNat
      = (b - 1) * 2 ^ 23 + (2 ^ 23 + f + 2 ^ (149 - b)) / 2 ^ (150 - b) * 2 ^ (150 - b) := by
  have hfields : b * 2 ^ 23 = 2 ^ 23 + (b - 1) * 2 ^ 23 := by omega
  obtain ⟨u, hu⟩ : ∃ u, 150 - b = u + 1 := ⟨149 - b, by omega⟩
  have hhalf : 149 - b = u := by omega
  have hle : 2 ^ u ≤ 2 ^ 22 := Nat.pow_le_pow_right (by norm_num) (by omega)
  obtain ⟨q, hq⟩ : 2 ^ (u + 1) ∣ (b - 1) * 2 ^ 23 :=
    Nat.dvd_mul_left_of_dvd (Nat.pow_dvd_pow 2 (by omega)) _
  have hsplit : b * 2 ^ 23 + f + 2 ^ u = 2 ^ 23 + f + 2 ^ u + 2 ^ (u + 1) * q := by
    rw [← hq, hfields]
    ring
  have hexponent := exponent_of_bits hbits hf (by omega)
  have hround : w.round = ⟨(w.bits + ((1 : UInt32) <<< (u + 1).toUInt32) / 2)
      &&& ~~~(((1 : UInt32) <<< (u + 1).toUInt32) - 1)⟩ := by
    simp only [round, hexponent, if_neg (show ¬ b < 126 by omega),
      if_neg (show b ≠ 126 by omega), if_neg (show ¬ 150 ≤ b by omega), hu]
  have hsum : (w.bits + ((1 : UInt32) <<< (u + 1).toUInt32) / 2).toNat
      = b * 2 ^ 23 + f + 2 ^ u := by
    have hunit : ((1 : UInt32) <<< (u + 1).toUInt32 / 2).toNat = 2 ^ u := by
      rw [UInt32.toNat_div, toNat_one_shiftLeft (by omega), Nat.pow_succ]
      exact Nat.mul_div_cancel _ (by norm_num)
    rw [UInt32.toNat_add, hunit, hbits]
    omega
  rw [hround, and_not_mask _ (by omega), hsum, hhalf, hu, hsplit, hq,
    Nat.add_mul_div_left _ _ (by positivity), Nat.add_mul, Nat.add_comm, Nat.mul_comm q]

/-- The fields of a whole number of at most 24 bits. -/
theorem bits_ofNat (hn : n ≠ 0) (hsmall : n < 2 ^ 24) :
    (ofNat n).bits.toNat = (126 + n.log2) * 2 ^ 23 + n * 2 ^ (23 - n.log2) := by
  obtain ⟨m, e, h, hunpack, -⟩ := represents_ofNat hn hsmall
  obtain ⟨k, hk, _, hexact⟩ := unpack_ofNat_exact hn hsmall
  rw [hunpack, UnpackedFloat.finite.injEq] at hexact
  obtain ⟨-, hm, rfl⟩ := hexact
  obtain ⟨f, rfl⟩ := Nat.exists_eq_add_of_le h.low
  rw [bits_of_unpack h (b := 150 - k) (by omega) hunpack, show 23 - n.log2 = k by omega, ← hm]
  omega

theorem div_add_half {m n u : Nat} (hbelow : 4 * m ≤ 4 * (n * 2 ^ (u + 1)) + 2 ^ (u + 1))
    (habove : 4 * (n * 2 ^ (u + 1)) ≤ 4 * m + 2 ^ (u + 1)) :
    (m + 2 ^ u) / 2 ^ (u + 1) = n := by
  have hpow : 2 ^ (u + 1) = 2 * 2 ^ u := Nat.pow_succ'
  have hpos : 0 < 2 ^ u := by positivity
  refine Nat.div_eq_of_lt_le ?_ ?_
  · omega
  · rw [Nat.succ_mul]
    omega

/-- A number within a quarter of `n` has the fields of `n`, once its mantissa is that of `n`: the
carry into the exponent included. -/
theorem fields_eq {m n u v : Nat} (huv : u + v = 23) (hu : 0 < u)
    (hlow : 2 ^ 23 ≤ m) (hhigh : m < 2 ^ 24)
    (hbelow : 4 * m ≤ 4 * (n * 2 ^ u) + 2 ^ u) (habove : 4 * (n * 2 ^ u) ≤ 4 * m + 2 ^ u) :
    (126 + v) * 2 ^ 23 + n * 2 ^ u = (126 + n.log2) * 2 ^ 23 + n * 2 ^ (23 - n.log2) := by
  have hsplit : 2 ^ v * 2 ^ u = 2 ^ 23 := by rw [← Nat.pow_add, Nat.add_comm v, huv]
  have hpos : 0 < 2 ^ u := by positivity
  have hnlow : 2 ^ v ≤ n := by
    have : 2 ^ v * 2 ^ u < (n + 1) * 2 ^ u := by
      rw [Nat.succ_mul]
      omega
    exact Nat.lt_succ_iff.1 (Nat.lt_of_mul_lt_mul_right this)
  have hnhigh : n ≤ 2 ^ (v + 1) := by
    have : n * 2 ^ u < (2 ^ (v + 1) + 1) * 2 ^ u := by
      rw [Nat.succ_mul, Nat.pow_succ, Nat.mul_right_comm, hsplit]
      omega
    exact Nat.lt_succ_iff.1 (Nat.lt_of_mul_lt_mul_right this)
  have hne : n ≠ 0 := (Nat.lt_of_lt_of_le (by positivity) hnlow).ne'
  rcases Nat.lt_or_eq_of_le hnhigh with hlt | rfl
  · have hlog : n.log2 = v := (Nat.log2_eq_iff hne).2 ⟨hnlow, hlt⟩
    rw [hlog, show 23 - v = u by omega]
  · -- the number is the power of two above
    rw [Nat.log2_two_pow, ← Nat.pow_add, ← Nat.pow_add, show v + 1 + u = 24 by omega,
      show v + 1 + (23 - (v + 1)) = 23 by omega]
    omega

/-- The exponent of a number between one half and `2^22`. -/
theorem field_bounds {m : Nat} (h : Normal m e) (hb : e = b - 150) (hlow : 1 / 2 < value m e)
    (hhigh : value m e < 2 ^ 22) : 126 ≤ b ∧ b < 149 := by
  have habove : (2 : ℚ) ^ (-1 : Int) < 2 ^ ((24 : Nat) + e : Int) := by
    calc (2 : ℚ) ^ (-1 : Int) = 1 / 2 := by norm_num
      _ < value m e := hlow
      _ ≤ value (2 ^ 24) e := value_mono h.high.le e
      _ = 2 ^ ((24 : Nat) + e : Int) := value_two_pow 24 e
  have hbelow : (2 : ℚ) ^ ((23 : Nat) + e : Int) < 2 ^ (22 : Int) := by
    calc (2 : ℚ) ^ ((23 : Nat) + e : Int) = value (2 ^ 23) e := (value_two_pow 23 e).symm
      _ ≤ value m e := value_mono h.low e
      _ < 2 ^ (22 : Int) := by exact_mod_cast hhigh
  have hlower := (zpow_lt_zpow_iff_right₀ (by norm_num)).1 habove
  have hupper := (zpow_lt_zpow_iff_right₀ (by norm_num)).1 hbelow
  omega

/-- How far a mantissa is from that of `n`, in quarters of its unit. -/
theorem mantissa_near {m : Nat} (hunit : e + u = 0) (hx : |value m e - n| ≤ 1 / 4) :
    4 * m ≤ 4 * (n * 2 ^ u) + 2 ^ u ∧ 4 * (n * 2 ^ u) ≤ 4 * m + 2 ^ u := by
  have hscale : (m : ℚ) = value m e * 2 ^ u := by
    rw [← zpow_natCast, value, mul_assoc, ← zpow_add₀ (by norm_num), hunit, zpow_zero, mul_one]
  obtain ⟨hleft, hright⟩ := abs_le.1 hx
  have hleft := mul_le_mul_of_nonneg_right hleft (show (0 : ℚ) ≤ 2 ^ u by positivity)
  have hright := mul_le_mul_of_nonneg_right hright (show (0 : ℚ) ≤ 2 ^ u by positivity)
  constructor
  · suffices h : ((4 * m : Nat) : ℚ) ≤ (4 * (n * 2 ^ u) + 2 ^ u : Nat) from Nat.cast_le.1 h
    push_cast
    linarith only [hscale, hright]
  · suffices h : ((4 * (n * 2 ^ u) : Nat) : ℚ) ≤ (4 * m + 2 ^ u : Nat) from Nat.cast_le.1 h
    push_cast
    linarith only [hscale, hleft]

/-- A single near a whole number rounds to it. -/
theorem Represents.round (h : w.Represents .positive x) (hn : 1 ≤ n) (hsmall : n < 2 ^ 22)
    (hx : |x - n| ≤ 1 / 4) : w.round = ofNat n := by
  obtain ⟨m, e, hnormal, hunpack, rfl⟩ := h
  have hmlow := hnormal.low
  have hmhigh := hnormal.high
  obtain ⟨b, hb⟩ := hnormal.exists_field
  obtain ⟨f, hm, hbits⟩ : ∃ f, m = 2 ^ 23 + f ∧ w.bits.toNat = b * 2 ^ 23 + f := by
    obtain ⟨f, rfl⟩ := Nat.exists_eq_add_of_le hmlow
    exact ⟨f, rfl, bits_of_unpack hnormal hb hunpack⟩
  obtain ⟨hlower, hupper⟩ : 126 ≤ b ∧ b < 149 := by
    have hnQ : (1 : ℚ) ≤ n := by exact_mod_cast hn
    have hsmallQ : (n : ℚ) + 1 ≤ 2 ^ 22 := by exact_mod_cast hsmall
    obtain ⟨hleft, hright⟩ := abs_le.1 hx
    exact field_bounds hnormal hb (by linarith) (by linarith)
  obtain ⟨u, hu⟩ : ∃ u, b + u = 150 := ⟨150 - b, by omega⟩
  obtain ⟨hbelow, habove⟩ := mantissa_near (u := u) (by omega) hx
  rcases Nat.eq_or_lt_of_le hlower with rfl | hlower
  · -- below one, where no bit is whole
    obtain rfl : u = 24 := by omega
    obtain rfl : n = 1 := by omega
    exact round_half hbits (by omega)
  · obtain ⟨v, rfl⟩ := Nat.exists_eq_add_of_le hlower
    obtain ⟨k, rfl⟩ : ∃ k, u = k + 1 := ⟨u - 1, by omega⟩
    have hround := bits_round hbits (by omega) (by omega) (by omega)
    rw [show 149 - (126 + 1 + v) = k by omega, show 150 - (126 + 1 + v) = k + 1 by omega,
      ← hm, div_add_half hbelow habove] at hround
    have hexponent : 126 + 1 + v - 1 = 126 + v := by omega
    rw [hexponent, fields_eq (by omega) (by omega) hmlow hmhigh hbelow habove,
      ← bits_ofNat (by omega) (by omega)] at hround
    exact congrArg Word.mk (UInt32.toNat_inj.1 hround)

theorem zero_eq : zero = ofNat 0 := by decide +kernel

theorem maxCode_eq : maxCode = ofNat 255 := by decide +kernel

/-- A number near a code is stored as the code. -/
theorem Represents.roundToCode (h : w.Represents .positive x) (hn : 1 ≤ n) (hcode : n ≤ 255)
    (hx : |x - n| ≤ 1 / 4) : w.roundToCode = ofNat n := by
  rw [Word.roundToCode, h.round hn (by omega) hx, clamp, zero_eq, maxCode_eq]
  simp only [lt_ofNat (show n < 2 ^ 24 by omega) (show 0 < 2 ^ 24 by norm_num),
    lt_ofNat (show 255 < 2 ^ 24 by norm_num) (show n < 2 ^ 24 by omega), Nat.not_lt_zero,
    if_false, if_neg (show ¬ 255 < n by omega)]

end Word

end HeteroNet
