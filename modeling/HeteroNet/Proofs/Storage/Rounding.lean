import HeteroNet.Word
import Mathlib

/-
Which single a whole number becomes. Rounding works on a mantissa with two bits more, one for the
half and one for all that fell off behind it; `Shifted` says what they mean after any shift. What
is kept are 24 significant bits (`significand`), whatever places the number was given before, and
`unpack_ofNat` says that this is the single that the number is converted to.

A number below 2^23 is converted exactly and multiplied by one, a larger one is multiplied at once;
both come to `roundWithAccuracy_eq`, so no result depends on which way was taken.
-/

namespace HeteroNet.Rounding

open Float.Model UnpackedFloat

/-! ### Halves go to the even neighbour -/

/-- The whole number nearest to `n / 2^s`; halves go to the even neighbour. -/
def halfEven (n s : Nat) : Nat :=
  if 2 * (n % 2 ^ s) < 2 ^ s ∨ 2 * (n % 2 ^ s) = 2 ^ s ∧ n / 2 ^ s % 2 = 0 then n / 2 ^ s
  else n / 2 ^ s + 1

/-- The bits that stay of a mantissa, and how what fell off compares with a half. -/
structure Shifted (n s : Nat) (em : ExtendedMantissa) : Prop where
  mantissa : em.mantissa = n / 2 ^ s
  round : em.roundBit = true ↔ 2 ^ s ≤ 2 * (n % 2 ^ s)
  sticky : em.stickyBit = true ↔ n % 2 ^ s ≠ 0 ∧ 2 * (n % 2 ^ s) ≠ 2 ^ s

theorem Shifted.zero (n : Nat) : Shifted n 0 (.ofMantissaAndAccuracy n .exact) := by
  constructor <;> simp [ExtendedMantissa.ofMantissaAndAccuracy, Nat.mod_one]

theorem Shifted.succ {n s : Nat} {em : ExtendedMantissa} (h : Shifted n s em) :
    Shifted n (s + 1) em.shiftRightOne := by
  have hmod : n % 2 ^ (s + 1) = n % 2 ^ s + 2 ^ s * (n / 2 ^ s % 2) := Nat.mod_pow_succ
  have hlt : n % 2 ^ s < 2 ^ s := Nat.mod_lt _ (by positivity)
  have hpow : 2 ^ (s + 1) = 2 * 2 ^ s := by ring
  refine ⟨?_, ?_, ?_⟩
  · rw [ExtendedMantissa.shiftRightOne, h.mantissa, Nat.div_div_eq_div_mul, Nat.pow_succ]
  · rw [hmod, hpow]
    simp only [ExtendedMantissa.shiftRightOne, h.mantissa, bne_iff_ne]
    rcases Nat.mod_two_eq_zero_or_one (n / 2 ^ s) with hb | hb <;> rw [hb] <;> omega
  · rw [hmod, hpow]
    simp only [ExtendedMantissa.shiftRightOne, Bool.or_eq_true, h.round, h.sticky]
    rcases Nat.mod_two_eq_zero_or_one (n / 2 ^ s) with hb | hb <;> rw [hb] <;> omega

theorem Shifted.shift (n : Nat) : ∀ s,
    Shifted n s (ExtendedMantissa.ofMantissaAndAccuracy n .exact >>> s)
  | 0 => Shifted.zero n
  | s + 1 => (Shifted.shift n s).succ

theorem Shifted.rounded {n s : Nat} {em : ExtendedMantissa} (h : Shifted n s em) :
    em.roundedMantissa = halfEven n s := by
  obtain ⟨m, r, t⟩ := em
  obtain ⟨hm, hr, ht⟩ := h
  obtain rfl : m = n / 2 ^ s := hm
  have hlt : n % 2 ^ s < 2 ^ s := Nat.mod_lt _ (by positivity)
  simp only at hr ht
  rw [halfEven]
  cases r <;> cases t <;>
    simp only [ExtendedMantissa.roundedMantissa, ExtendedMantissa.accuracy,
      Accuracy.roundToNearestEven, Bool.false_eq_true, false_iff, true_iff] at hr ht ⊢ <;>
    split <;> omega

theorem halfEven_zero (n : Nat) : halfEven n 0 = n := by simp [halfEven, Nat.mod_one]

/-- More places before and more places to drop. -/
theorem halfEven_mul (n s j : Nat) : halfEven (n * 2 ^ j) (s + j) = halfEven n s := by
  have hpow : 2 ^ (s + j) = 2 ^ s * 2 ^ j := Nat.pow_add 2 s j
  have hpos : 0 < 2 ^ j := by positivity
  have hdiv : n * 2 ^ j / 2 ^ (s + j) = n / 2 ^ s := by rw [hpow, Nat.mul_div_mul_right _ _ hpos]
  have hmod : 2 * (n * 2 ^ j % 2 ^ (s + j)) = 2 * (n % 2 ^ s) * 2 ^ j := by
    rw [hpow, Nat.mul_mod_mul_right, Nat.mul_assoc]
  rw [halfEven, halfEven, hdiv, hmod, hpow]
  simp only [Nat.mul_lt_mul_right hpos, Nat.mul_left_inj hpos.ne']

theorem halfEven_exact (m s : Nat) : halfEven (m * 2 ^ s) s = m := by
  have h := halfEven_mul m 0 s
  rwa [Nat.zero_add, halfEven_zero] at h

theorem le_halfEven (n s : Nat) : n / 2 ^ s ≤ halfEven n s ∧ halfEven n s ≤ n / 2 ^ s + 1 := by
  rw [halfEven]
  split <;> omega

/-- The 24 significant bits of a single that stands for a whole number. They are one more than
24 bits hold if rounding carries to the next power of two. -/
def significand (n : Nat) : Nat := halfEven (n * 2 ^ 23) n.log2

theorem significand_bounds {n : Nat} (hn : n ≠ 0) :
    2 ^ 23 ≤ significand n ∧ significand n ≤ 2 ^ 24 := by
  have hlow : 2 ^ n.log2 ≤ n := Nat.log2_self_le hn
  have hhigh : n < 2 ^ (n.log2 + 1) := Nat.lt_log2_self
  have hpos : 0 < 2 ^ n.log2 := by positivity
  have hle : 2 ^ 23 ≤ n * 2 ^ 23 / 2 ^ n.log2 := by
    rw [Nat.le_div_iff_mul_le hpos, Nat.mul_comm]
    exact Nat.mul_le_mul_right _ hlow
  have hlt : n * 2 ^ 23 / 2 ^ n.log2 < 2 ^ 24 := by
    rw [Nat.div_lt_iff_lt_mul hpos]
    calc n * 2 ^ 23 < 2 ^ (n.log2 + 1) * 2 ^ 23 := Nat.mul_lt_mul_of_pos_right hhigh (by positivity)
      _ = 2 ^ 24 * 2 ^ n.log2 := by rw [Nat.pow_succ]; ring
  have := le_halfEven (n * 2 ^ 23) n.log2
  exact ⟨hle.trans this.1, this.2.trans hlt⟩

/-- However many places a whole number was given before, rounding leaves the same bits. -/
theorem halfEven_significand {n k : Nat} (h : 23 ≤ n.log2 + k) :
    halfEven (n * 2 ^ k) (n.log2 + k - 23) = significand n := by
  rw [significand]
  rcases Nat.le_total 23 k with hk | hk
  · obtain ⟨j, rfl⟩ := Nat.exists_eq_add_of_le hk
    rw [Nat.pow_add, ← Nat.mul_assoc, show n.log2 + (23 + j) - 23 = n.log2 + j by omega,
      halfEven_mul]
  · obtain ⟨j, hj⟩ := Nat.exists_eq_add_of_le hk
    have hpow : 2 ^ 23 = 2 ^ k * 2 ^ j := by rw [hj, Nat.pow_add]
    have hs : n.log2 = n.log2 + k - 23 + j := by omega
    conv_rhs => rw [hpow, ← Nat.mul_assoc, hs]
    rw [halfEven_mul]

/-- A number of at most 24 bits has room for all of them. -/
theorem significand_exact {n k : Nat} (h : n.log2 + k = 23) :
    significand n = n * 2 ^ k ∧ significand n < 2 ^ 24 := by
  have hpow : 2 ^ 23 = 2 ^ k * 2 ^ n.log2 := by rw [← h, Nat.pow_add, Nat.mul_comm]
  have hexact : significand n = n * 2 ^ k := by
    rw [significand, hpow, ← Nat.mul_assoc, halfEven_exact]
  refine ⟨hexact, hexact ▸ ?_⟩
  calc n * 2 ^ k < 2 ^ (n.log2 + 1) * 2 ^ k :=
        Nat.mul_lt_mul_of_pos_right Nat.lt_log2_self (by positivity)
    _ = 2 ^ 24 := by rw [← Nat.pow_add, Nat.add_right_comm, h]

/-! ### Packing -/

/-- A single of 24 significant bits, neither tiny nor huge. -/
structure Normal (m : Nat) (e : Int) : Prop where
  low : 2 ^ 23 ≤ m
  high : m < 2 ^ 24
  small : -149 ≤ e
  large : e ≤ 104

theorem Normal.pos {m : Nat} {e : Int} (h : Normal m e) : 0 < m :=
  Nat.lt_of_lt_of_le (by decide) h.low

theorem Normal.log2 {m : Nat} {e : Int} (h : Normal m e) : m.log2 = 23 := by
  have hne : m ≠ 0 := h.pos.ne'
  have hlow : 23 ≤ m.log2 := (Nat.le_log2 hne).2 h.low
  have hhigh : m.log2 < 24 := (Nat.log2_lt hne).2 h.high
  omega

theorem Normal.exists_field {m : Nat} {e : Int} (h : Normal m e) : ∃ b : Nat, e = b - 150 := by
  have hsmall := h.small
  exact ⟨(e + 150).toNat, by omega⟩

/-- The exponent field, and the fraction behind the leading bit. -/
theorem Normal.pack {m b : Nat} {e : Int} (h : Normal m e) (hb : e = b - 150) (s : Sign) :
    UnpackedFloat.pack Format.binary32 (.finite s m e h.pos)
      = packComponents Format.binary32 s (BitVec.ofNat 8 b) (BitVec.ofNat 23 m) := by
  have hlarge := h.large
  have hbiased : (e + (Format.binary32.exponentBias : Int)
      + (Format.binary32.mantissaBitsWithoutImplicit : Int)).toNat = b := by
    change (e + 127 + 23).toNat = b
    omega
  rw [UnpackedFloat.pack, hbiased, if_neg (by change ¬ 2 ^ 8 ≤ b + 1; omega), h.log2,
    if_pos (by rfl)]

theorem Normal.unpack_pack {m : Nat} {e : Int} (h : Normal m e) (s : Sign) :
    (Float32.Model.pack (.finite s m e h.pos)).unpack = .finite s m e h.pos := by
  have hsmall := h.small
  have hlarge := h.large
  have hhigh := h.high
  have hlow := h.low
  obtain ⟨b, hb⟩ := h.exists_field
  have hbe : (BitVec.ofNat 8 b).toNat = b := by
    rw [BitVec.toNat_ofNat, Nat.mod_eq_of_lt (by omega)]
  have hfirst : BitVec.ofNat 8 b ≠ 0#8 :=
    ne_of_apply_ne BitVec.toNat (by rw [hbe]; change b ≠ 0; omega)
  have hlast : BitVec.ofNat 8 b ≠ -1#8 :=
    ne_of_apply_ne BitVec.toNat (by rw [hbe]; change b ≠ 255; omega)
  have hm : (1#1 ++ BitVec.ofNat 23 m).toNat = m := by
    rw [BitVec.toNat_append, ← Nat.shiftLeft_add_eq_or_of_lt (BitVec.isLt _), BitVec.toNat_ofNat]
    simp [Nat.shiftLeft_eq]
    omega
  change UnpackedFloat.unpack Format.binary32 (UnpackedFloat.pack Format.binary32 _) = _
  rw [h.pack hb, UnpackedFloat.unpack]
  simp only [unpackMantissa_packComponents, unpackExponent_packComponents,
    unpackSign_packComponents, hfirst, hlast, if_false, hbe, hm]
  rw [UnpackedFloat.finite.injEq]
  refine ⟨by cases s <;> rfl, rfl, ?_⟩
  change (b : Int) - (127 + 23) = e
  omega

/-! ### Rounding -/

/-- The exponent that a single of 24 significant bits has. -/
theorem targetExponent_eq {m : Nat} {e : Int} (h : -149 ≤ (m.log2 : Int) + e - 23) :
    Format.binary32.targetExponent (totalExponent m e) = m.log2 + e - 23 := by
  change max ((m.log2 : Int) + 1 + e - (1 + 23)) (-149) = _
  omega

/-- A shift that has nothing to do. -/
theorem Normal.shift {m : Nat} {e : Int} (h : Normal m e) :
    shiftToTargetExponent Format.binary32 m e .exact = (.ofMantissaAndAccuracy m .exact, e) := by
  have hsmall := h.small
  have ht : Format.binary32.targetExponent (totalExponent m e) = e := by
    rw [targetExponent_eq] <;> rw [h.log2] <;> omega
  have hz : (Format.binary32.targetExponent (totalExponent m e) - e).toNat = 0 := by omega
  simp only [shiftToTargetExponent, shiftToExponent, hz]
  rw [Int.ofNat_zero, Int.add_zero]
  rfl

/-- The single that a positive whole number becomes. -/
def single (n : Nat) (hn : n ≠ 0) : UnpackedFloat :=
  if h : significand n < 2 ^ 24 then
    .finite .positive (significand n) (n.log2 - 23)
      (Nat.lt_of_lt_of_le (by decide) (significand_bounds hn).1)
  else .finite .positive (2 ^ 23) (n.log2 - 22) (by decide)

/-- A carry leaves one bit more than there is room for, which is zero. -/
theorem shift_carry {e : Int} (h : -149 ≤ e) :
    shiftToTargetExponent Format.binary32 (2 ^ 24) e .exact
      = (.ofMantissaAndAccuracy (2 ^ 23) .exact, e + 1) := by
  have hlog : Nat.log2 (2 ^ 24) = 24 := Nat.log2_two_pow
  have ht : Format.binary32.targetExponent (totalExponent (2 ^ 24) e) = e + 1 := by
    rw [targetExponent_eq] <;> rw [hlog] <;> omega
  have hone : (e + 1 - e).toNat = 1 := by omega
  simp only [shiftToTargetExponent, shiftToExponent, ht, hone]
  rfl

theorem log2_mul_two_pow {n : Nat} (hn : n ≠ 0) (k : Nat) : (n * 2 ^ k).log2 = n.log2 + k := by
  have hpos : 0 < 2 ^ k := by positivity
  rw [Nat.log2_eq_iff (Nat.mul_ne_zero hn hpos.ne')]
  constructor
  · rw [Nat.pow_add]
    exact Nat.mul_le_mul_right _ (Nat.log2_self_le hn)
  · rw [Nat.add_right_comm, Nat.pow_add]
    exact Nat.mul_lt_mul_of_pos_right Nat.lt_log2_self hpos

/-- Rounding shifts to 24 bits, rounds, and shifts again after a carry. -/
theorem roundWithAccuracy_of_shifts {s : Sign} {m r : Nat} {e e₁ e₂ : Int} {a : Accuracy}
    {em : ExtendedMantissa} (hfirst : shiftToTargetExponent Format.binary32 m e a = (em, e₁))
    (hsecond : shiftToTargetExponent Format.binary32 em.roundedMantissa e₁ .exact
      = (.ofMantissaAndAccuracy r .exact, e₂)) (hr : 0 < r) :
    roundWithAccuracy Format.binary32 s m e a = .finite s r e₂ hr := by
  rw [roundWithAccuracy]
  simp only [hfirst, hsecond]
  exact dif_neg hr.ne'

/-- Rounding a whole number to a single, whatever places it was given before. -/
theorem roundWithAccuracy_eq {n k : Nat} (hn : n ≠ 0) (h : 23 ≤ n.log2 + k) (hlarge : n.log2 < 64) :
    roundWithAccuracy Format.binary32 .positive (n * 2 ^ k) (-k) .exact = single n hn := by
  have hlog := log2_mul_two_pow hn k
  have ht : Format.binary32.targetExponent (totalExponent (n * 2 ^ k) (-k)) = n.log2 - 23 := by
    rw [targetExponent_eq] <;> rw [hlog] <;> omega
  have hs : ((n.log2 : Int) - 23 - -k).toNat = n.log2 + k - 23 := by omega
  have hfirst : shiftToTargetExponent Format.binary32 (n * 2 ^ k) (-k) .exact
      = (ExtendedMantissa.ofMantissaAndAccuracy (n * 2 ^ k) .exact >>> (n.log2 + k - 23),
          (n.log2 : Int) - 23) := by
    simp only [shiftToTargetExponent, shiftToExponent, ht, hs, Prod.mk.injEq, true_and]
    omega
  have hround : (ExtendedMantissa.ofMantissaAndAccuracy (n * 2 ^ k) .exact
      >>> (n.log2 + k - 23)).roundedMantissa = significand n := by
    rw [(Shifted.shift _ _).rounded, halfEven_significand h]
  obtain ⟨hlow, hhigh⟩ := significand_bounds hn
  rw [single]
  split
  · rename_i hlt
    have hnormal : Normal (significand n) ((n.log2 : Int) - 23) := ⟨hlow, hlt, by omega, by omega⟩
    exact roundWithAccuracy_of_shifts hfirst (by rw [hround, hnormal.shift]) _
  · have hcarry : significand n = 2 ^ 24 := by omega
    have hexponent : (n.log2 : Int) - 23 + 1 = n.log2 - 22 := by omega
    refine roundWithAccuracy_of_shifts hfirst ?_ _
    rw [hround, hcarry, shift_carry (by omega), hexponent]

theorem single_normal {n : Nat} (hn : n ≠ 0) (hlarge : n.log2 < 64) :
    ∃ m e, ∃ h : Normal m e, single n hn = .finite .positive m e h.pos := by
  obtain ⟨hlow, hhigh⟩ := significand_bounds hn
  rw [single]
  split
  · rename_i hlt
    exact ⟨_, _, ⟨hlow, hlt, by omega, by omega⟩, rfl⟩
  · exact ⟨_, _, ⟨by decide, by decide, by omega, by omega⟩, rfl⟩

/-! ### Whole numbers as singles -/

theorem unpack_pack_single {n : Nat} (hn : n ≠ 0) (hlarge : n.log2 < 64) :
    (Float32.Model.pack (single n hn)).unpack = single n hn := by
  obtain ⟨m, e, h, hsingle⟩ := single_normal hn hlarge
  rw [hsingle, h.unpack_pack]

theorem round_whole {n : Nat} (hn : n ≠ 0) (hsmall : n < 2 ^ 24) :
    UnpackedFloat.round Format.binary32 .positive n 0 = single n hn := by
  have hlog : n.log2 < 24 := (Nat.log2_lt hn).2 hsmall
  obtain ⟨k, hk⟩ : ∃ k, n.log2 + k = 23 := ⟨23 - n.log2, by omega⟩
  have ht : Format.binary32.targetExponent (totalExponent n 0) = -(k : Int) := by
    rw [targetExponent_eq] <;> omega
  have hdecrease : decreaseExponent n 0 (-(k : Int)) = (n * 2 ^ k, -(k : Int)) := by
    simp [decreaseExponent, Nat.shiftLeft_eq]
  rw [UnpackedFloat.round, ht]
  simp only [hdecrease]
  exact roundWithAccuracy_eq hn (by omega) (by omega)

theorem unpack_toFloat32 {n : Nat} (hn : n ≠ 0) (hsmall : n < 2 ^ 23) :
    n.toUInt64.toFloat32.toModel.unpack = single n hn := by
  have hnat : n.toUInt64.toNat = n := by simp; omega
  have hgt : compare (n : Int) 0 = .gt := Int.compare_eq_gt.2 (by omega)
  have hmodel : n.toUInt64.toFloat32.toModel = Float32.Model.pack (single n hn) := by
    change Float32.Model.pack
      (UnpackedFloat.normalize Format.binary32 (n.toUInt64.toNat : Int) 0 .positive) = _
    rw [hnat, UnpackedFloat.normalize, hgt]
    simp only [Int.toNat_natCast]
    rw [round_whole hn (by omega)]
  have hlog : n.log2 < 23 := (Nat.log2_lt hn).2 hsmall
  rw [hmodel, unpack_pack_single hn (by omega)]

theorem unpack_one : (Float32.exactlyRepresentablePowersOfTen[0]).toModel.unpack
    = .finite .positive (2 ^ 23) (-23) (by decide) := by rfl

/-- A single times one is the same single. -/
theorem mul_one_single {n : Nat} (hn : n ≠ 0) (hsmall : n < 2 ^ 23) :
    UnpackedFloat.mul Format.binary32 (single n hn) (.finite .positive (2 ^ 23) (-23) (by decide))
      = single n hn := by
  have hlog : n.log2 < 23 := (Nat.log2_lt hn).2 hsmall
  obtain ⟨k, hk⟩ : ∃ k, n.log2 + k = 23 := ⟨23 - n.log2, by omega⟩
  obtain ⟨hexact, hlt⟩ := significand_exact hk
  have hround := roundWithAccuracy_eq (k := k + 23) hn (by omega) (by omega)
  have hexponent : (n.log2 : Int) - 23 + -23 = -((k + 23 : Nat) : Int) := by omega
  rw [Nat.pow_add, ← Nat.mul_assoc, ← hexact, ← hexponent] at hround
  conv_lhs => rw [single, dif_pos hlt]
  exact hround

theorem unpack_ofNat {n : Nat} (hn : n ≠ 0) (hlarge : n.log2 < 64) :
    (Float32.ofNat n).toModel.unpack = single n hn := by
  change (Float32.ofScientific n false 0).toModel.unpack = _
  rw [Float32.ofScientific]
  split
  · rename_i h
    change (Float32.Model.pack (UnpackedFloat.mul Format.binary32
      n.toUInt64.toFloat32.toModel.unpack
      (Float32.exactlyRepresentablePowersOfTen[0]).toModel.unpack)).unpack = _
    rw [unpack_toFloat32 hn h.1, unpack_one, mul_one_single hn h.1, unpack_pack_single hn hlarge]
  · have hscientific : UnpackedFloat.ofScientific Format.binary32 n 0 = single n hn := by
      have hround := roundWithAccuracy_eq (k := 24) hn (by omega) hlarge
      have hnottiny : ¬ (0 : Int) < -(2 ^ 8 + (n.log2 : Int)) := by omega
      rw [UnpackedFloat.ofScientific, dif_neg hn, if_neg (by decide), if_neg hnottiny,
        if_pos (Int.le_refl 0)]
      rw [← hround, ← Nat.shiftLeft_eq, ← Nat.mul_one (n <<< 24)]
      rfl
    change (Float32.Model.pack (UnpackedFloat.ofScientific Format.binary32 n 0)).unpack = _
    rw [hscientific, unpack_pack_single hn hlarge]

end HeteroNet.Rounding
