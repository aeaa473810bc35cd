import HeteroNet.Proofs.Storage.Wholes

/-
How far arithmetic is from the exact result. A number between `2^-126` and `2^126` is rounded to a
single of full length, which differs from it by one part in `2^23` at most (`Near`). That needs
nothing but the length of the mantissa that is rounded and the place of the number behind it
(`roundWithAccuracy_near`); products, quotients, sums and differences each give such a mantissa. In
terms of words, `Represents` says which number a word is and `Nearly` which one it is close to.
-/

namespace HeteroNet

namespace Rounding

open Float.Model UnpackedFloat

/-- The number that a mantissa and an exponent stand for. -/
def value (m : Nat) (e : Int) : ℚ := m * 2 ^ e

theorem value_mul_two_pow (m s : Nat) (e : Int) : value (m * 2 ^ s) e = value m (e + s) := by
  rw [value, value, zpow_add₀ (by norm_num), zpow_natCast]
  push_cast
  ring

theorem value_mono {m n : Nat} (h : m ≤ n) (e : Int) : value m e ≤ value n e := by
  have hcast : (m : ℚ) ≤ n := by exact_mod_cast h
  exact mul_le_mul_of_nonneg_right hcast (by positivity)

theorem value_pos {m : Nat} (h : 0 < m) (e : Int) : 0 < value m e := by
  have : (0 : ℚ) < m := by exact_mod_cast h
  exact mul_pos this (by positivity)

theorem value_two_pow (k : Nat) (e : Int) : value (2 ^ k) e = 2 ^ (k + e : Int) := by
  rw [value, zpow_add₀ (by norm_num), zpow_natCast]
  push_cast
  ring

theorem value_succ (m : Nat) (e : Int) : value (m + 1) e = value m e + 2 ^ e := by
  rw [value, value]
  push_cast
  ring

theorem value_lt_succ (m : Nat) (e : Int) : value m e < value (m + 1) e := by
  rw [value_succ]
  exact lt_add_of_pos_right _ (by positivity)

/-- A single of full length whose number differs from `x` by one part in `2^23` at most. -/
def Near (s : Sign) (u : UnpackedFloat) (x : ℚ) : Prop :=
  ∃ m e, ∃ h : Normal m e, u = .finite s m e h.pos ∧ |value m e - x| ≤ value m e / 2 ^ 23

/-- What is not rounded is near enough. -/
theorem Normal.near {m : Nat} {e : Int} (h : Normal m e) (s : Sign) :
    Near s (.finite s m e h.pos) (value m e) := by
  refine ⟨m, e, h, rfl, ?_⟩
  have hpos := value_pos h.pos e
  rw [sub_self, abs_zero]
  positivity

theorem shift_mantissa (m : Nat) (a : Accuracy) : ∀ s : Nat,
    (ExtendedMantissa.ofMantissaAndAccuracy m a >>> s).mantissa = m / 2 ^ s
  | 0 => by
    rw [Nat.pow_zero, Nat.div_one]
    cases a with
    | exact => rfl
    | inexact o => cases o <;> rfl
  | s + 1 => by
    change (ExtendedMantissa.ofMantissaAndAccuracy m a >>> s).shiftRightOne.mantissa = _
    rw [ExtendedMantissa.shiftRightOne, shift_mantissa m a s, Nat.div_div_eq_div_mul, Nat.pow_succ]

theorem roundedMantissa_bounds (em : ExtendedMantissa) :
    em.mantissa ≤ em.roundedMantissa ∧ em.roundedMantissa ≤ em.mantissa + 1 := by
  obtain ⟨m, r, t⟩ := em
  cases r <;> cases t <;>
    simp only [ExtendedMantissa.roundedMantissa, ExtendedMantissa.accuracy,
      Accuracy.roundToNearestEven] <;> omega

/-- Where the leading bit of a number is that is not tiny. -/
theorem le_log2_add {m : Nat} {e : Int} {x : ℚ} (hceil : x < value (m + 1) e)
    (hlow : 2 ^ (-126 : Int) ≤ x) : -126 ≤ (m.log2 : Int) + e := by
  have hself : m < 2 ^ (m.log2 + 1) := Nat.lt_log2_self
  have hlt : (2 : ℚ) ^ (-126 : Int) < 2 ^ (((m.log2 + 1 : Nat) : Int) + e) := by
    rw [← value_two_pow]
    exact hlow.trans_lt (hceil.trans_le (value_mono hself e))
  have := (zpow_lt_zpow_iff_right₀ (by norm_num)).1 hlt
  omega

/-- The bits that are kept of a mantissa that is too long. -/
theorem kept_bounds {m d : Nat} (hm : m ≠ 0) (hd : m.log2 = 23 + d) :
    2 ^ 23 ≤ m / 2 ^ d ∧ m / 2 ^ d < 2 ^ 24 := by
  have hself : m < 2 ^ (m.log2 + 1) := Nat.lt_log2_self
  constructor
  · rw [Nat.le_div_iff_mul_le (by positivity), ← Nat.pow_add, ← hd]
    exact Nat.log2_self_le hm
  · rw [Nat.div_lt_iff_lt_mul (by positivity), ← Nat.pow_add]
    exact hself.trans_le (Nat.pow_le_pow_right (by norm_num) (by omega))

/-- The number still lies between what is kept and one unit more. -/
theorem value_kept (m d : Nat) (e : Int) : value (m / 2 ^ d) (e + d) ≤ value m e ∧
    value (m + 1) e ≤ value (m / 2 ^ d + 1) (e + d) := by
  rw [← value_mul_two_pow, ← value_mul_two_pow]
  exact ⟨value_mono (Nat.div_mul_le_self m _) e,
    value_mono (Nat.lt_mul_of_div_lt (Nat.lt_succ_self _) (by positivity)) e⟩

/-- One unit in the last place is one part in `2^23`. -/
theorem error_le {k r : Nat} {e : Int} {x : ℚ} (hk : 2 ^ 23 ≤ k) (hfloor : value k e ≤ x)
    (hceil : x < value (k + 1) e) (hlow : k ≤ r) (hhigh : r ≤ k + 1) :
    |value r e - x| ≤ value r e / 2 ^ 23 := by
  have hunit : (2 : ℚ) ^ e ≤ value r e / 2 ^ 23 := by
    rw [le_div_iff₀ (by positivity), value, mul_comm]
    have : (2 ^ 23 : ℚ) ≤ r := by exact_mod_cast hk.trans hlow
    exact mul_le_mul_of_nonneg_right this (by positivity)
  have hle := value_mono hlow e
  have hge := value_mono hhigh e
  rw [value_succ] at hge hceil
  rw [abs_le]
  constructor <;> linarith

/-- Rounding a mantissa with bits enough moves the number by one unit of the last place at most,
whatever is known of what lies behind the mantissa. -/
theorem roundWithAccuracy_near {s : Sign} {m : Nat} {e : Int} {a : Accuracy} {x : ℚ}
    (hm : 2 ^ 23 ≤ m) (hfloor : value m e ≤ x) (hceil : x < value (m + 1) e)
    (hlow : 2 ^ (-126 : Int) ≤ x) (hhigh : x ≤ 2 ^ (126 : Int)) :
    Near s (roundWithAccuracy Format.binary32 s m e a) x := by
  have hne : m ≠ 0 := by omega
  obtain ⟨d, hd⟩ := Nat.exists_eq_add_of_le ((Nat.le_log2 hne).2 hm)
  have hexponent := le_log2_add hceil hlow
  have htarget : Format.binary32.targetExponent (totalExponent m e) = e + d := by
    rw [targetExponent_eq] <;> omega
  have hshift : (e + d - e : Int).toNat = d := by omega
  have hfirst : shiftToTargetExponent Format.binary32 m e a
      = (ExtendedMantissa.ofMantissaAndAccuracy m a >>> d, e + d) := by
    simp only [shiftToTargetExponent, shiftToExponent, htarget, hshift]
  obtain ⟨hkeptLow, hkeptHigh⟩ := kept_bounds hne hd
  have hbelow := (value_kept m d e).1.trans hfloor
  have habove := hceil.trans_le (value_kept m d e).2
  have hlarge : e + d ≤ 103 := by
    have hle : (2 : ℚ) ^ ((23 : Nat) + (e + d) : Int) ≤ 2 ^ (126 : Int) := by
      rw [← value_two_pow]
      exact (value_mono hkeptLow _).trans (hbelow.trans hhigh)
    have := (zpow_le_zpow_iff_right₀ (by norm_num)).1 hle
    omega
  obtain ⟨hroundLow, hroundHigh⟩ :=
    roundedMantissa_bounds (ExtendedMantissa.ofMantissaAndAccuracy m a >>> d)
  rw [shift_mantissa] at hroundLow hroundHigh
  generalize hr : (ExtendedMantissa.ofMantissaAndAccuracy m a >>> d).roundedMantissa = r
    at hroundLow hroundHigh
  have herror := error_le hkeptLow hbelow habove hroundLow hroundHigh
  rcases Nat.lt_or_ge r (2 ^ 24) with hsmall | hcarry
  · have hnormal : Normal r (e + d) := ⟨hkeptLow.trans hroundLow, hsmall, by omega, by omega⟩
    exact ⟨r, e + d, hnormal,
      roundWithAccuracy_of_shifts hfirst (by rw [hr, hnormal.shift]) _, herror⟩
  · obtain rfl : r = 2 ^ 24 := by omega
    have hnormal : Normal (2 ^ 23) (e + d + 1) := ⟨by norm_num, by norm_num, by omega, by omega⟩
    have hvalue : value (2 ^ 23) (e + d + 1) = value (2 ^ 24) (e + d) := by
      rw [value_two_pow, value_two_pow]
      congr 1
      push_cast
      ring
    refine ⟨2 ^ 23, e + d + 1, hnormal, ?_, hvalue ▸ herror⟩
    exact roundWithAccuracy_of_shifts hfirst (by rw [hr, shift_carry (by omega)]) _

/-- Rounding a number that is given exactly, by a mantissa of any length. -/
theorem round_near {s : Sign} {m : Nat} {e : Int} (hm : 0 < m)
    (hlow : 2 ^ (-126 : Int) ≤ value m e) (hhigh : value m e ≤ 2 ^ (126 : Int)) :
    Near s (UnpackedFloat.round Format.binary32 s m e) (value m e) := by
  have hexponent := le_log2_add (value_lt_succ m e) hlow
  have htarget : Format.binary32.targetExponent (totalExponent m e) = m.log2 + e - 23 :=
    targetExponent_eq (by omega)
  have hshift : (e - (m.log2 + e - 23) : Int).toNat = 23 - m.log2 := by omega
  simp only [UnpackedFloat.round, htarget, decreaseExponent, hshift, Nat.shiftLeft_eq]
  generalize hk : 23 - m.log2 = k
  have hvalue : value (m * 2 ^ k) (e - k) = value m e := by
    rw [value_mul_two_pow]
    congr 1
    omega
  have hbits : 2 ^ 23 ≤ m * 2 ^ k := by
    calc 2 ^ 23 ≤ 2 ^ (m.log2 + k) := Nat.pow_le_pow_right (by norm_num) (by omega)
      _ = 2 ^ m.log2 * 2 ^ k := Nat.pow_add ..
      _ ≤ m * 2 ^ k := Nat.mul_le_mul_right _ (Nat.log2_self_le hm.ne')
  rw [← hvalue] at hlow hhigh ⊢
  exact roundWithAccuracy_near hbits le_rfl (value_lt_succ ..) hlow hhigh

/-- Moving the point keeps the number. -/
theorem value_decreaseExponent {m : Nat} {e t : Int} (h : t ≤ e) :
    value (decreaseExponent m e t).1 t = value m e := by
  rw [decreaseExponent, Nat.shiftLeft_eq, value_mul_two_pow]
  congr 1
  omega

/-! ### Arithmetic -/

variable {s t : Sign} {m n : Nat} {d e : Int}

theorem mul_near (hm : Normal m d) (hn : Normal n e)
    (hlow : 2 ^ (-126 : Int) ≤ value m d * value n e)
    (hhigh : value m d * value n e ≤ 2 ^ (126 : Int)) :
    Near (s * t) (UnpackedFloat.mul Format.binary32 (.finite s m d hm.pos) (.finite t n e hn.pos))
      (value m d * value n e) := by
  have hvalue : value m d * value n e = value (m * n) (d + e) := by
    rw [value, value, value, zpow_add₀ (by norm_num)]
    push_cast
    ring
  rw [hvalue] at hlow hhigh ⊢
  have hbits : 2 ^ 23 ≤ m * n := hm.low.trans (Nat.le_mul_of_pos_right m hn.pos)
  exact roundWithAccuracy_near hbits le_rfl (value_lt_succ ..) hlow hhigh

/-- Mantissas of the same length differ by less than a factor of two. -/
theorem exponent_lt_of_quotient (hm : Normal m d) (hn : Normal n e)
    (hlow : 1 / 2 ≤ value m d / value n e) : -2 < d - e := by
  have hnpos : (0 : ℚ) < n := by exact_mod_cast hn.pos
  have hratio : (m : ℚ) / n < 2 := by
    rw [div_lt_iff₀ hnpos]
    have hm' : (m : ℚ) < 2 ^ 24 := by exact_mod_cast hm.high
    have hn' : (2 ^ 23 : ℚ) ≤ n := by exact_mod_cast hn.low
    linarith
  have hsplit : value m d / value n e = m / n * 2 ^ (d - e : Int) := by
    rw [value, value, zpow_sub₀ (by norm_num)]
    field_simp
  have hlt : (2 : ℚ) ^ (-1 : Int) < 2 ^ (d - e + 1 : Int) := by
    rw [hsplit] at hlow
    rw [zpow_add₀ (by norm_num), zpow_one, zpow_neg_one]
    have hscaled := mul_lt_mul_of_pos_right hratio (show (0 : ℚ) < 2 ^ (d - e : Int) by positivity)
    linarith
  have := (zpow_lt_zpow_iff_right₀ (by norm_num)).1 hlt
  omega

theorem div_near (hm : Normal m d) (hn : Normal n e) (hlow : 1 / 2 ≤ value m d / value n e)
    (hhigh : value m d / value n e ≤ 2 ^ (126 : Int)) :
    Near (s / t) (UnpackedFloat.div Format.binary32 (.finite s m d hm.pos) (.finite t n e hn.pos))
      (value m d / value n e) := by
  have hnpos : (0 : ℚ) < n := by exact_mod_cast hn.pos
  have hquotient : value m d / value n e = (m * 2 ^ 24 : Nat) / n * 2 ^ (d - e - 24 : Int) := by
    rw [value, value, zpow_sub₀ (by norm_num), zpow_sub₀ (by norm_num)]
    push_cast
    field_simp
  have hexponent := exponent_lt_of_quotient hm hn hlow
  have htarget : min (d - e) (Format.binary32.targetExponent
      (totalExponent m d - totalExponent n e)) = d - e - 24 := by
    rw [totalExponent, totalExponent, hm.log2, hn.log2]
    change min (d - e) (max (_ - (1 + 23)) (-149)) = _
    omega
  have hshift : (d - e - (d - e - 24) : Int).toNat = 24 := by omega
  have hdiv : UnpackedFloat.div Format.binary32 (.finite s m d hm.pos) (.finite t n e hn.pos)
      = roundWithAccuracy Format.binary32 (s / t) (m * 2 ^ 24 / n) (d - e - 24)
        (accuracyOfFraction (m * 2 ^ 24 % n) n) := by
    simp only [UnpackedFloat.div, divCore, htarget, hshift, Nat.shiftLeft_eq]
  rw [hdiv]
  have hlt := hn.high
  have hge := hm.low
  refine roundWithAccuracy_near ?_ ?_ ?_ (le_trans ?_ hlow) hhigh
  · rw [Nat.le_div_iff_mul_le hn.pos]
    nlinarith
  · rw [hquotient]
    exact mul_le_mul_of_nonneg_right Nat.cast_div_le (by positivity)
  · rw [hquotient]
    refine mul_lt_mul_of_pos_right ?_ (by positivity)
    rw [div_lt_iff₀ hnpos]
    exact_mod_cast Nat.lt_mul_of_div_lt (Nat.lt_succ_self _) hn.pos
  · norm_num

/-- A sum or a difference is rounded from an exact mantissa. -/
theorem normalize_near {m : Nat} {z : Sign}
    (hlow : 2 ^ (-126 : Int) ≤ value m e) (hhigh : value m e ≤ 2 ^ (126 : Int)) :
    Near .positive (UnpackedFloat.normalize Format.binary32 m e z) (value m e) ∧
    Near .negative (UnpackedFloat.normalize Format.binary32 (-m) e z) (value m e) := by
  have hpos : 0 < m := by
    rcases Nat.eq_zero_or_pos m with rfl | hpos
    · norm_num [value] at hlow
    · exact hpos
  have hgt : compare (m : Int) 0 = .gt := Int.compare_eq_gt.2 (by omega)
  have hlt : compare (-m : Int) 0 = .lt := Int.compare_eq_lt.2 (by omega)
  rw [UnpackedFloat.normalize, UnpackedFloat.normalize, hgt, hlt, Int.neg_neg]
  exact ⟨round_near hpos hlow hhigh, round_near hpos hlow hhigh⟩

theorem add_near (hm : Normal m d) (hn : Normal n e)
    (hlow : 2 ^ (-126 : Int) ≤ value m d + value n e)
    (hhigh : value m d + value n e ≤ 2 ^ (126 : Int)) :
    Near .positive (UnpackedFloat.add Format.binary32 (.finite .positive m d hm.pos)
      (.finite .positive n e hn.pos)) (value m d + value n e) := by
  have hm' := value_decreaseExponent (m := m) (Int.min_le_left d e)
  have hn' := value_decreaseExponent (m := n) (Int.min_le_right d e)
  simp only [UnpackedFloat.add, Sign.apply]
  generalize (decreaseExponent m d (min d e)).1 = a at hm'
  generalize (decreaseExponent n e (min d e)).1 = b at hn'
  have hvalue : value m d + value n e = value (a + b) (min d e) := by
    rw [← hm', ← hn', value, value, value]
    push_cast
    ring
  rw [hvalue] at hlow hhigh ⊢
  exact (normalize_near hlow hhigh).1

/-- The difference of two numbers, and the difference the other way. -/
theorem sub_near (hm : Normal m d) (hn : Normal n e)
    (hlow : 2 ^ (-126 : Int) ≤ value m d - value n e)
    (hhigh : value m d - value n e ≤ 2 ^ (126 : Int)) :
    Near .positive (UnpackedFloat.sub Format.binary32 (.finite .positive m d hm.pos)
      (.finite .positive n e hn.pos)) (value m d - value n e) ∧
    Near .negative (UnpackedFloat.sub Format.binary32 (.finite .positive n e hn.pos)
      (.finite .positive m d hm.pos)) (value m d - value n e) := by
  have hm' := value_decreaseExponent (m := m) (Int.min_le_left d e)
  have hn' := value_decreaseExponent (m := n) (Int.min_le_right d e)
  simp only [UnpackedFloat.sub, Sign.apply, Int.min_comm e d]
  generalize (decreaseExponent m d (min d e)).1 = a at hm'
  generalize (decreaseExponent n e (min d e)).1 = b at hn'
  have hle : b ≤ a := by
    by_contra hlt
    have := value_mono (Nat.le_of_not_le hlt) (min d e)
    have hpos : (0 : ℚ) < 2 ^ (-126 : Int) := by positivity
    linarith
  have hvalue : value m d - value n e = value (a - b) (min d e) := by
    rw [← hm', ← hn', value, value, value, Nat.cast_sub hle]
    ring
  have hforward : (a : Int) - b = (a - b : Nat) := by omega
  have hback : (b : Int) - a = -(a - b : Nat) := by omega
  rw [hvalue] at hlow hhigh ⊢
  rw [hforward, hback]
  exact ⟨(normalize_near hlow hhigh).1, (normalize_near hlow hhigh).2⟩

theorem sub_same (hm : Normal m d) : UnpackedFloat.sub Format.binary32
    (.finite .positive m d hm.pos) (.finite .positive m d hm.pos) = .zero .positive := by
  simp only [UnpackedFloat.sub, Sign.apply, Int.sub_self]
  rfl

end Rounding

/-! ### Words -/

namespace Word

open Float.Model UnpackedFloat Rounding

/-- The word is a single of full length, with this sign and this absolute value. -/
def Represents (s : Sign) (w : Word) (x : ℚ) : Prop :=
  ∃ m e, ∃ h : Normal m e, w.toFloat.toModel.unpack = .finite s m e h.pos ∧ value m e = x

/-- The same up to one part in `2^23`. -/
def Nearly (s : Sign) (w : Word) (x : ℚ) : Prop :=
  ∃ y, w.Represents s y ∧ |y - x| ≤ y / 2 ^ 23

variable {s t : Sign} {a b w : Word} {x y : ℚ} {n : Nat}

theorem toFloat_ofFloat (f : Float32) : (ofFloat f).toFloat = f := Float32.ofBits_toBits f

theorem Represents.pos (h : w.Represents s x) : 0 < x := by
  obtain ⟨m, e, hnormal, -, rfl⟩ := h
  exact value_pos hnormal.pos e

theorem represents_ofNat (hn : n ≠ 0) (hsmall : n < 2 ^ 24) :
    (ofNat n).Represents .positive n := by
  obtain ⟨k, hk, hpos, hunpack⟩ := unpack_ofNat_exact hn hsmall
  have hnormal : Normal (n * 2 ^ k) (-k) := by
    have hlog := log2_mul_two_pow hn k
    have hlow := Nat.log2_self_le hpos.ne'
    have hhigh : n * 2 ^ k < 2 ^ ((n * 2 ^ k).log2 + 1) := Nat.lt_log2_self
    rw [hlog, hk] at hlow hhigh
    exact ⟨hlow, hhigh, by omega, by omega⟩
  refine ⟨_, _, hnormal, hunpack, ?_⟩
  rw [value_mul_two_pow, value]
  simp

/-- What arithmetic leaves is packed, and numbers of full length are not changed by that. -/
theorem nearly_of_near {u : UnpackedFloat} (hw : w.toFloat.toModel = Float32.Model.pack u)
    (h : Near s u x) : w.Nearly s x := by
  obtain ⟨m, e, hnormal, rfl, herror⟩ := h
  exact ⟨value m e, ⟨m, e, hnormal, by rw [hw, hnormal.unpack_pack], rfl⟩, herror⟩

theorem toModel_mul (a b : Word) : (a.mul b).toFloat.toModel = Float32.Model.pack
    (UnpackedFloat.mul Format.binary32 a.toFloat.toModel.unpack b.toFloat.toModel.unpack) := by
  rw [mul, toFloat_ofFloat]
  rfl

theorem toModel_div (a b : Word) : (a.div b).toFloat.toModel = Float32.Model.pack
    (UnpackedFloat.div Format.binary32 a.toFloat.toModel.unpack b.toFloat.toModel.unpack) := by
  rw [div, toFloat_ofFloat]
  rfl

theorem toModel_add (a b : Word) : (a.add b).toFloat.toModel = Float32.Model.pack
    (UnpackedFloat.add Format.binary32 a.toFloat.toModel.unpack b.toFloat.toModel.unpack) := by
  rw [add, toFloat_ofFloat]
  rfl

theorem toModel_sub (a b : Word) : (a.sub b).toFloat.toModel = Float32.Model.pack
    (UnpackedFloat.sub Format.binary32 a.toFloat.toModel.unpack b.toFloat.toModel.unpack) := by
  rw [sub, toFloat_ofFloat]
  rfl

theorem Represents.mul (ha : a.Represents s x) (hb : b.Represents t y)
    (hlow : 2 ^ (-126 : Int) ≤ x * y) (hhigh : x * y ≤ 2 ^ (126 : Int)) :
    (a.mul b).Nearly (s * t) (x * y) := by
  obtain ⟨m, d, hm, hunpack, rfl⟩ := ha
  obtain ⟨n, e, hn, hunpack', rfl⟩ := hb
  refine nearly_of_near (toModel_mul a b) ?_
  rw [hunpack, hunpack']
  exact mul_near hm hn hlow hhigh

theorem Represents.div (ha : a.Represents s x) (hb : b.Represents t y) (hlow : 1 / 2 ≤ x / y)
    (hhigh : x / y ≤ 2 ^ (126 : Int)) : (a.div b).Nearly (s / t) (x / y) := by
  obtain ⟨m, d, hm, hunpack, rfl⟩ := ha
  obtain ⟨n, e, hn, hunpack', rfl⟩ := hb
  refine nearly_of_near (toModel_div a b) ?_
  rw [hunpack, hunpack']
  exact div_near hm hn hlow hhigh

theorem Represents.add (ha : a.Represents .positive x) (hb : b.Represents .positive y)
    (hlow : 2 ^ (-126 : Int) ≤ x + y) (hhigh : x + y ≤ 2 ^ (126 : Int)) :
    (a.add b).Nearly .positive (x + y) := by
  obtain ⟨m, d, hm, hunpack, rfl⟩ := ha
  obtain ⟨n, e, hn, hunpack', rfl⟩ := hb
  refine nearly_of_near (toModel_add a b) ?_
  rw [hunpack, hunpack']
  exact add_near hm hn hlow hhigh

theorem Represents.sub (ha : a.Represents .positive x) (hb : b.Represents .positive y)
    (hlow : 2 ^ (-126 : Int) ≤ x - y) (hhigh : x - y ≤ 2 ^ (126 : Int)) :
    (a.sub b).Nearly .positive (x - y) ∧ (b.sub a).Nearly .negative (x - y) := by
  obtain ⟨m, d, hm, hunpack, rfl⟩ := ha
  obtain ⟨n, e, hn, hunpack', rfl⟩ := hb
  have h := sub_near hm hn hlow hhigh
  rw [← hunpack, ← hunpack'] at h
  exact ⟨nearly_of_near (toModel_sub a b) h.1, nearly_of_near (toModel_sub b a) h.2⟩

end Word

end HeteroNet
