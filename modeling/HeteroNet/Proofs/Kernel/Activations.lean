import HeteroNet.Element
import HeteroNet.Kind
import HeteroNet.Proofs.Storage.Quantized

/-
Activations on codes. Kernels bound words, and the word of a quantized element is its code, so what
is bounded is the code (`Activation.apply_ofCode`), and not the number it stands for. `activated` is
the code that bounding the number would leave. Where the scale is neither tiny nor huge, a code that
is not below the zero point is stored again as itself (`Ordinary.word_real`), since the errors of
the four roundings on the way stay far below a half; from this follows where the two agree.
-/

namespace HeteroNet

open Rounding

/-! ### Codes as words -/

namespace Word

open Float.Model UnpackedFloat

theorem lt_ofCode {a b : UInt8} : (ofCode a).lt (ofCode b) = true ↔ a < b := by
  have ha := a.toNat_lt
  have hb := b.toNat_lt
  rw [ofCode, ofCode, lt_ofNat (by omega) (by omega), UInt8.lt_iff_toNat_lt]

theorem isNaN_ofCode (c : UInt8) : (ofCode c).isNaN = false := by
  have hc := c.toNat_lt
  exact isNaN_of_lt ((lt_ofNat (b := 256) (by omega) (by omega)).2 hc)

theorem negInfinity_max_ofCode (c : UInt8) : negInfinity.max (ofCode c) = ofCode c := by
  have hc := c.toNat_lt
  have hlt : negInfinity.lt (ofCode c) = true := negInfinity_lt_ofNat (by omega)
  rw [max, isNaN_of_lt hlt, isNaN_ofCode, hlt]
  rfl

theorem max_ofCode (a b : UInt8) :
    (ofCode a).max (ofCode b) = ofCode (if a < b then b else a) := by
  rw [max, isNaN_ofCode, isNaN_ofCode]
  simp only [Bool.false_eq_true, if_false, lt_ofCode]
  split <;> rfl

variable {s : Sign} {w : Word} {x y : ℚ} {m n : Nat}

theorem unpack_zero : zero.toFloat.toModel.unpack = .zero .positive := by rfl

theorem eq_zero_of_toModel {f : Float32} (h : f.toModel = Float32.Model.pack (.zero .positive)) :
    ofFloat f = zero := by
  have hbits : f.toBits = (Float32.Model.pack (.zero .positive)).toBits :=
    congrArg Float32.Model.toBits h
  rw [ofFloat, hbits]
  rfl

theorem mul_eq_zero {a b : Word} (ha : a.toFloat.toModel.unpack = .zero .positive)
    (hb : b.Represents .positive y) : a.mul b = zero := by
  obtain ⟨m, e, h, hunpack, -⟩ := hb
  refine eq_zero_of_toModel ?_
  rw [← toFloat_ofFloat (a.toFloat * b.toFloat), ← mul, toModel_mul, ha, hunpack]
  rfl

theorem zero_div {b : Word} (hb : b.Represents .positive y) : zero.div b = zero := by
  obtain ⟨m, e, h, hunpack, -⟩ := hb
  refine eq_zero_of_toModel ?_
  rw [← toFloat_ofFloat (zero.toFloat / b.toFloat), ← div, toModel_div, unpack_zero, hunpack]
  rfl

theorem Represents.nearly {w' : Word} (h : w.Represents s x)
    (hw : w'.toFloat.toModel = Float32.Model.pack w.toFloat.toModel.unpack) : w'.Nearly s x := by
  obtain ⟨m, e, hnormal, hunpack, rfl⟩ := h
  exact nearly_of_near (hw.trans (by rw [hunpack])) (hnormal.near s)

theorem Represents.add_ofNat (h : w.Represents .positive x) (hn : n < 2 ^ 24)
    (hlow : 2 ^ (-126 : Int) ≤ x + n) (hhigh : x + n ≤ 2 ^ (126 : Int)) :
    (w.add (ofNat n)).Nearly .positive (x + n) := by
  rcases Nat.eq_zero_or_pos n with rfl | hpos
  · rw [Nat.cast_zero, add_zero]
    refine h.nearly ?_
    obtain ⟨m, e, hnormal, hunpack, -⟩ := h
    rw [toModel_add, unpack_ofNat_zero, hunpack]
    rfl
  · exact h.add (represents_ofNat hpos.ne' hn) hlow hhigh

theorem zero_add_ofNat (hn : n ≠ 0) (hsmall : n < 2 ^ 24) :
    (zero.add (ofNat n)).Nearly .positive n := by
  have h := represents_ofNat hn hsmall
  refine h.nearly ?_
  obtain ⟨m, e, hnormal, hunpack, -⟩ := h
  rw [toModel_add, unpack_zero, hunpack]
  rfl

theorem sub_ofNat (h : n < m) (hm : m < 2 ^ 24) :
    ((ofNat m).sub (ofNat n)).Nearly .positive (m - n : ℚ) ∧
    ((ofNat n).sub (ofNat m)).Nearly .negative (m - n : ℚ) := by
  have hmr := represents_ofNat (show m ≠ 0 by omega) hm
  rcases Nat.eq_zero_or_pos n with rfl | hpos
  · rw [Nat.cast_zero, sub_zero]
    obtain ⟨k, e, hnormal, hunpack, hvalue⟩ := hmr
    rw [← hvalue]
    constructor
    · refine nearly_of_near (toModel_sub _ _) ?_
      rw [unpack_ofNat_zero, hunpack]
      exact hnormal.near .positive
    · refine nearly_of_near (toModel_sub _ _) ?_
      rw [unpack_ofNat_zero, hunpack]
      exact hnormal.near .negative
  · have hle : (n + 1 : ℚ) ≤ m := by exact_mod_cast h
    have hmQ : (m : ℚ) ≤ 2 ^ 24 := by exact_mod_cast hm.le
    have hnQ : (0 : ℚ) ≤ n := Nat.cast_nonneg n
    refine hmr.sub (represents_ofNat hpos.ne' (by omega)) ?_ ?_
    · calc (2 : ℚ) ^ (-126 : Int) ≤ 1 := by norm_num
        _ ≤ m - n := by linarith
    · calc (m - n : ℚ) ≤ 2 ^ 24 := by linarith
        _ ≤ 2 ^ (126 : Int) := by norm_num

theorem sub_ofNat_self (hm : m < 2 ^ 24) :
    ((ofNat m).sub (ofNat m)).toFloat.toModel.unpack = .zero .positive := by
  rw [toModel_sub]
  rcases Nat.eq_zero_or_pos m with rfl | hpos
  · rw [unpack_ofNat_zero]
    rfl
  · obtain ⟨k, e, hnormal, hunpack, -⟩ := represents_ofNat hpos.ne' hm
    rw [hunpack, sub_same hnormal]
    rfl

/-! ### Activation of numbers -/

theorem Represents.relu_positive (h : w.Represents .positive x) : Activation.relu.apply w = w := by
  obtain ⟨m, e, hnormal, hunpack, -⟩ := h
  have hnan : w.isNaN = false := isNaN_of_unpack (by rw [hunpack]; exact nofun)
  have hlt : ¬ w.lt zero = true := by
    rw [lt_iff, hunpack, unpack_zero]
    exact nofun
  have hzero : zero.isNaN = false := by decide
  rw [Activation.apply, max, hnan, hzero, if_neg Bool.false_ne_true, if_neg Bool.false_ne_true,
    if_neg hlt]

theorem Represents.relu_negative (h : w.Represents .negative x) :
    Activation.relu.apply w = zero := by
  obtain ⟨m, e, hnormal, hunpack, -⟩ := h
  have hlt : w.lt zero = true := by
    rw [lt_iff, hunpack, unpack_zero]
    rfl
  rw [Activation.apply, max, if_pos hlt]
  split
  · rfl
  · split
    · contradiction
    · rfl

end Word

namespace Activation

open Word

/-- What an activation leaves of a code. -/
def bound : Activation → UInt8 → UInt8
  | none, c | relu, c => c
  | relu1, c => if 1 < c then 1 else c
  | relu6, c => if 6 < c then 6 else c

theorem not_lt_zero (c : UInt8) : ¬ c < 0 := by
  rw [UInt8.lt_iff_toNat_lt]
  exact Nat.not_lt_zero _

theorem apply_ofCode (act : Activation) (c : UInt8) :
    act.apply (ofCode c) = ofCode (act.bound c) := by
  have hc := c.toNat_lt
  have hzero : Word.zero = ofCode 0 := Word.zero_eq
  cases act with
  | none => rfl
  | relu => rw [apply, hzero, max_ofCode, if_neg (not_lt_zero c), bound]
  | relu1 =>
    have hone : Word.ofInt 1 = ofCode 1 := rfl
    rw [apply, clamp, hone, ofCode, ofNat_not_lt_neg_one (by omega), ← ofCode, bound]
    simp only [Bool.false_eq_true, if_false, lt_ofCode]
    split <;> rfl
  | relu6 =>
    have hsix : Word.ofInt 6 = ofCode 6 := rfl
    rw [apply, clamp, hsix, hzero, bound]
    simp only [lt_ofCode, not_lt_zero, if_false]
    split <;> rfl

end Activation

/-! ### Types of codes -/

namespace TypeInfo

open Word

/-- A quantized type whose scale is between `2^-100` and `2^100`, and whose zero point is a code. -/
structure Ordinary (t : TypeInfo) : Prop where
  element : t.element = .quant8
  tiny : 0x0d800000 ≤ t.scale.bits
  huge : t.scale.bits ≤ 0x71800000
  zeroPoint : 0 ≤ t.zeroPoint ∧ t.zeroPoint ≤ 255

/-- The scale as a number, and the zero point as a code. -/
structure Affine (t : TypeInfo) (r : ℚ) (n : Nat) : Prop where
  element : t.element = .quant8
  scale : t.scale.Represents .positive r
  low : 2 ^ (-100 : Int) ≤ r
  high : r ≤ 2 ^ (101 : Int)
  zeroPoint : t.zeroPoint = n
  code : n ≤ 255

variable {t : TypeInfo} {m n d : Nat} {w : Word} {y r : ℚ}

theorem Ordinary.affine (h : t.Ordinary) : ∃ r n, t.Affine r n := by
  obtain ⟨n, hn⟩ := Int.eq_ofNat_of_zero_le h.zeroPoint.1
  have hcode := h.zeroPoint.2
  have htiny := UInt32.le_iff_toNat_le.1 h.tiny
  have hhuge := UInt32.le_iff_toNat_le.1 h.huge
  change 0x0d800000 ≤ t.scale.bits.toNat at htiny
  change t.scale.bits.toNat ≤ 0x71800000 at hhuge
  have hsplit : t.scale.bits.toNat
      = t.scale.bits.toNat / 2 ^ 23 * 2 ^ 23 + t.scale.bits.toNat % 2 ^ 23 :=
    (Nat.div_add_mod' _ _).symm
  have hlow : 27 ≤ t.scale.bits.toNat / 2 ^ 23 := by omega
  have hhigh : t.scale.bits.toNat / 2 ^ 23 ≤ 227 := by omega
  have hf : t.scale.bits.toNat % 2 ^ 23 < 2 ^ 23 := Nat.mod_lt _ (by norm_num)
  generalize t.scale.bits.toNat / 2 ^ 23 = b at hsplit hlow hhigh
  generalize t.scale.bits.toNat % 2 ^ 23 = f at hsplit hf
  refine ⟨_, n, h.element, represents_of_bits hsplit hf (by omega) (by omega), ?_, ?_, hn,
    by omega⟩
  · calc (2 : ℚ) ^ (-100 : Int) ≤ 2 ^ ((23 : Nat) + (b - 150 : Int)) :=
          zpow_le_zpow_right₀ (by norm_num) (by omega)
      _ = value (2 ^ 23) (b - 150) := (value_two_pow 23 _).symm
      _ ≤ value (2 ^ 23 + f) (b - 150) := value_mono (by omega) _
  · calc value (2 ^ 23 + f) (b - 150) ≤ value (2 ^ 24) (b - 150) := value_mono (by omega) _
      _ = 2 ^ ((24 : Nat) + (b - 150 : Int)) := value_two_pow 24 _
      _ ≤ 2 ^ (101 : Int) := zpow_le_zpow_right₀ (by norm_num) (by omega)

namespace Affine

theorem real_eq (h : t.Affine r n) (w : Word) : t.real w = (w.sub (ofNat n)).mul t.scale := by
  simp only [TypeInfo.real, h.element, h.zeroPoint]
  rfl

/-- The number of a code, before rounding, is neither tiny nor huge. -/
theorem product_bounds {x : ℚ} (h : t.Affine r n) (hd : 1 ≤ d) (hcode : d ≤ 255)
    (hx : |x - d| ≤ x / 2 ^ 23) : 2 ^ (-126 : Int) ≤ x * r ∧ x * r ≤ 2 ^ (126 : Int) := by
  have hdQ : (1 : ℚ) ≤ d := by exact_mod_cast hd
  have hcodeQ : (d : ℚ) ≤ 255 := by exact_mod_cast hcode
  obtain ⟨hxl, hxr⟩ := abs_le.1 hx
  have hxlow : 1 / 2 ≤ x := by linarith
  have hxhigh : x ≤ 256 := by linarith
  constructor
  · calc (2 : ℚ) ^ (-126 : Int) ≤ 1 / 2 * 2 ^ (-100 : Int) := by norm_num
      _ ≤ x * r := mul_le_mul hxlow h.low (by positivity) (by linarith)
  · calc x * r ≤ 256 * 2 ^ (101 : Int) := mul_le_mul hxhigh h.high h.scale.pos.le (by norm_num)
      _ ≤ 2 ^ (126 : Int) := by norm_num

/-- Above the zero point, the number of a code is the scale times the difference, nearly. -/
theorem real_above (h : t.Affine r n) (hd : 1 ≤ d) (hcode : n + d ≤ 255) :
    ∃ y, (t.real (ofNat (n + d))).Represents .positive y ∧ |y / r - d| ≤ 1 / 2 ^ 10 := by
  have hr := h.scale.pos
  have hdiff : ((n + d : Nat) : ℚ) - n = d := by push_cast; ring
  have hcodeQ : (d : ℚ) ≤ 255 := by exact_mod_cast (show d ≤ 255 by omega)
  obtain ⟨⟨x, hx, hxe⟩, -⟩ := sub_ofNat (show n < n + d by omega) (by omega)
  rw [hdiff] at hxe
  obtain ⟨hplow, hphigh⟩ := h.product_bounds hd (by omega) hxe
  obtain ⟨y, hy, hye⟩ := hx.mul h.scale hplow hphigh
  refine ⟨y, by rw [h.real_eq]; exact hy, ?_⟩
  -- divided by the scale, the error is still relative
  have hquotient : |y / r - x| ≤ y / r / 2 ^ 23 := by
    have hsame : y / r - x = (y - x * r) / r := by field_simp
    rw [hsame, abs_div, abs_of_pos hr, div_right_comm]
    exact div_le_div_of_nonneg_right hye hr.le
  obtain ⟨hxl, hxr⟩ := abs_le.1 hxe
  obtain ⟨hql, hqr⟩ := abs_le.1 hquotient
  generalize y / r = q at hql hqr
  rw [abs_le]
  constructor <;> linarith

theorem real_zeroPoint (h : t.Affine r n) : t.real (ofNat n) = Word.zero := by
  have hcode := h.code
  rw [h.real_eq, mul_eq_zero (sub_ofNat_self (by omega)) h.scale]

theorem real_below (h : t.Affine r n) (hlt : m < n) :
    ∃ y, (t.real (ofNat m)).Represents .negative y := by
  have hcode := h.code
  obtain ⟨d, rfl⟩ := Nat.exists_eq_add_of_lt hlt
  have hdiff : ((m + d + 1 : Nat) : ℚ) - m = (d + 1 : Nat) := by push_cast; ring
  obtain ⟨-, ⟨x, hx, hxe⟩⟩ := sub_ofNat hlt (by omega)
  rw [hdiff] at hxe
  obtain ⟨hplow, hphigh⟩ := h.product_bounds (by omega) (by omega) hxe
  obtain ⟨y, hy, -⟩ := hx.mul h.scale hplow hphigh
  exact ⟨y, by rw [h.real_eq]; exact hy⟩

theorem word_eq (h : t.Affine r n) (w : Word) :
    t.word w = ((w.div t.scale).add (ofNat n)).roundToCode := by
  have hscale : t.scale.numEq Word.zero = false := by
    obtain ⟨k, e, hnormal, hunpack, -⟩ := h.scale
    rw [Bool.eq_false_iff, ne_eq, numEq_iff, hunpack, unpack_zero]
    exact nofun
  simp only [TypeInfo.word, h.element, hscale, h.zeroPoint]
  rfl

/-- A number is stored as the code that is nearly as far above the zero point. -/
theorem word_near (h : t.Affine r n) (hw : w.Represents .positive y) (hd : 1 ≤ d)
    (hcode : n + d ≤ 255) (hy : |y / r - d| ≤ 1 / 2 ^ 10) : t.word w = ofNat (n + d) := by
  have hdQ : (1 : ℚ) ≤ d := by exact_mod_cast hd
  have hcodeQ : (n + d : ℚ) ≤ 255 := by exact_mod_cast hcode
  have hnQ : (0 : ℚ) ≤ n := Nat.cast_nonneg n
  obtain ⟨hyl, hyr⟩ := abs_le.1 hy
  have hlarge : (256 : ℚ) ≤ 2 ^ (126 : Int) := by norm_num
  obtain ⟨q, hq, hqe⟩ := hw.div h.scale (by linarith) (le_trans (by linarith) hlarge)
  obtain ⟨hql, hqr⟩ := abs_le.1 hqe
  have htiny : (2 : ℚ) ^ (-126 : Int) ≤ 1 / 2 := by norm_num
  obtain ⟨v, hv, hve⟩ := hq.add_ofNat (show n < 2 ^ 24 by omega) (htiny.trans (by linarith))
    (le_trans (by linarith) hlarge)
  obtain ⟨hvl, hvr⟩ := abs_le.1 hve
  rw [h.word_eq]
  refine hv.roundToCode (by omega) hcode ?_
  push_cast
  rw [abs_le]
  constructor <;> linarith

theorem word_zero (h : t.Affine r n) : t.word Word.zero = ofNat n := by
  have hcode := h.code
  rw [h.word_eq, zero_div h.scale]
  rcases Nat.eq_zero_or_pos n with rfl | hpos
  · decide +kernel
  · obtain ⟨v, hv, hve⟩ := zero_add_ofNat hpos.ne' (show n < 2 ^ 24 by omega)
    have hcodeQ : (n : ℚ) ≤ 255 := by exact_mod_cast hcode
    obtain ⟨hvl, hvr⟩ := abs_le.1 hve
    refine hv.roundToCode hpos hcode ?_
    rw [abs_le]
    constructor <;> linarith

/-- The number of a code that is not below the zero point is stored as the code. -/
theorem word_real (h : t.Affine r n) (hcode : n + d ≤ 255) :
    t.word (t.real (ofNat (n + d))) = ofNat (n + d) := by
  rcases Nat.eq_zero_or_pos d with rfl | hpos
  · rw [Nat.add_zero, h.real_zeroPoint, h.word_zero]
  · obtain ⟨y, hy, hye⟩ := h.real_above hpos hcode
    exact h.word_near hy hpos hcode hye

theorem relu_above (h : t.Affine r n) (hcode : n + d ≤ 255) :
    Activation.relu.apply (t.real (ofNat (n + d))) = t.real (ofNat (n + d)) := by
  rcases Nat.eq_zero_or_pos d with rfl | hpos
  · rw [Nat.add_zero, h.real_zeroPoint]
    decide +kernel
  · obtain ⟨y, hy, -⟩ := h.real_above hpos hcode
    exact hy.relu_positive

theorem relu_below (h : t.Affine r n) (hlt : m < n) :
    Activation.relu.apply (t.real (ofNat m)) = Word.zero := by
  obtain ⟨y, hy⟩ := h.real_below hlt
  exact hy.relu_negative

end Affine

theorem Ordinary.word_real (h : t.Ordinary) {c : UInt8} (hc : t.zeroPoint ≤ c.toNat) :
    t.word (t.real (ofCode c)) = ofCode c := by
  obtain ⟨r, n, h⟩ := h.affine
  have hlt := c.toNat_lt
  rw [h.zeroPoint] at hc
  obtain ⟨d, hd⟩ := Nat.exists_eq_add_of_le (Int.ofNat_le.1 hc)
  rw [ofCode, hd]
  exact h.word_real (by omega)

/-- The word of the number that an activation leaves of the number of a code. -/
def activated (t : TypeInfo) (act : Activation) (c : UInt8) : Word :=
  t.word (act.apply (t.real (ofCode c)))

/-- The activation changes neither the code nor its number. -/
structure Unbounded (t : TypeInfo) (act : Activation) (c : UInt8) : Prop where
  ordinary : t.Ordinary
  zeroPoint : t.zeroPoint ≤ c.toNat
  code : act.bound c = c
  real : act.apply (t.real (ofCode c)) = t.real (ofCode c)

theorem Unbounded.activated {t : TypeInfo} {act : Activation} {c : UInt8}
    (h : t.Unbounded act c) : t.activated act c = ofCode c := by
  rw [TypeInfo.activated, h.real, h.ordinary.word_real h.zeroPoint]

/-- `relu` makes codes below the zero point the zero point, and leaves the others. -/
theorem Ordinary.activated_relu (h : t.Ordinary) {c : UInt8} :
    t.activated .relu c = ofCode c ↔ t.zeroPoint ≤ c.toNat := by
  obtain ⟨r, n, h⟩ := h.affine
  have hcode := h.code
  have hlt := c.toNat_lt
  rw [activated, h.zeroPoint, Int.ofNat_le, ofCode]
  rcases Nat.lt_or_ge c.toNat n with hbelow | habove
  · rw [h.relu_below hbelow, h.word_zero]
    refine iff_of_false (fun heq => ?_) hbelow.not_ge
    have hless := (lt_ofNat (show c.toNat < 2 ^ 24 by omega) (by omega)).2 hbelow
    rw [heq, lt_ofNat (by omega) (by omega)] at hless
    exact Nat.lt_irrefl _ hless
  · obtain ⟨d, hd⟩ := Nat.exists_eq_add_of_le habove
    rw [hd, h.relu_above (by omega)]
    exact iff_of_true (h.word_real (by omega)) (Nat.le_add_right n d)

/-- Codes stand for themselves if the scale is one and the zero point zero. -/
structure Plain (t : TypeInfo) : Prop where
  element : t.element = .quant8
  scale : t.scale = ⟨0x3f800000⟩
  zeroPoint : t.zeroPoint = 0

theorem Plain.ordinary {t : TypeInfo} (h : t.Plain) : t.Ordinary where
  element := h.element
  tiny := by rw [h.scale]; decide
  huge := by rw [h.scale]; decide
  zeroPoint := by rw [h.zeroPoint]; decide

theorem Plain.real {t : TypeInfo} (h : t.Plain) (c : UInt8) : t.real (ofCode c) = ofCode c := by
  obtain ⟨r, n, haffine⟩ := h.ordinary.affine
  obtain rfl : n = 0 := Int.ofNat_inj.1 (haffine.zeroPoint.symm.trans h.zeroPoint)
  have hc := c.toNat_lt
  rw [ofCode]
  rcases Nat.eq_zero_or_pos c.toNat with hzero | hpos
  · rw [hzero, haffine.real_zeroPoint, Word.zero_eq]
  · refine (represents_ofNat hpos.ne' (by omega)).eq_of_unpack ?_
    have hlog : c.toNat.log2 < 64 := (Nat.log2_lt hpos.ne').2 (by omega)
    have hsingle : (ofNat c.toNat).toFloat.toModel.unpack = single c.toNat hpos.ne' := by
      rw [toFloat_ofNat, unpack_ofNat hpos.ne' hlog]
    have hsub : ((ofNat c.toNat).sub (ofNat 0)).toFloat.toModel.unpack
        = single c.toNat hpos.ne' := by
      obtain ⟨m, e, hnormal, hfinite⟩ := single_normal hpos.ne' hlog
      rw [toModel_sub, hsingle, unpack_ofNat_zero, hfinite]
      exact hnormal.unpack_pack .positive
    have hone : t.scale.toFloat.toModel.unpack = .finite .positive (2 ^ 23) (-23) (by decide) := by
      rw [h.scale]
      rfl
    rw [haffine.real_eq, toModel_mul, hsub, hone, mul_one_single hpos.ne' (by omega), hsingle,
      unpack_pack_single hpos.ne' hlog]

/-- Bounding a number that is its own code is bounding the code. -/
theorem Plain.activated {t : TypeInfo} (h : t.Plain) (act : Activation) (c : UInt8) :
    t.activated act c = ofCode (act.bound c) := by
  have hb : t.zeroPoint ≤ (act.bound c).toNat := by
    rw [h.zeroPoint]
    exact Int.natCast_nonneg _
  have hword := h.ordinary.word_real hb
  rw [h.real] at hword
  rw [TypeInfo.activated, h.real, act.apply_ofCode, hword]

end TypeInfo

end HeteroNet
