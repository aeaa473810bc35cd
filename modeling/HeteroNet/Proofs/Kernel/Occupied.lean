import HeteroNet.Geometry
import HeteroNet.Proofs.Call
import HeteroNet.Proofs.Kernel.Padding
import HeteroNet.Proofs.Kernel.Windows
import HeteroNet.Proofs.Lists

/-
What windows cover when a geometry could be worked out. Each place starts before the end of the
input, and the padding that leads is less than a window, so some tap falls on the input. Pooling
therefore never reduces an empty window. Without padding all taps fall on it, and there is no room
for one more window.
-/

namespace HeteroNet

/-! ## Along one axis -/

/-- How the windows at `output` places lie along one axis of extent `input`. -/
structure PaddingRule.Lies (rule : PaddingRule) (input output window stride pad : Nat) : Prop where
  occupied : ∀ place < output, ∃ tap < window, ∃ x,
    inputCoord? place stride tap pad input = some x
  inside : rule = .valid → ∀ place < output, ∀ tap < window,
    (inputCoord? place stride tap pad input).isSome
  /-- A window at the next place ends after the input. -/
  full : rule = .valid → input < output * stride + window

namespace PaddingRule

variable {input output window stride : Nat}

theorem outputExtent?_pos {rule : PaddingRule}
    (h : rule.outputExtent? input window stride = some output) : 0 < window ∧ 0 < stride := by
  unfold outputExtent? at h
  split at h
  · cases h
  · omega

/-- There are no places on an axis of no extent. -/
theorem input_pos {rule : PaddingRule} (h : rule.outputExtent? input window stride = some output)
    (hstride : stride ≤ Size.half) (hout : 0 < output) : 0 < input := by
  obtain ⟨hw, hs⟩ := outputExtent?_pos h
  refine Nat.pos_of_ne_zero fun hzero => ?_
  cases rule with
  | same =>
    rw [outputExtent?, if_neg (by omega)] at h
    have hwrap : Size.wrap (0 + stride - 1) = 0 + stride - 1 :=
      Size.wrap_of_lt (Nat.lt_of_le_of_lt (by omega : 0 + stride - 1 ≤ Size.half) (by decide))
    simp only [hzero, hwrap, Nat.div_eq_of_lt (by omega : 0 + stride - 1 < stride),
      Option.some.injEq] at h
    omega
  | valid =>
    rw [outputExtent?, if_neg (by omega), if_neg (by omega)] at h
    cases h

/-- Windows and strides that are signed sizes, on an axis whose coordinates are, never make the
arithmetic wrap around. -/
theorem same_lies (h : same.outputExtent? input window stride = some output)
    (hinput : input ≤ Size.half) (hwindow : window ≤ Size.half) (hstride : stride ≤ Size.half) :
    Lies same input output window stride (split input output window stride).1 := by
  obtain ⟨hw, hs⟩ := outputExtent?_pos h
  have hmodulus : Size.half + Size.half = Size.modulus := rfl
  obtain rfl : input ⌈/⌉ stride = output := by
    rw [same_outputExtent? hw hs (by omega)] at h
    exact Option.some.inj h
  refine ⟨fun place hplace => ?_, (nomatch ·), (nomatch ·)⟩
  have hstart := (lt_places_iff hs).1 hplace
  have hlast := last_lt (by omega : 0 < input) hs
  have hlack : lack input (input ⌈/⌉ stride) window stride < window := lack_lt (by omega) hw hs
  rw [split_eq (by omega) hlack]
  generalize lack input (input ⌈/⌉ stride) window stride = total at hlack
  -- the first element under the window
  have hfirst : ∃ tap < window, inputCoord? place stride tap (total / 2) input
      = some (place * stride - total / 2) :=
    exists_tap (by omega) (by omega) (by omega) (by omega)
  obtain ⟨tap, htap, hx⟩ := hfirst
  exact ⟨tap, htap, _, hx⟩

theorem valid_lies (h : valid.outputExtent? input window stride = some output)
    (hinput : input ≤ Size.half) : Lies valid input output window stride 0 := by
  obtain ⟨hw, hs⟩ := outputExtent?_pos h
  rw [outputExtent?, if_neg (by omega)] at h
  simp only [Option.ite_none_right_eq_some, Option.some.injEq] at h
  obtain ⟨hle, rfl⟩ := h
  have hinside : ∀ place < (input - window) / stride + 1, ∀ tap < window,
      (inputCoord? place stride tap 0 input).isSome := by
    intro place hplace tap htap
    have hstart : place * stride ≤ input - window :=
      (Nat.le_div_iff_mul_le hs).1 (Nat.le_of_lt_succ hplace)
    rw [inputCoord?_of_eq (x := place * stride + tap) rfl (by omega) (by omega)]
    rfl
  refine ⟨fun place hplace => ⟨0, hw, ?_⟩, fun _ => hinside, fun _ => ?_⟩
  · exact Option.isSome_iff_exists.1 (hinside place hplace 0 hw)
  · have hdiv := Nat.div_add_mod' (input - window) stride
    have hmod := Nat.mod_lt (input - window) hs
    rw [Nat.succ_mul]
    omega

end PaddingRule

/-! ## In two dimensions -/

/-- All rows and columns are signed sizes. -/
def Feature.Signed (f : Feature) : Prop := f.h ≤ Size.half ∧ f.w ≤ Size.half

instance (f : Feature) : Decidable f.Signed := inferInstanceAs (Decidable (_ ∧ _))

namespace Window

/-- How the windows of an output lie on the input. -/
structure Lies (w : Window) (rule : PaddingRule) (input output : Feature) : Prop where
  rows : rule.Lies input.h output.h w.height w.strideH w.padding.top
  columns : rule.Lies input.w output.w w.width w.strideW w.padding.left
  occupied : ∀ row < output.h, ∀ col < output.w, w.taps input row col ≠ []

variable {rule : PaddingRule} {input : Feature} {windowH windowW strideH strideW : Nat}

theorem taps_ne_nil {w : Window} {row col kh kw ih iw : Nat} (hkh : kh < w.height)
    (hkw : kw < w.width) (hih : inputCoord? row w.strideH kh w.padding.top input.h = some ih)
    (hiw : inputCoord? col w.strideW kw w.padding.left input.w = some iw) :
    w.taps input row col ≠ [] :=
  List.ne_nil_of_mem (a := ⟨kh, kw, ih, iw⟩) (mem_tapsOn.2 ⟨hkh, hkw, hih, hiw⟩)

/-- The padding that a rule puts around the input makes the windows lie on it. -/
theorem lies_around (output : Feature)
    (hh : rule.outputExtent? input.h windowH strideH = some output.h)
    (hw : rule.outputExtent? input.w windowW strideW = some output.w) (hinput : input.Signed)
    (hwindow : windowH ≤ Size.half ∧ windowW ≤ Size.half)
    (hstride : strideH ≤ Size.half ∧ strideW ≤ Size.half) :
    Lies ⟨windowH, windowW, strideH, strideW,
      rule.around input output windowH windowW strideH strideW⟩ rule input output := by
  have hrows : rule.Lies input.h output.h windowH strideH
      (rule.around input output windowH windowW strideH strideW).top := by
    cases rule with
    | same => exact PaddingRule.same_lies hh hinput.1 hwindow.1 hstride.1
    | valid => exact PaddingRule.valid_lies hh hinput.1
  have hcolumns : rule.Lies input.w output.w windowW strideW
      (rule.around input output windowH windowW strideH strideW).left := by
    cases rule with
    | same => exact PaddingRule.same_lies hw hinput.2 hwindow.2 hstride.2
    | valid => exact PaddingRule.valid_lies hw hinput.2
  refine ⟨hrows, hcolumns, fun row hrow col hcol => ?_⟩
  obtain ⟨kh, hkh, ih, hih⟩ := hrows.occupied row hrow
  obtain ⟨kw, hkw, iw, hiw⟩ := hcolumns.occupied col hcol
  exact taps_ne_nil hkh hkw hih hiw

end Window

/-! ## Geometries -/

namespace Geometry

variable {op : Operation} {os : Operands} {act : Activation}

theorem places_eq_ok {kind : Kind} {i : OperandId} {rule : PaddingRule}
    {input window stride n : Nat} :
    places kind i rule input window stride = .ok n ↔
      rule.outputExtent? input window stride = some n := by
  simp only [places, invalid]
  split <;> simp_all

/-- Strides and window extents are read from words of 32 bits. -/
theorem positive_le {kind : Kind} {i : OperandId} {n : Nat} (h : positive kind os i = .ok n) :
    n ≤ Size.half := by
  simp only [positive, bind_eq_ok, Operands.scalarInt, map_eq_ok] at h
  obtain ⟨_, ⟨w, -, rfl⟩, h⟩ := h
  split at h
  · cases h
  · cases h
    have hlt : w.signed ≤ 0x7fffffff := w.bits.toInt32.toInt_le
    exact Nat.le_trans (Int.toNat_le.2 hlt) (by decide)

theorem conv2d_lies {p : ConvParams} {g : ConvGeometry} (h : conv2d op p os = .ok (g, act))
    (hinput : g.input.Signed) (hweights : g.weights.Signed) :
    ∃ rule, padding .conv2d os p.padding = .ok rule ∧ g.window.Lies rule g.input g.output := by
  simp only [conv2d, bind_eq_ok, lift_eq_ok, pure_eq_ok, places_eq_ok, Prod.mk.injEq] at h
  obtain ⟨_, -, ifm, -, _, -, weights, -, rule, hrule, strideW, hsw, strideH, hsh, h, hh, w, hw, _,
    -, rfl, -⟩ := h
  exact ⟨rule, hrule, Window.lies_around ⟨ifm.n, h, w, weights.n⟩ hh hw hinput hweights
    ⟨positive_le hsh, positive_le hsw⟩⟩

theorem pool2d_lies {kind : Kind} {p : PoolParams} {g : PoolGeometry}
    (h : pool2d kind op p os = .ok (g, act)) (hinput : g.input.Signed) :
    ∃ rule, padding kind os p.padding = .ok rule ∧ g.window.Lies rule g.input g.output := by
  simp only [pool2d, bind_eq_ok, lift_eq_ok, pure_eq_ok, places_eq_ok, Prod.mk.injEq] at h
  obtain ⟨_, -, ifm, -, rule, hrule, strideW, hsw, strideH, hsh, windowW, hww, windowH, hwh, h, hh,
    w, hw, _, -, rfl, -⟩ := h
  exact ⟨rule, hrule, Window.lies_around ⟨ifm.n, h, w, ifm.c⟩ hh hw hinput
    ⟨positive_le hwh, positive_le hww⟩ ⟨positive_le hsh, positive_le hsw⟩⟩

/-- A buffer that holds an input with places in it is too small for other extents. -/
theorem pool2d_signed {kind : Kind} {p : PoolParams} {g : PoolGeometry} {q : Feature}
    (h : pool2d kind op p os = .ok (g, act)) (hq : g.output.Contains q)
    (hsize : g.input.elements < Size.half) : g.input.Signed := by
  simp only [pool2d, bind_eq_ok, lift_eq_ok, pure_eq_ok, places_eq_ok, Prod.mk.injEq] at h
  obtain ⟨_, -, ifm, -, rule, -, strideW, hsw, strideH, hsh, windowW, -, windowH, -, h, hh,
    w, hw, _, -, rfl, -⟩ := h
  obtain ⟨hn, hqh, hqw, hc⟩ := hq
  dsimp only at hn hqh hqw hc hsize ⊢
  have hposh := PaddingRule.input_pos hh (positive_le hsh) (Nat.zero_lt_of_lt hqh)
  have hposw := PaddingRule.input_pos hw (positive_le hsw) (Nat.zero_lt_of_lt hqw)
  have hheight : ifm.h ≤ ifm.elements := by
    calc ifm.h = 1 * ifm.h * 1 * 1 := by omega
      _ ≤ ifm.elements := Nat.mul_le_mul (Nat.mul_le_mul (Nat.mul_le_mul (by omega) le_rfl) hposw)
        (by omega)
  have hwidth : ifm.w ≤ ifm.elements := by
    calc ifm.w = 1 * 1 * ifm.w * 1 := by omega
      _ ≤ ifm.elements := Nat.mul_le_mul (Nat.mul_le_mul (Nat.mul_le_mul (by omega) hposh) le_rfl)
        (by omega)
  exact ⟨by omega, by omega⟩

end Geometry

/-! ## Pooling -/

theorem Buffer.fill_congr {ι : Type} {offset : ι → Nat} {value value' : ι → Option Word}
    {places : List ι} (h : ∀ p ∈ places, value p = value' p) (b : Buffer) :
    fill offset value places b = fill offset value' places b :=
  foldlM_congr (fun _ p hp => by rw [put, put, h p hp]) b

namespace Compute

variable {g : PoolGeometry} {l : Layout} {x : Buffer} {p : Feature} {rule : PaddingRule}

theorem windowWords_ne_nil (h : g.window.Lies rule g.input g.output) (hp : g.output.Contains p)
    {ws : List Word} (hws : windowWords g l x p = some ws) : ws ≠ [] := by
  rintro rfl
  rw [windowWords_eq] at hws
  have hlen := (mapM_eq_some.1 hws).length_eq
  exact h.occupied p.h hp.2.1 p.w hp.2.2.1 (List.length_eq_zero_iff.1 hlen)

/-- What a reduction makes of the empty window does not matter. -/
theorem pool_congr (h : g.window.Lies rule g.input g.output) {reduce reduce' : List Word → Word}
    (hr : ∀ ws ≠ [], reduce ws = reduce' ws) (act : Activation) (old : Buffer) :
    pool reduce g l x act old = pool reduce' g l x act old := by
  rw [pool, pool, Feature.fill_eq, Feature.fill_eq]
  refine Buffer.fill_congr (fun p hp => ?_) old
  cases hws : windowWords g l x p with
  | none => rfl
  | some ws =>
    have hne := windowWords_ne_nil h (Feature.mem_positions.1 hp) hws
    simp only [Option.bind_eq_bind, Option.bind_some, hr ws hne]

end Compute

open Compute

/-- Pooling with this geometry never reduces an empty window: a reduction that differs from the
largest element or the mean there gives the same output. -/
structure PoolGeometry.Occupied (g : PoolGeometry) : Prop where
  words_ne_nil : ∀ {l x p ws}, g.output.Contains p → windowWords g l x p = some ws → ws ≠ []
  largest_eq : ∀ {reduce}, (∀ ws ≠ [], reduce ws = ws.foldl Word.max Word.negInfinity) →
    ∀ l x act old, maxPool2d g l x act old = pool reduce g l x act old
  mean_eq : ∀ {reduce},
    (∀ ws ≠ [], reduce ws = (ws.foldl Word.add Word.zero).div (Word.ofNat ws.length)) →
    ∀ l x act old, avgPool2d g l x act old = pool reduce g l x act old

theorem Window.Lies.occupied_pool {g : PoolGeometry} {rule : PaddingRule}
    (h : g.window.Lies rule g.input g.output) : g.Occupied where
  words_ne_nil hp hws := windowWords_ne_nil h hp hws
  largest_eq hr _ _ act old := pool_congr h (fun ws hws => (hr ws hws).symm) act old
  mean_eq hr _ _ act old := by
    refine pool_congr h (fun ws hws => ?_) act old
    rw [hr ws hws, mean, if_neg (by simpa using hws)]

/-- **Windows are not empty where coordinates are signed sizes.** Wherever a geometry can be worked
out on such an input, each window of the output covers an element of the input; if there is no
padding, all of its taps do, and one more window would not fit. -/
theorem windows_occupied (op : Operation) (os : Operands) (act : Activation) :
    (∀ p g, Geometry.conv2d op p os = .ok (g, act) → g.input.Signed → g.weights.Signed →
      ∃ rule, Geometry.padding .conv2d os p.padding = .ok rule ∧
        g.window.Lies rule g.input g.output) ∧
    ∀ kind p g, Geometry.pool2d kind op p os = .ok (g, act) → g.input.Signed →
      ∃ rule, Geometry.padding kind os p.padding = .ok rule ∧
        g.window.Lies rule g.input g.output ∧ g.Occupied := by
  refine ⟨fun p g h hinput hweights => Geometry.conv2d_lies h hinput hweights,
    fun kind p g h hinput => ?_⟩
  obtain ⟨rule, hrule, hlies⟩ := Geometry.pool2d_lies h hinput
  exact ⟨rule, hrule, hlies, hlies.occupied_pool⟩

/-- An operand that holds a number. -/
def numberOperand (n : UInt8) : Operand :=
  { shape := [], type := { element := .scalarInt32 }, data := some [n, 0, 0, 0] }

/-- Three rows and columns, a filter of two, and the numbers zero, one and two. -/
def windowed : Operands :=
  [{ shape := [1, 3, 3, 1], type := { element := .float32 } },
    { shape := [1, 2, 2, 1], type := { element := .float32 } },
    numberOperand 0, numberOperand 1, numberOperand 2]

def windowedConv : ConvParams := { padding := 3, strideW := 4, strideH := 4, activation := 2 }

def windowedPool : PoolParams :=
  { padding := 4, strideW := 3, strideH := 3, windowW := 4, windowH := 4, activation := 2 }

/-- A convolution padded to the same extent, and pooling without padding. -/
theorem windows_occupied_windowed :
    (∃ g, Geometry.conv2d ⟨[0, 1], [], .conv2d windowedConv⟩ windowedConv windowed
        = .ok (g, .none) ∧
      g.output = ⟨1, 2, 2, 1⟩ ∧ g.window.Lies .same g.input g.output) ∧
    ∃ g, Geometry.pool2d .maxPool2d ⟨[0], [], .maxPool2d windowedPool⟩ windowedPool windowed
        = .ok (g, .none) ∧
      g.output = ⟨1, 2, 2, 1⟩ ∧ g.window.Lies .valid g.input g.output ∧ g.Occupied := by
  constructor
  · obtain ⟨rule, hrule, hlies⟩ :=
      (windows_occupied ⟨[0, 1], [], .conv2d windowedConv⟩ windowed .none).1 windowedConv _ rfl
        (by decide) (by decide)
    obtain rfl : PaddingRule.same = rule := Except.ok.inj hrule
    exact ⟨_, rfl, rfl, hlies⟩
  · obtain ⟨rule, hrule, hlies, hocc⟩ :=
      (windows_occupied ⟨[0], [], .maxPool2d windowedPool⟩ windowed .none).2 .maxPool2d
        windowedPool _ rfl (by decide)
    obtain rfl : PaddingRule.valid = rule := Except.ok.inj hrule
    exact ⟨_, rfl, rfl, hlies, hocc⟩

/-- More rows than there are signed sizes. -/
def tall : Operands :=
  [{ shape := [1, 0x8000000000000005, 1, 1], type := { element := .float32 } },
    numberOperand 0, numberOperand 1, numberOperand 2]

def tallPool : PoolParams :=
  { padding := 3, strideW := 2, strideH := 2, windowW := 2, windowH := 2, activation := 1 }

/-- Two places of a window of one element, with as many rows between them as there are sizes that
are not negative. -/
def sparsePool : PoolGeometry where
  input := ⟨1, 0x8000000000000005, 1, 1⟩
  output := ⟨1, 2, 1, 1⟩
  window := { height := 1, width := 1, strideH := Size.half, strideW := 1, padding := {} }

/-- **Windows can be empty.** Windows of one element, a row apart and without padding, have places
in all rows; those from the first row on that is no signed size have no element under them. Where
pooling gets to such a place, it leaves what it starts from. -/
theorem windows_empty :
    (∃ g, Geometry.pool2d .maxPool2d ⟨[0], [], .maxPool2d tallPool⟩ tallPool tall = .ok (g, .none) ∧
      Geometry.padding .maxPool2d tall tallPool.padding = .ok .valid ∧
      g.output.Contains ⟨0, Size.half, 0, 0⟩ ∧ g.window.taps g.input Size.half 0 = []) ∧
    sparsePool.window.taps sparsePool.input 1 0 = [] ∧
    maxPool2d sparsePool .nhwc #[⟨0x3f800000⟩] .none (Buffer.zeros 2)
      = some #[⟨0x3f800000⟩, Word.negInfinity] := by
  refine ⟨⟨_, rfl, rfl, by decide, ?_⟩, ?_, ?_⟩ <;> decide +kernel

end HeteroNet
