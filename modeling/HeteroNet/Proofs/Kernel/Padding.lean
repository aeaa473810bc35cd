import HeteroNet.Window
import Mathlib.Algebra.Order.Floor.Div
import Mathlib.Order.Bounds.Defs

/-
Padding along one axis. An axis of extent `input` gets as many places as there are multiples of
the stride below it, so the last place starts inside the input and what the last window lacks
there is less than a window. Half of that, rounded down, leads.
-/

namespace HeteroNet

/-- A window has a tap on each element under it. -/
theorem exists_tap {place stride window pad extent x : Nat} (hx : x < extent)
    (hsize : x < Size.half) (hstart : place * stride ≤ x + pad)
    (hend : x + pad < place * stride + window) :
    ∃ tap < window, inputCoord? place stride tap pad extent = some x :=
  ⟨x + pad - place * stride, by omega, inputCoord?_of_eq (by omega) hx hsize⟩

namespace PaddingRule

variable {input window stride : Nat}

/-! ## Places -/

theorem same_outputExtent? (hw : 0 < window) (hs : 0 < stride)
    (hfits : input + stride ≤ Size.modulus) :
    same.outputExtent? input window stride = some (input ⌈/⌉ stride) := by
  have hwrap : Size.wrap (input + stride - 1) = input + stride - 1 := Size.wrap_of_lt (by omega)
  rw [outputExtent?, if_neg (by omega), Nat.ceilDiv_eq_add_pred_div]
  simp only [hwrap]

/-- A place is taken if its window starts inside the input. -/
theorem lt_places_iff {place : Nat} (hs : 0 < stride) :
    place < input ⌈/⌉ stride ↔ place * stride < input := by
  rw [← not_le, ceilDiv_le_iff_le_mul hs, Nat.mul_comm, not_le]

theorem places_pos (hi : 0 < input) (hs : 0 < stride) : 0 < input ⌈/⌉ stride :=
  (lt_places_iff hs).2 (by omega)

theorem last_lt (hi : 0 < input) (hs : 0 < stride) :
    (input ⌈/⌉ stride - 1) * stride < input :=
  (lt_places_iff hs).1 (Nat.sub_lt (places_pos hi hs) (by omega))

theorem le_last (hi : 0 < input) (hs : 0 < stride) :
    input ≤ (input ⌈/⌉ stride - 1) * stride + stride := by
  have hpos := places_pos hi hs
  rw [← Nat.succ_mul, Nat.succ_eq_add_one, Nat.sub_add_cancel hpos, Nat.mul_comm]
  exact (ceilDiv_le_iff_le_mul hs).1 le_rfl

/-! ## What the last window lacks -/

def lack (input output window stride : Nat) : Nat := (output - 1) * stride + window - input

theorem split_eq {output : Nat} (hfits : (output - 1) * stride + window < Size.modulus)
    (hlack : lack input output window stride < window) :
    split input output window stride
      = (lack input output window stride / 2, (lack input output window stride + 1) / 2) := by
  have hwindow : window < Size.modulus := by omega
  have htotal : Size.wrap ((output - 1) * stride + window) - input
      = lack input output window stride := by rw [Size.wrap_of_lt hfits, lack]
  have hsucc : Size.wrap (lack input output window stride + 1)
      = lack input output window stride + 1 := Size.wrap_of_lt (by omega)
  simp only [split, htotal, hsucc]

/-- The last window ends inside the padded input from this total on. -/
theorem lack_isLeast (input output window stride : Nat) :
    IsLeast {total | (output - 1) * stride + window ≤ input + total}
      (lack input output window stride) := by
  refine ⟨Set.mem_ofPred_eq.mpr (tsub_le_iff_left.1 le_rfl), fun total htotal => ?_⟩
  exact tsub_le_iff_left.2 (Set.mem_ofPred_eq.mp htotal)

theorem lack_lt (hi : 0 < input) (hw : 0 < window) (hs : 0 < stride) :
    lack input (input ⌈/⌉ stride) window stride < window := by
  have := last_lt hi hs
  simp only [lack]
  omega

/-- Windows that touch each other reach the end of the padded input. -/
theorem add_lack (hi : 0 < input) (hs : 0 < stride) (hsw : stride ≤ window) :
    input + lack input (input ⌈/⌉ stride) window stride
      = (input ⌈/⌉ stride - 1) * stride + window := by
  have := le_last hi hs
  simp only [lack]
  omega

/-- Of the windows that start before an element, the last one covers it. -/
theorem exists_place {lead x : Nat} (hi : 0 < input) (hs : 0 < stride) (hsw : stride ≤ window)
    (hlead : lead ≤ lack input (input ⌈/⌉ stride) window stride) (hx : x < input) :
    ∃ place < input ⌈/⌉ stride, place * stride ≤ x + lead ∧ x + lead < place * stride + window := by
  have hpos := places_pos hi hs
  by_cases h : (x + lead) / stride < input ⌈/⌉ stride
  · -- the next window starts after the element, and no later than this one ends
    have hdiv := Nat.div_add_mod' (x + lead) stride
    have hmod := Nat.mod_lt (x + lead) hs
    exact ⟨(x + lead) / stride, h, by omega, by omega⟩
  · -- the last window of all reaches the end
    have hend := add_lack hi hs hsw
    have hstart : (input ⌈/⌉ stride - 1) * stride ≤ x + lead :=
      (Nat.le_div_iff_mul_le hs).1 (by omega)
    exact ⟨input ⌈/⌉ stride - 1, by omega, hstart, by omega⟩

/-- What the padding `lead` and `trail` does around an axis with `output` places. -/
structure Surrounds (input output window stride lead trail : Nat) : Prop where
  lead_le_trail : lead ≤ trail
  trail_le_lead : trail ≤ lead + 1
  below : lead + trail < window
  least : IsLeast {total | (output - 1) * stride + window ≤ input + total} (lead + trail)
  /-- If the windows touch each other, each element is under one of them, which has a tap on it as
  long as its coordinate is a signed size. -/
  covers : stride ≤ window → ∀ x < input, ∃ place < output,
    (place * stride - lead : Int) ≤ x ∧ (x : Int) < place * stride - lead + window ∧
      (x < Size.half → ∃ tap < window, inputCoord? place stride tap lead input = some x)

end PaddingRule

end HeteroNet
