import HeteroNet.Kind
import HeteroNet.Shape
import HeteroNet.Size

/-
Sliding windows: how many places a window takes along an axis, how the border is padded, and
which elements of the input a window covers at one place.
-/

namespace HeteroNet

/-- Rows and columns added around the input. -/
structure Padding where
  top : Nat := 0
  bottom : Nat := 0
  left : Nat := 0
  right : Nat := 0
  deriving DecidableEq, Repr

namespace PaddingRule

/-- The number of places of a window along one axis, if there is any. -/
def outputExtent? (rule : PaddingRule) (input window stride : Nat) : Option Nat :=
  if stride = 0 ∨ window = 0 then none
  else
    match rule with
    | same => some (Size.wrap (input + stride - 1) / stride)
    | valid => if window ≤ input then some ((input - window) / stride + 1) else none

/-- The leading and trailing padding along one axis that lets `output` windows start at
multiples of the stride and end inside; the odd element is trailing. -/
def split (input output window stride : Nat) : Nat × Nat :=
  let total := Size.wrap ((output - 1) * stride + window) - input
  (total / 2, Size.wrap (total + 1) / 2)

/-- The padding around `input` for windows that make up `output`. -/
def around (rule : PaddingRule) (input output : Feature) (windowH windowW strideH strideW : Nat) :
    Padding :=
  match rule with
  | valid => {}
  | same =>
    let (top, bottom) := split input.h output.h windowH strideH
    let (left, right) := split input.w output.w windowW strideW
    { top, bottom, left, right }

end PaddingRule

/-- The coordinate that tap `tap` of the window at place `place` falls on, unless it falls on
padding. It is worked out in signed sizes, and those that wrap around count as padding. -/
def inputCoord? (place stride tap pad extent : Nat) : Option Nat :=
  let at' := Size.signed (Size.signed ↑(place * stride + tap) - Size.signed pad)
  if 0 ≤ at' ∧ at' < extent then some at'.toNat else none

theorem inputCoord?_lt {place stride tap pad extent x : Nat}
    (h : inputCoord? place stride tap pad extent = some x) : x < extent := by
  simp only [inputCoord?] at h
  split at h
  · cases h
    omega
  · cases h

/-- The tap on an element whose coordinate is a signed size. -/
theorem inputCoord?_of_eq {place stride tap pad extent x : Nat}
    (h : place * stride + tap = x + pad) (hx : x < extent) (hsize : x < Size.half) :
    inputCoord? place stride tap pad extent = some x := by
  have hcoord : ((place * stride + tap : Nat) : Int) - (pad : Int) = (x : Int) := by omega
  simp only [inputCoord?, Size.signed_sub, hcoord, Size.signed_of_lt hsize]
  rw [if_pos ⟨Int.natCast_nonneg x, Int.ofNat_lt.2 hx⟩, Int.toNat_natCast]

structure Window where
  height : Nat
  width : Nat
  strideH : Nat
  strideW : Nat
  padding : Padding
  deriving DecidableEq, Repr

/-- One element under a window: where in the window, and where in the input. -/
structure Tap where
  windowH : Nat
  windowW : Nat
  inputH : Nat
  inputW : Nat
  deriving DecidableEq, Repr

namespace Window

/-- The elements under a window whose taps fall on these rows and columns, row by row; padding is
left out. -/
def tapsOn (height width : Nat) (rows cols : Nat → Option Nat) : List Tap :=
  (List.range height).flatMap fun kh =>
    match rows kh with
    | none => []
    | some ih =>
      (List.range width).filterMap fun kw => (cols kw).map fun iw => ⟨kh, kw, ih, iw⟩

/-- The elements under the window at row `row` and column `col` of the output. -/
def taps (w : Window) (input : Feature) (row col : Nat) : List Tap :=
  tapsOn w.height w.width (inputCoord? row w.strideH · w.padding.top input.h)
    (inputCoord? col w.strideW · w.padding.left input.w)

/-- Runs `step` with each element under a window, row by row. -/
def visitOn {β : Type} (height width : Nat) (rows cols : Nat → Option Nat)
    (step : β → Tap → Option β) (b : β) : Option β :=
  Loop.count height (fun b kh =>
    match rows kh with
    | none => some b
    | some ih =>
      Loop.count width (fun b kw =>
        match cols kw with
        | none => some b
        | some iw => step b ⟨kh, kw, ih, iw⟩) b) b

/-- Runs `step` with each element under the window at row `row` and column `col` of the output,
row by row. -/
def visit {β : Type} (w : Window) (input : Feature) (row col : Nat) (step : β → Tap → Option β)
    (b : β) : Option β :=
  visitOn w.height w.width (inputCoord? row w.strideH · w.padding.top input.h)
    (inputCoord? col w.strideW · w.padding.left input.w) step b

theorem mem_tapsOn {height width : Nat} {rows cols : Nat → Option Nat} {t : Tap} :
    t ∈ tapsOn height width rows cols ↔ t.windowH < height ∧ t.windowW < width ∧
      rows t.windowH = some t.inputH ∧ cols t.windowW = some t.inputW := by
  obtain ⟨kh, kw, ih, iw⟩ := t
  simp only [tapsOn, List.mem_flatMap, List.mem_range]
  constructor
  · rintro ⟨kh', hkh, h⟩
    split at h
    · cases h
    · rename_i ih' hih
      simp only [List.mem_filterMap, List.mem_range, Option.map_eq_some_iff] at h
      obtain ⟨kw', hkw, iw', hiw, heq⟩ := h
      cases heq
      exact ⟨hkh, hkw, hih, hiw⟩
  · rintro ⟨hkh, hkw, hih, hiw⟩
    refine ⟨kh, hkh, ?_⟩
    simp only [hih, List.mem_filterMap, List.mem_range, Option.map_eq_some_iff]
    exact ⟨kw, hkw, iw, hiw, rfl⟩

theorem visitOn_eq {β : Type} (height width : Nat) (rows cols : Nat → Option Nat)
    (step : β → Tap → Option β) (b : β) :
    visitOn height width rows cols step b = (tapsOn height width rows cols).foldlM step b := by
  simp only [visitOn, tapsOn, Loop.count_eq, Loop.foldlM_flatMap]
  congr 1
  funext b kh
  cases rows kh with
  | none => rfl
  | some ih =>
    simp only [List.foldlM_filterMap]
    congr 1
    funext b kw
    cases cols kw <;> rfl

theorem visit_eq {β : Type} (w : Window) (input : Feature) (row col : Nat)
    (step : β → Tap → Option β) (b : β) :
    w.visit input row col step b = (w.taps input row col).foldlM step b :=
  visitOn_eq w.height w.width _ _ step b

theorem tap_mem_input {w : Window} {input : Feature} {row col : Nat} {t : Tap}
    (h : t ∈ w.taps input row col) : t.inputH < input.h ∧ t.inputW < input.w := by
  obtain ⟨-, -, hih, hiw⟩ := mem_tapsOn.1 h
  exact ⟨inputCoord?_lt hih, inputCoord?_lt hiw⟩

end Window

end HeteroNet
