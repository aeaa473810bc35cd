import HeteroNet.Loop

/-
Shapes: ordered lists of extents. Four extents are a feature map (batch, height, width,
channel) or the weights of a convolution (output channel, height, width, input channel); both
are read as a `Feature`.
-/

namespace HeteroNet

/-- The extents of an operand, outermost first. No extents at all make a scalar. -/
abbrev Shape := List Nat

/-- Four extents, or a position inside them, in logical order. -/
structure Feature where
  n : Nat
  h : Nat
  w : Nat
  c : Nat
  deriving DecidableEq, Repr

namespace Feature

def dims (f : Feature) : Shape := [f.n, f.h, f.w, f.c]

def elements (f : Feature) : Nat := f.n * f.h * f.w * f.c

/-- The position `p` lies inside the extents `f`. -/
def Contains (f p : Feature) : Prop := p.n < f.n ∧ p.h < f.h ∧ p.w < f.w ∧ p.c < f.c

instance (f p : Feature) : Decidable (f.Contains p) :=
  inferInstanceAs (Decidable (_ ∧ _ ∧ _ ∧ _))

/-- Every position inside the extents, channel fastest. -/
def positions (f : Feature) : List Feature :=
  (List.range f.n).flatMap fun n =>
    (List.range f.h).flatMap fun h =>
      (List.range f.w).flatMap fun w =>
        (List.range f.c).map fun c => ⟨n, h, w, c⟩

/-- Runs `step` at every position inside the extents, channel fastest. Extents that hold no
element are not gone through: one of them may be large. -/
def visit {β : Type} (f : Feature) (step : β → Feature → Option β) (b : β) : Option β :=
  if f.elements = 0 then some b
  else
    Loop.count f.n (fun b n =>
      Loop.count f.h (fun b h =>
        Loop.count f.w (fun b w =>
          Loop.count f.c (fun b c => step b ⟨n, h, w, c⟩) b) b) b) b

@[simp] theorem mem_positions {f p : Feature} : p ∈ f.positions ↔ f.Contains p := by
  obtain ⟨n, h, w, c⟩ := p
  simp only [positions, Contains, List.mem_flatMap, List.mem_map, List.mem_range, mk.injEq]
  constructor
  · rintro ⟨_, hn, _, hh, _, hw, _, hc, rfl, rfl, rfl, rfl⟩
    exact ⟨hn, hh, hw, hc⟩
  · rintro ⟨hn, hh, hw, hc⟩
    exact ⟨n, hn, h, hh, w, hw, c, hc, rfl, rfl, rfl, rfl⟩

theorem elements_pos {f p : Feature} (h : f.Contains p) : 0 < f.elements := by
  obtain ⟨hn, hh, hw, hc⟩ := h
  exact Nat.mul_pos (Nat.mul_pos (Nat.mul_pos (Nat.zero_lt_of_lt hn) (Nat.zero_lt_of_lt hh))
    (Nat.zero_lt_of_lt hw)) (Nat.zero_lt_of_lt hc)

theorem positions_eq_nil {f : Feature} (h : f.elements = 0) : f.positions = [] := by
  refine List.eq_nil_iff_forall_not_mem.2 fun p hp => ?_
  have := elements_pos (mem_positions.1 hp)
  omega

theorem visit_eq {β : Type} (f : Feature) (step : β → Feature → Option β) (b : β) :
    f.visit step b = f.positions.foldlM step b := by
  unfold visit
  split
  · rename_i h
    rw [positions_eq_nil h]
    rfl
  · simp only [positions, Loop.count_eq, Loop.foldlM_flatMap, List.foldlM_map]

end Feature

namespace Shape

def rank (s : Shape) : Nat := s.length

/-- The number of elements: one for no extents at all, none if an extent is zero. -/
def elements : Shape → Nat
  | [] => 1
  | d :: s => d * elements s

theorem elements_append (s t : Shape) : elements (s ++ t) = elements s * elements t := by
  induction s with
  | nil => simp [elements]
  | cons d s ih => simp only [List.cons_append, elements, ih, Nat.mul_assoc]

theorem elements_dims (f : Feature) : elements f.dims = f.elements := by
  simp only [Feature.dims, Feature.elements, elements, Nat.mul_one, Nat.mul_assoc]

def feature? : Shape → Option Feature
  | [n, h, w, c] => some ⟨n, h, w, c⟩
  | _ => none

def vector? : Shape → Option Nat
  | [len] => some len
  | _ => none

def matrix? : Shape → Option (Nat × Nat)
  | [rows, cols] => some (rows, cols)
  | _ => none

/-- The last four extents, with leading ones where there are fewer. -/
def lastFour (s : Shape) : List Nat :=
  let tail := s.drop (s.length - 4)
  List.replicate (4 - tail.length) 1 ++ tail

theorem length_lastFour (s : Shape) : s.lastFour.length = 4 := by
  simp only [lastFour, List.length_append, List.length_replicate, List.length_drop]
  omega

end Shape

end HeteroNet
