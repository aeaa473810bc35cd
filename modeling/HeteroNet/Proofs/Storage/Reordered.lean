import HeteroNet.Proofs.Storage.Stored
import Mathlib.Data.Set.Function

/-
Reordering as a permutation of places. `Layout.position` reads the digits of an offset off again,
so offsets are one-to-one between the positions inside the extents and the indices of the buffer,
and `Layout.reorder` says where the word stored at an index goes. Whatever the rank, it maps the
indices of the buffer one-to-one onto themselves, and reordering in two steps is reordering in
one.
-/

namespace HeteroNet

namespace Layout

/-! ## Offsets read back -/

/-- The position whose offset is `k`. -/
def position : Layout → Feature → Nat → Feature
  | nhwc, s, k => ⟨k / s.c / s.w / s.h, k / s.c / s.w % s.h, k / s.c % s.w, k % s.c⟩
  | nchw, s, k => ⟨k / s.w / s.h / s.c, k / s.w % s.h, k % s.w, k / s.w / s.h % s.c⟩

theorem position_offset {l : Layout} {f p : Feature} (h : f.Contains p) :
    l.position f (l.offset f p) = p := by
  obtain ⟨-, hh, hw, hc⟩ := h
  cases l with
  | nhwc => simp only [position, offset, digits_div hc, digits_mod hc, digits_div hw,
      digits_mod hw, digits_div hh, digits_mod hh]
  | nchw => simp only [position, offset, digits_div hw, digits_mod hw, digits_div hh,
      digits_mod hh, digits_div hc, digits_mod hc]

variable {l : Layout} {f : Feature} {k : Nat}

theorem contains_position (hk : k < f.elements) : f.Contains (l.position f k) := by
  obtain ⟨p, hp, rfl⟩ := exists_offset (l := l) hk
  rwa [position_offset hp]

theorem offset_position (hk : k < f.elements) : l.offset f (l.position f k) = k := by
  obtain ⟨p, hp, rfl⟩ := exists_offset (l := l) hk
  rw [position_offset hp]

theorem offset_bijOn (l : Layout) (f : Feature) :
    Set.BijOn (l.offset f) {p | f.Contains p} (Set.Iio f.elements) :=
  Set.InvOn.bijOn ⟨fun _ hp => position_offset hp, fun _ hk => offset_position hk⟩
    (fun _ hp => offset_lt hp) (fun _ hk => contains_position hk)

theorem position_bijOn (l : Layout) (f : Feature) :
    Set.BijOn (l.position f) (Set.Iio f.elements) {p | f.Contains p} :=
  Set.InvOn.bijOn ⟨fun _ hk => offset_position hk, fun _ hp => position_offset hp⟩
    (fun _ hk => contains_position hk) (fun _ hp => offset_lt hp)

/-! ## Where a word goes -/

/-- Where the word at index `k` goes when a tensor of shape `s` is reordered from `a` to `b`. -/
def reorder (a b : Layout) (s : Shape) (k : Nat) : Nat :=
  match s.feature? with
  | some f => b.offset f (a.position f k)
  | none => k

@[simp] theorem reorder_dims (a b : Layout) (f : Feature) (k : Nat) :
    reorder a b f.dims k = b.offset f (a.position f k) := rfl

theorem reorder_of_feature?_none {a b : Layout} {s : Shape} (hs : s.feature? = none) :
    reorder a b s = id := by
  funext k
  simp only [reorder, hs, id_eq]

variable {s : Shape} {x : Buffer}

theorem reorder_bijOn (a b : Layout) (s : Shape) :
    Set.BijOn (reorder a b s) (Set.Iio s.elements) (Set.Iio s.elements) := by
  cases hs : s.feature? with
  | none =>
    rw [reorder_of_feature?_none hs]
    exact Set.bijOn_id _
  | some f =>
    obtain rfl := Shape.feature?_eq_some.1 hs
    rw [Shape.elements_dims]
    exact (offset_bijOn b f).comp (position_bijOn a f)

/-- Going by way of a third order ends at the same index. -/
theorem reorder_reorder (a b d : Layout) (hk : k < s.elements) :
    reorder b d s (reorder a b s k) = reorder a d s k := by
  cases hs : s.feature? with
  | none => simp only [reorder_of_feature?_none hs, id_eq]
  | some f =>
    obtain rfl := Shape.feature?_eq_some.1 hs
    rw [Shape.elements_dims] at hk
    simp only [reorder_dims, position_offset (contains_position hk)]

theorem convert_reorder (a b : Layout) (hx : x.size = s.elements) :
    ∃ y, convert a b s x = some y ∧ y.size = s.elements ∧
      ∀ k < s.elements, y[reorder a b s k]? = x[k]? := by
  cases hs : s.feature? with
  | none =>
    rw [reorder_of_feature?_none hs]
    exact ⟨x, convert_of_feature?_none hs x, hx, fun _ _ => rfl⟩
  | some f =>
    obtain rfl := Shape.feature?_eq_some.1 hs
    rw [Shape.elements_dims] at hx ⊢
    obtain ⟨y, hy, hsize, hat⟩ := convert_dims a b hx
    refine ⟨y, hy, hsize, fun k hk => ?_⟩
    rw [reorder_dims, hat _ (contains_position hk), offset_position hk]

/-- Two buffers agree if they do wherever a word of the shape goes. -/
theorem ext_of_reorder {a b : Layout} {y z : Buffer} (hy : y.size = s.elements)
    (hz : z.size = s.elements)
    (h : ∀ k < s.elements, y[reorder a b s k]? = z[reorder a b s k]?) : y = z := by
  refine Buffer.ext_of_lt hy hz fun j hj => ?_
  obtain ⟨k, hk, rfl⟩ := (reorder_bijOn a b s).surjOn hj
  exact h k hk

/-- Reordering in two steps. -/
theorem convert_convert (a b d : Layout) {y : Buffer} (hx : x.size = s.elements)
    (hy : convert a b s x = some y) : convert b d s y = convert a d s x := by
  obtain ⟨y', hy', hsize, hat⟩ := convert_reorder a b hx
  obtain rfl : y' = y := Option.some.inj (hy'.symm.trans hy)
  obtain ⟨z, hz, hzsize, hzat⟩ := convert_reorder b d hsize
  obtain ⟨z', hz', hzsize', hzat'⟩ := convert_reorder a d hx
  have hzz : z = z' := by
    refine ext_of_reorder (a := a) (b := d) hzsize hzsize' fun k hk => ?_
    calc z[reorder a d s k]?
        = z[reorder b d s (reorder a b s k)]? := by rw [reorder_reorder a b d hk]
      _ = y'[reorder a b s k]? := hzat _ ((reorder_bijOn a b s).mapsTo hk)
      _ = x[k]? := hat k hk
      _ = z'[reorder a d s k]? := (hzat' k hk).symm
  rw [hz, hz', hzz]

/-- **Reordering is a permutation.** In either layout the offsets of the positions inside the
extents are the indices of the buffer, each once. So on data of matching length, whatever the
rank, every word goes to one index of the result and every index gets one word, unchanged;
reordering on from there is reordering at once, and an order to itself changes nothing. -/
theorem convert_permutes {s : Shape} {x : Buffer} (hx : x.size = s.elements) (a b d : Layout) :
    (∀ l f, Set.BijOn (offset l f) {p | f.Contains p} (Set.Iio f.elements)) ∧
    Set.BijOn (reorder a b s) (Set.Iio s.elements) (Set.Iio s.elements) ∧
    convert a a s x = some x ∧
    ∃ y z, convert a b s x = some y ∧ convert a d s x = some z ∧ convert b d s y = some z ∧
      y.size = s.elements ∧ ∀ k < s.elements, y[reorder a b s k]? = x[k]? := by
  obtain ⟨y, hy, hsize, hat⟩ := convert_reorder a b hx
  obtain ⟨z, hz, -, -⟩ := convert_reorder a d hx
  exact ⟨offset_bijOn, reorder_bijOn a b s, convert_self a s x, y, z, hy, hz,
    (convert_convert a b d hx hy).trans hz, hsize, hat⟩

/-- Two pixels of three channels, one pixel after the other. -/
def twoPixels : Buffer := #[⟨0⟩, ⟨1⟩, ⟨2⟩, ⟨3⟩, ⟨4⟩, ⟨5⟩]

/-- The two pixels are pulled apart and put back together. -/
theorem convert_permutes_twoPixels :
    twoPixels.size = Shape.elements [1, 1, 2, 3] ∧
    ∃ y, convert nhwc nchw [1, 1, 2, 3] twoPixels = some y ∧ y[1]? = some ⟨3⟩ ∧
      convert nchw nhwc [1, 1, 2, 3] y = some twoPixels := by
  have hx : twoPixels.size = Shape.elements [1, 1, 2, 3] := by decide
  obtain ⟨-, -, hself, y, z, hy, hz, hyz, -, hat⟩ := convert_permutes hx nhwc nchw nhwc
  obtain rfl : twoPixels = z := Option.some.inj (hself.symm.trans hz)
  exact ⟨hx, y, hy, hat 3 (by decide), hyz⟩

/-- The channels of one pixel are as far apart as there are pixels. -/
example : (List.range 6).map (reorder nhwc nchw [1, 1, 2, 3]) = [0, 2, 4, 1, 3, 5] := by decide

end Layout

end HeteroNet
