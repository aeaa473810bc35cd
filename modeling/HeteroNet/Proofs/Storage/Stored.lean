import HeteroNet.Layout
import HeteroNet.Proofs.Storage.Fill
import HeteroNet.Size
import Mathlib.Tactic.Ring

/-
How a layout stores a tensor. In either layout the positions inside the extents of a feature map
are in bijection with the indices of its buffer (`offset_lt`, `offset_injective`,
`exists_offset`). So what is stored determines the logical words and the other way round, and
reordering is total on buffers of the right size (`Stores`).
-/

namespace HeteroNet

/-! ## Mixed radix -/

/-- Two digits, the second below `n`, as one number. -/
theorem digits_lt {a m b n : Nat} (ha : a < m) (hb : b < n) : a * n + b < m * n := by
  calc a * n + b < a * n + n := by omega
    _ = (a + 1) * n := by rw [Nat.succ_mul]
    _ ≤ m * n := Nat.mul_le_mul_right _ ha

theorem digits_div {a b n : Nat} (hb : b < n) : (a * n + b) / n = a := by
  have hn : 0 < n := Nat.zero_lt_of_lt hb
  rw [Nat.add_comm, Nat.add_mul_div_right _ _ hn, Nat.div_eq_of_lt hb, Nat.zero_add]

theorem digits_mod {a b n : Nat} (hb : b < n) : (a * n + b) % n = b := by
  rw [Nat.add_comm, Nat.add_mul_mod_self_right, Nat.mod_eq_of_lt hb]

theorem digits_injective {a a' b b' n : Nat} (hb : b < n) (hb' : b' < n)
    (h : a * n + b = a' * n + b') : a = a' ∧ b = b' :=
  ⟨by rw [← digits_div (a := a) hb, h, digits_div hb'],
    by rw [← digits_mod (a := a) hb, h, digits_mod hb']⟩

theorem exists_digits {k m n : Nat} (hk : k < m * n) : ∃ a b, a < m ∧ b < n ∧ k = a * n + b := by
  have hn : 0 < n := by
    rcases Nat.eq_zero_or_pos n with rfl | hn
    · simp at hk
    · exact hn
  refine ⟨k / n, k % n, Nat.div_lt_of_lt_mul (by rwa [Nat.mul_comm]), Nat.mod_lt _ hn, ?_⟩
  rw [Nat.mul_comm]
  exact (Nat.div_add_mod k n).symm

/-- The number of elements does not depend on the order of the extents. -/
theorem Feature.elements_eq (f : Feature) : f.elements = f.n * f.c * f.h * f.w := by
  unfold Feature.elements
  ring

namespace Layout

/-! ## Offsets -/

theorem offset_lt {l : Layout} {f p : Feature} (h : f.Contains p) : l.offset f p < f.elements := by
  obtain ⟨hn, hh, hw, hc⟩ := h
  cases l with
  | nhwc => exact digits_lt (digits_lt (digits_lt hn hh) hw) hc
  | nchw =>
    have := digits_lt (digits_lt (digits_lt hn hc) hh) hw
    rw [f.elements_eq]
    exact this

/-- The products and sums on the way to an offset, in order. -/
def offsetSteps : Layout → Feature → Feature → List Nat
  | nhwc, s, p => steps p.n [(s.h, p.h), (s.w, p.w), (s.c, p.c)]
  | nchw, s, p => steps p.n [(s.c, p.c), (s.h, p.h), (s.w, p.w)]
where
  /-- Each digit `i` of base `d` is taken in by a product and a sum. -/
  steps : Nat → List (Nat × Nat) → List Nat
    | _, [] => []
    | k, (d, i) :: rest => k * d :: (k * d + i) :: steps (k * d + i) rest

theorem getLast?_offsetSteps (l : Layout) (f p : Feature) :
    (l.offsetSteps f p).getLast? = some (l.offset f p) := by
  cases l <;> rfl

/-- If the elements can be counted, no step on the way to an offset wraps around. -/
theorem offsetSteps_lt {l : Layout} {f p : Feature} (h : f.Contains p)
    (hsize : f.elements < Size.modulus) : ∀ k ∈ l.offsetSteps f p, k < Size.modulus := by
  have hoffset := Nat.lt_trans (offset_lt (l := l) h) hsize
  have hgrows : ∀ k d i : Nat, i < d → k ≤ k * d := fun k d i hi =>
    Nat.le_mul_of_pos_right k (Nat.zero_lt_of_lt hi)
  obtain ⟨-, hh, hw, hc⟩ := h
  cases l with
  | nhwc =>
    have hw' := hgrows (p.n * f.h + p.h) f.w p.w hw
    have hc' := hgrows ((p.n * f.h + p.h) * f.w + p.w) f.c p.c hc
    simp only [offset] at hoffset
    simp only [offsetSteps, offsetSteps.steps, List.mem_cons, List.not_mem_nil, or_false]
    omega
  | nchw =>
    have hh' := hgrows (p.n * f.c + p.c) f.h p.h hh
    have hw' := hgrows ((p.n * f.c + p.c) * f.h + p.h) f.w p.w hw
    simp only [offset] at hoffset
    simp only [offsetSteps, offsetSteps.steps, List.mem_cons, List.not_mem_nil, or_false]
    omega

theorem offset_injective {l : Layout} {f p q : Feature} (hp : f.Contains p) (hq : f.Contains q)
    (h : l.offset f p = l.offset f q) : p = q := by
  obtain ⟨n, h', w, c⟩ := p
  obtain ⟨n', h'', w', c'⟩ := q
  obtain ⟨-, hph, hpw, hpc⟩ := hp
  obtain ⟨-, hqh, hqw, hqc⟩ := hq
  cases l with
  | nhwc =>
    obtain ⟨h, rfl⟩ := digits_injective hpc hqc h
    obtain ⟨h, rfl⟩ := digits_injective hpw hqw h
    obtain ⟨rfl, rfl⟩ := digits_injective hph hqh h
    rfl
  | nchw =>
    obtain ⟨h, rfl⟩ := digits_injective hpw hqw h
    obtain ⟨h, rfl⟩ := digits_injective hph hqh h
    obtain ⟨rfl, rfl⟩ := digits_injective hpc hqc h
    rfl

theorem exists_offset {l : Layout} {f : Feature} {k : Nat} (hk : k < f.elements) :
    ∃ p, f.Contains p ∧ l.offset f p = k := by
  cases l with
  | nhwc =>
    obtain ⟨a, c, ha, hc, rfl⟩ := exists_digits hk
    obtain ⟨b, w, hb, hw, rfl⟩ := exists_digits ha
    obtain ⟨n, h, hn, hh, rfl⟩ := exists_digits hb
    exact ⟨⟨n, h, w, c⟩, ⟨hn, hh, hw, hc⟩, rfl⟩
  | nchw =>
    rw [f.elements_eq] at hk
    obtain ⟨a, w, ha, hw, rfl⟩ := exists_digits hk
    obtain ⟨b, h, hb, hh, rfl⟩ := exists_digits ha
    obtain ⟨n, c, hn, hc, rfl⟩ := exists_digits hb
    exact ⟨⟨n, h, w, c⟩, ⟨hn, hh, hw, hc⟩, rfl⟩

end Layout

/-! ## Filling a feature map -/

/-- **A value for every position fills a feature map**, whatever the buffer held. -/
theorem Feature.fill_spec {l : Layout} {f : Feature} (value : Feature → Option Word) {b : Buffer}
    (hsize : b.size = f.elements) (hsome : ∀ p, f.Contains p → (value p).isSome) :
    ∃ b', f.fill (l.offset f) value b = some b' ∧ b'.size = f.elements ∧
      ∀ p, f.Contains p → b'[l.offset f p]? = value p := by
  obtain ⟨b', hb', hs, hat, -⟩ := Buffer.fill_spec (l.offset f) value f.positions (b := b)
    (fun p hp => hsize ▸ Layout.offset_lt (Feature.mem_positions.1 hp))
    (fun p hp => hsome p (Feature.mem_positions.1 hp))
    (fun p hp q hq h => by
      rw [Layout.offset_injective (Feature.mem_positions.1 hp) (Feature.mem_positions.1 hq) h])
  exact ⟨b', by rw [f.fill_eq, hb'], hs.trans hsize, fun p hp => hat p (Feature.mem_positions.2 hp)⟩

/-- Two buffers of the size of a feature map agree if they do at every position. -/
theorem Feature.ext {l : Layout} {f : Feature} {x y : Buffer} (hx : x.size = f.elements)
    (hy : y.size = f.elements)
    (h : ∀ p, f.Contains p → x[l.offset f p]? = y[l.offset f p]?) : x = y := by
  refine Buffer.ext_of_lt hx hy fun k hk => ?_
  obtain ⟨p, hp, rfl⟩ := Layout.exists_offset (l := l) hk
  exact h p hp

theorem Shape.feature?_eq_some {s : Shape} {f : Feature} : s.feature? = some f ↔ s = f.dims := by
  constructor
  · intro h
    unfold Shape.feature? at h
    split at h
    · cases h
      rfl
    · cases h
  · rintro rfl
    rfl

/-! ## Reordering -/

namespace Layout

theorem convert_of_feature?_none {a b : Layout} {s : Shape} (hs : s.feature? = none) (x : Buffer) :
    convert a b s x = some x := by
  unfold convert
  rw [hs]

/-- **Reordering a feature map** moves the word of each position from its place in one layout to
its place in the other. -/
theorem convert_dims (a b : Layout) {f : Feature} {x : Buffer} (hx : x.size = f.elements) :
    ∃ y, convert a b f.dims x = some y ∧ y.size = f.elements ∧
      ∀ p, f.Contains p → y[b.offset f p]? = x[a.offset f p]? := by
  unfold convert
  rw [Shape.feature?_eq_some.2 rfl]
  by_cases hab : a = b
  · subst hab
    exact ⟨x, by simp, hx, fun _ _ => rfl⟩
  · obtain ⟨y, hy, hsize, hat⟩ := Feature.fill_spec (l := b) (fun p => x.read (a.offset f p))
      (b := Buffer.zeros x.size) (by simpa using hx) (fun p hp => by simp [hx, offset_lt hp])
    exact ⟨y, by simpa only [hab, if_false] using hy, hsize, hat⟩

/-- Words that are fewer than the elements of a feature map cannot be reordered: the position of the
first that is missing is read. -/
theorem convert_short {a b : Layout} (hab : a ≠ b) {f : Feature} {x : Buffer}
    (hx : x.size < f.elements) : convert a b f.dims x = none := by
  obtain ⟨p, hp, hoffset⟩ := exists_offset (l := a) hx
  have hmissing : x.read (a.offset f p) = none := by
    rw [hoffset, Buffer.read_eq, Array.getElem?_eq_none (Nat.le_refl _)]
  unfold convert
  rw [Shape.feature?_eq_some.2 rfl]
  simp only [hab, if_false]
  rw [f.fill_eq, Buffer.fill_none (Feature.mem_positions.2 hp) hmissing]

end Layout

/-! ## Stored tensors -/

namespace Layout

/-- The buffer `y` holds the logical words `x` of a tensor of shape `s`. -/
structure Stores (l : Layout) (s : Shape) (x y : Buffer) : Prop where
  words : x.size = s.elements
  converted : convert nhwc l s x = some y

namespace Stores

variable {l : Layout} {s : Shape} {x y : Buffer}

theorem size (h : Stores l s x y) : y.size = s.elements :=
  (size_convert h.converted).trans h.words

/-- Data of any rank but 4 is stored as it is. -/
theorem of_feature?_none (hs : s.feature? = none) (hx : x.size = s.elements) :
    Stores l s x x := ⟨hx, convert_of_feature?_none hs x⟩

theorem eq_of_feature?_none (h : Stores l s x y) (hs : s.feature? = none) : y = x := by
  have hc := h.converted
  rw [convert_of_feature?_none hs] at hc
  exact (Option.some.inj hc).symm

/-- A feature map is stored position by position. -/
theorem iff_dims {f : Feature} : Stores l f.dims x y ↔
    x.size = f.elements ∧ y.size = f.elements ∧
      ∀ p, f.Contains p → y[l.offset f p]? = x[nhwc.offset f p]? := by
  constructor
  · intro h
    have hx : x.size = f.elements := h.words.trans (Shape.elements_dims f)
    obtain ⟨y', hy', hsize, hat⟩ := convert_dims nhwc l hx
    obtain rfl : y' = y := Option.some.inj (hy'.symm.trans h.converted)
    exact ⟨hx, hsize, hat⟩
  · rintro ⟨hx, hy, hat⟩
    obtain ⟨y', hy', hsize, hat'⟩ := convert_dims nhwc l hx
    have hyy : y' = y :=
      Feature.ext (l := l) hsize hy fun p hp => (hat' p hp).trans (hat p hp).symm
    exact ⟨hx.trans (Shape.elements_dims f).symm, by rw [hy', hyy]⟩

/-- Reordering back gives the logical words. -/
theorem back (h : Stores l s x y) : convert l nhwc s y = some x := by
  cases hs : s.feature? with
  | none => rw [convert_of_feature?_none hs, h.eq_of_feature?_none hs]
  | some f =>
    obtain rfl := Shape.feature?_eq_some.1 hs
    obtain ⟨hx, hy, hat⟩ := iff_dims.1 h
    obtain ⟨x', hx', hsize, hat'⟩ := convert_dims l nhwc hy
    rw [hx', Feature.ext (l := nhwc) hsize hx fun p hp => (hat' p hp).trans (hat p hp)]

theorem left_unique {x' : Buffer} (h : Stores l s x y) (h' : Stores l s x' y) : x = x' :=
  Option.some.inj (h.back.symm.trans h'.back)

end Stores

/-- The host's order is the logical one. -/
theorem stores_nhwc {s : Shape} {x : Buffer} (hx : x.size = s.elements) : Stores nhwc s x x :=
  ⟨hx, convert_self _ _ _⟩

theorem Stores.eq_of_nhwc {s : Shape} {x y : Buffer} (h : Stores nhwc s x y) : y = x := by
  have hc := h.converted
  rw [convert_self] at hc
  exact (Option.some.inj hc).symm

/-- Every buffer of the right size can be stored. -/
theorem exists_stores {l : Layout} {s : Shape} {x : Buffer} (hx : x.size = s.elements) :
    ∃ y, Stores l s x y := by
  cases hs : s.feature? with
  | none => exact ⟨x, .of_feature?_none hs hx⟩
  | some f =>
    obtain rfl := Shape.feature?_eq_some.1 hs
    obtain ⟨y, hy, -⟩ := convert_dims nhwc l (hx.trans (Shape.elements_dims f))
    exact ⟨y, hx, hy⟩

/-- Every buffer of the right size is stored from some logical words. -/
theorem exists_stored {l : Layout} {s : Shape} {y : Buffer} (hy : y.size = s.elements) :
    ∃ x, Stores l s x y := by
  cases hs : s.feature? with
  | none => exact ⟨y, .of_feature?_none hs hy⟩
  | some f =>
    obtain rfl := Shape.feature?_eq_some.1 hs
    have hy' := hy.trans (Shape.elements_dims f)
    obtain ⟨x, -, hx, hat⟩ := convert_dims l nhwc hy'
    exact ⟨x, Stores.iff_dims.2 ⟨hx, hy', fun p hp => (hat p hp).symm⟩⟩

end Layout

end HeteroNet
