import HeteroNet.Compute.Concat
import HeteroNet.Proofs.Kernel.Windows

/-
Concatenation. An index of the output is split at the axis into what stands before it, the place
along the axis, and what stands after it (`rowMajor_split`). The place along the axis says which
input the word comes from; the rest is the same in that input (`joined`). Read by positions, this
does not depend on the layout.
-/

namespace HeteroNet

open Layout

/-- The elements of a shape, split at one axis. -/
theorem Shape.elements_set {s : Shape} {axis : Nat} (h : axis < s.length) (e : Nat) :
    elements (s.set axis e) = elements (s.take axis) * (e * elements (s.drop (axis + 1))) := by
  rw [List.set_eq_take_append_cons_drop, if_pos h, elements_append, elements]

namespace Compute

/-- The word at `(o, a, i)` of the concatenation of buffers with the given extents along the
axis. -/
def joined (inner : Nat) : List (Buffer × Nat) → (o a i : Nat) → Option Word
  | [], _, _, _ => none
  | (b, e) :: rest, o, a, i =>
    if a < e then b[(o * e + a) * inner + i]? else joined inner rest o (a - e) i

/-- The extent of a concatenation. -/
def totalExtent (parts : List (Buffer × Nat)) : Nat := (parts.map Prod.snd).sum

/-- The parts with the extents of a shape off the axis. -/
def withDims (dims : Shape) (axis : Nat) (parts : List (Buffer × Nat)) : List (Buffer × Shape) :=
  parts.map fun p => (p.1, dims.set axis p.2)

/-- Two loops over buffers of one size that do the same on them. -/
theorem foldlM_congr_size {α : Type} {f g : Buffer → α → Option Buffer} {n : Nat}
    (hsize : ∀ b a b', g b a = some b' → b'.size = b.size) :
    ∀ {l : List α}, (∀ b : Buffer, b.size = n → ∀ a ∈ l, f b a = g b a) →
      ∀ b : Buffer, b.size = n → l.foldlM f b = l.foldlM g b
  | [], _, _, _ => rfl
  | a :: l, h, b, hb => by
    rw [List.foldlM_cons, List.foldlM_cons, h b hb a (by simp)]
    cases hg : g b a with
    | none => rfl
    | some b' =>
      exact foldlM_congr_size hsize (fun c hc x hx => h c hc x (by simp [hx])) b'
        ((hsize b a b' hg).trans hb)

variable {axis outer inner total before e : Nat} {data out : Buffer} {dims : Shape}

/-- What goes to the output from one input of `outer` rows: the row, the word, and its place in the
row. -/
def moved (outer run : Nat) (data : Buffer) : List (Nat × Word × Nat) :=
  (List.range outer).flatMap fun o => (data.row run o).zipIdx.map fun i => (o, i)

theorem mem_moved {run : Nat} {p : Nat × Word × Nat} :
    p ∈ moved outer run data ↔ p.1 < outer ∧ (data.row run p.1)[p.2.2]? = some p.2.1 := by
  obtain ⟨o, w, k⟩ := p
  simp only [moved, List.mem_flatMap, List.mem_map, List.mem_range, Prod.mk.injEq, Prod.exists,
    List.mk_mem_zipIdx_iff_getElem?]
  constructor
  · rintro ⟨_, ho, _, _, hw, rfl, rfl, rfl⟩
    exact ⟨ho, hw⟩
  · rintro ⟨ho, hw⟩
    exact ⟨o, ho, w, k, hw, rfl, rfl, rfl⟩

/-- Placing one input is one fill. -/
theorem placeInput_eq (haxis : dims[axis]? = some e) (hdata : data.size = outer * (e * inner))
    (hout : out.size = outer * total * inner) (hfit : before + e ≤ total) :
    placeInput axis outer inner total before data dims out
      = Buffer.fill (fun p => (p.1 * total + before) * inner + p.2.2) (fun p => some p.2.1)
          (moved outer (e * inner) data) out := by
  rw [moved, ← Buffer.foldlM_fill (fun o => (data.row (e * inner) o).zipIdx)
    (fun o (p : Word × Nat) => (o * total + before) * inner + p.2) (fun _ p => some p.1),
    placeInput, haxis]
  simp only [Option.bind_eq_bind, Option.bind_some, Loop.count_eq]
  refine foldlM_congr_size (fun b a b' h => Buffer.size_fill h) (fun b hb o ho => ?_) out hout
  have ho := List.mem_range.1 ho
  have hend : (o * total + before) * inner + (data.row (e * inner) o).length ≤ b.size := by
    rw [Buffer.length_row hdata ho, hb]
    calc (o * total + before) * inner + e * inner = (o * total + (before + e)) * inner := by ring
      _ ≤ (o * total + total) * inner := Nat.mul_le_mul_right _ (by omega)
      _ = (o + 1) * total * inner := by ring
      _ ≤ outer * total * inner := Nat.mul_le_mul_right _ (Nat.mul_le_mul_right _ ho)
  rw [Buffer.slice_row hdata ho, Option.bind_some, Buffer.writeRun, if_pos hend]

/-- Where a word goes, by its place along the axis and the one after it. -/
theorem moved_digits (hdata : data.size = outer * (e * inner)) (total before : Nat)
    {p : Nat × Word × Nat} (hp : p ∈ moved outer (e * inner) data) :
    ∃ a i, a < e ∧ i < inner ∧ p.2.2 = a * inner + i ∧
      (p.1 * total + before) * inner + p.2.2 = (p.1 * total + (before + a)) * inner + i := by
  obtain ⟨ho, hw⟩ := mem_moved.1 hp
  have hk := (List.getElem?_eq_some_iff.1 hw).1
  rw [Buffer.length_row hdata ho] at hk
  obtain ⟨a, i, ha, hi, hk⟩ := exists_digits hk
  refine ⟨a, i, ha, hi, hk, ?_⟩
  rw [hk]
  ring

/-- Words that go to one offset are the same word. -/
theorem moved_injective (hdata : data.size = outer * (e * inner)) (hfit : before + e ≤ total)
    {p q : Nat × Word × Nat} (hp : p ∈ moved outer (e * inner) data)
    (hq : q ∈ moved outer (e * inner) data)
    (h : (p.1 * total + before) * inner + p.2.2 = (q.1 * total + before) * inner + q.2.2) :
    some p.2.1 = some q.2.1 := by
  obtain ⟨a, i, ha, hi, hpk, he⟩ := moved_digits hdata total before hp
  obtain ⟨a', i', ha', hi', hqk, he'⟩ := moved_digits hdata total before hq
  rw [he, he'] at h
  obtain ⟨hrow, rfl⟩ := digits_injective hi hi' h
  obtain ⟨ho, haa⟩ := digits_injective (by omega) (by omega) hrow
  obtain rfl : a = a' := by omega
  rw [← (mem_moved.1 hp).2, ← (mem_moved.1 hq).2, ho, hpk, hqk]

/-- One input goes to its place; the rest of the output stays. -/
theorem placeInput_spec (haxis : dims[axis]? = some e) (hdata : data.size = outer * (e * inner))
    (hout : out.size = outer * total * inner) (hfit : before + e ≤ total) :
    ∃ out', placeInput axis outer inner total before data dims out = some out' ∧
      out'.size = outer * total * inner ∧
      ∀ o a i, o < outer → a < total → i < inner →
        out'[(o * total + a) * inner + i]? =
          if before ≤ a ∧ a < before + e then data[(o * e + (a - before)) * inner + i]?
          else out[(o * total + a) * inner + i]? := by
  have hlt : ∀ p ∈ moved outer (e * inner) data,
      (p.1 * total + before) * inner + p.2.2 < out.size := by
    intro p hp
    obtain ⟨a, i, ha, hi, -, he⟩ := moved_digits hdata total before hp
    rw [he, hout]
    exact digits_lt (digits_lt (mem_moved.1 hp).1 (by omega)) hi
  obtain ⟨out', hout', hs, hat, hother⟩ := Buffer.fill_spec _ _ _ hlt (fun _ _ => rfl)
    fun p hp q hq h => moved_injective hdata hfit hp hq h
  refine ⟨out', (placeInput_eq haxis hdata hout hfit).trans hout', hs.trans hout,
    fun o a i ho ha hi => ?_⟩
  by_cases hin : before ≤ a ∧ a < before + e
  · obtain ⟨d, rfl⟩ := Nat.exists_eq_add_of_le hin.1
    have hk : d * inner + i < e * inner := digits_lt (by omega) hi
    have hlt : d * inner + i < (data.row (e * inner) o).length := by
      rwa [Buffer.length_row hdata ho]
    have hw := List.getElem?_eq_getElem hlt
    have hplace := hat (o, _, d * inner + i) (mem_moved.2 ⟨ho, hw⟩)
    have hoff : (o * total + before) * inner + (d * inner + i)
        = (o * total + (before + d)) * inner + i := by ring
    have hsrc : o * (e * inner) + (d * inner + i) = (o * e + d) * inner + i := by ring
    rw [if_pos hin, Nat.add_sub_cancel_left, ← hoff, hplace, ← hw, data.getElem?_row o hk, hsrc]
  · rw [if_neg hin]
    refine hother _ fun p hp he => hin ?_
    obtain ⟨a', i', ha', hi', -, he'⟩ := moved_digits hdata total before hp
    rw [he'] at he
    obtain ⟨h, rfl⟩ := digits_injective hi' hi he
    obtain ⟨-, rfl⟩ := digits_injective (by omega) ha h
    omega

theorem totalExtent_cons (p : Buffer × Nat) (parts : List (Buffer × Nat)) :
    totalExtent (p :: parts) = p.2 + totalExtent parts := by
  simp [totalExtent]

theorem placeInputs_spec (haxis : axis < dims.length) :
    ∀ (parts : List (Buffer × Nat)) (before : Nat) {out : Buffer},
      (∀ p ∈ parts, p.1.size = outer * (p.2 * inner)) → out.size = outer * total * inner →
      before + totalExtent parts = total →
      ∃ out', placeInputs axis outer inner total before (withDims dims axis parts) out = some out' ∧
        out'.size = outer * total * inner ∧
        ∀ o a i, o < outer → a < total → i < inner →
          out'[(o * total + a) * inner + i]? =
            if a < before then out[(o * total + a) * inner + i]?
            else joined inner parts o (a - before) i
  | [], before, out, _, hout, htotal => by
    refine ⟨out, rfl, hout, fun o a i _ ha _ => ?_⟩
    have : a < before := by
      simp only [totalExtent, List.map_nil, List.sum_nil, Nat.add_zero] at htotal
      omega
    rw [if_pos this]
  | (b, e) :: parts, before, out, hsize, hout, htotal => by
    rw [totalExtent_cons] at htotal
    have he : (dims.set axis e)[axis]? = some e := by simp [haxis]
    have hbefore : before + e ≤ total := by
      dsimp only at htotal
      omega
    obtain ⟨out₁, h₁, hs₁, hat₁⟩ := placeInput_spec he (hsize (b, e) (by simp)) hout hbefore
    obtain ⟨out₂, h₂, hs₂, hat₂⟩ := placeInputs_spec haxis parts (before + e)
      (fun p hp => hsize p (by simp [hp])) hs₁ (by dsimp only at htotal; omega)
    refine ⟨out₂, ?_, hs₂, fun o a i ho ha hi => ?_⟩
    · simp only [withDims, List.map_cons, placeInputs, he, Option.bind_eq_bind, Option.bind_some, h₁]
      exact h₂
    · rw [hat₂ o a i ho ha hi, hat₁ o a i ho ha hi, joined]
      by_cases hlow : a < before
      · have h₁ : a < before + e := by omega
        have h₂ : ¬(before ≤ a ∧ a < before + e) := by omega
        rw [if_pos hlow, if_pos h₁, if_neg h₂]
      · by_cases hhigh : a < before + e
        · have h₁ : before ≤ a ∧ a < before + e := by omega
          have h₂ : a - before < e := by omega
          rw [if_neg hlow, if_pos hhigh, if_pos h₁, if_pos h₂]
        · have h₁ : ¬a - before < e := by omega
          rw [if_neg hlow, if_neg hhigh, if_neg h₁, Nat.sub_sub]

/-- A concatenation places its inputs one after another. -/
theorem concat_eq {parts : List (Buffer × Nat)} (hne : parts ≠ []) (haxis : axis < dims.length)
    (old : Buffer) :
    concat (withDims dims axis parts) axis old
      = placeInputs axis (Shape.elements (dims.take axis)) (Shape.elements (dims.drop (axis + 1)))
          (totalExtent parts) 0 (withDims dims axis parts) old := by
  have htake : ∀ e, (dims.set axis e).take axis = dims.take axis := by
    intro e
    rw [List.take_set, List.set_eq_of_length_le (by simp)]
  have hdrop : ∀ e, (dims.set axis e).drop (axis + 1) = dims.drop (axis + 1) := by
    intro e
    rw [List.drop_set_of_lt (Nat.lt_succ_self _)]
  have hextents : ∀ l : List (Buffer × Nat),
      (withDims dims axis l).mapM (fun p => p.2[axis]?) = some (l.map Prod.snd) := by
    intro l
    induction l with
    | nil => rfl
    | cons p l ih =>
      have hp : (dims.set axis p.2)[axis]? = some p.2 := by simp [haxis]
      rw [withDims, List.map_cons, List.mapM_cons, hp]
      rw [withDims] at ih
      simp [ih]
  obtain ⟨⟨b, e⟩, rest, rfl⟩ := List.exists_cons_of_ne_nil hne
  have hlen : ¬(dims.set axis e).length ≤ axis := by simp [haxis]
  have hsum : List.foldl (· + ·) 0 (((b, e) :: rest).map Prod.snd)
      = totalExtent ((b, e) :: rest) := by
    rw [totalExtent, List.sum_eq_foldl]
  change (if (dims.set axis e).length ≤ axis then none else _) = _
  rw [if_neg hlen]
  have hx := hextents ((b, e) :: rest)
  simp only [withDims, List.map_cons] at hx ⊢
  simp only [hx, Option.bind_eq_bind, Option.bind_some, htake, hdrop]
  congr 1

/-- **A concatenation** writes every word of its output. -/
theorem concat_spec {parts : List (Buffer × Nat)} (hne : parts ≠ []) (haxis : axis < dims.length)
    (hsize : ∀ p ∈ parts, p.1.size = Shape.elements (dims.set axis p.2)) {old : Buffer}
    (hold : old.size = Shape.elements (dims.set axis (totalExtent parts))) :
    ∃ y, concat (withDims dims axis parts) axis old = some y ∧ y.size = old.size ∧
      ∀ o a i, o < Shape.elements (dims.take axis) → a < totalExtent parts →
        i < Shape.elements (dims.drop (axis + 1)) →
        y[(o * totalExtent parts + a) * Shape.elements (dims.drop (axis + 1)) + i]?
          = joined (Shape.elements (dims.drop (axis + 1))) parts o a i := by
  obtain ⟨y, hy, hs, hat⟩ := placeInputs_spec haxis parts 0
    (fun p hp => (hsize p hp).trans (Shape.elements_set haxis p.2))
    (hold.trans ((Shape.elements_set haxis _).trans (Nat.mul_assoc _ _ _).symm)) (Nat.zero_add _)
  refine ⟨y, (concat_eq hne haxis old).trans hy, ?_, fun o a i ho ha hi => ?_⟩
  · rw [hs, hold, Shape.elements_set haxis, Nat.mul_assoc]
  · rw [hat o a i ho ha hi, if_neg (Nat.not_lt_zero _), Nat.sub_zero]

end Compute

/-! ## Positions as lists -/

/-- The index of a position in a tensor whose extents are stored one after another. -/
def rowMajor : (dims at' : List Nat) → Nat
  | _ :: ds, p :: ps => p * Shape.elements ds + rowMajor ds ps
  | _, _ => 0

theorem rowMajor_lt {dims at' : List Nat} (h : List.Forall₂ (· < ·) at' dims) :
    rowMajor dims at' < Shape.elements dims := by
  induction h with
  | nil => exact Nat.zero_lt_one
  | cons hp _ ih => exact digits_lt hp ih

/-- An index, split at one axis. -/
theorem rowMajor_set {dims at' : List Nat} {k e a : Nat} (hlen : at'.length = dims.length)
    (hk : k < dims.length) :
    rowMajor (dims.set k e) (at'.set k a)
      = (rowMajor (dims.take k) (at'.take k) * e + a) * Shape.elements (dims.drop (k + 1))
        + rowMajor (dims.drop (k + 1)) (at'.drop (k + 1)) := by
  induction dims generalizing at' k with
  | nil => cases hk
  | cons d ds ih =>
    obtain ⟨p, ps, rfl⟩ := List.exists_cons_of_length_eq_add_one (by simpa using hlen)
    cases k with
    | zero => simp [rowMajor]
    | succ k =>
      have hk' : k < ds.length := by simpa using hk
      simp only [List.set_cons_succ, rowMajor, List.take_succ_cons, List.drop_succ_cons,
        Shape.elements_set hk',
        ih (by simpa using hlen) hk']
      ring

theorem forall₂_set {R : Nat → Nat → Prop} {as bs : List Nat} {a b : Nat} (h : R a b)
    (hs : List.Forall₂ R as bs) (k : Nat) : List.Forall₂ R (as.set k a) (bs.set k b) := by
  induction hs generalizing k with
  | nil => exact .nil
  | cons h' hs ih =>
    cases k with
    | zero => exact .cons h hs
    | succ k => exact .cons h' (ih k)

theorem Feature.contains_iff {f p : Feature} :
    f.Contains p ↔ List.Forall₂ (· < ·) p.dims f.dims := by
  simp [Feature.Contains, Feature.dims]

theorem Feature.exists_dims {s : Shape} (h : s.length = 4) : ∃ f : Feature, s = f.dims := by
  match s, h with
  | [n, h, w, c], _ => exact ⟨⟨n, h, w, c⟩, rfl⟩

namespace Layout

theorem offset_eq (l : Layout) (f p : Feature) :
    l.offset f p = rowMajor (l.storageDims f.dims) (l.storageDims p.dims) := by
  cases l with
  | nhwc =>
    simp only [offset, storageDims, Feature.dims, rowMajor, Shape.elements]
    ring
  | nchw =>
    simp only [offset, storageDims, Feature.dims, rowMajor, Shape.elements]
    ring

theorem storageDims_forall₂ {l : Layout} {f p : Feature} (h : f.Contains p) :
    List.Forall₂ (· < ·) (l.storageDims p.dims) (l.storageDims f.dims) := by
  obtain ⟨hn, hh, hw, hc⟩ := h
  cases l <;> simp [storageDims, Feature.dims, hn, hh, hw, hc]

theorem feature?_eq_none {s : Shape} (h : s.length ≠ 4) : s.feature? = none := by
  unfold Shape.feature?
  split
  · exact absurd rfl h
  · rfl

theorem storageDims_of_feature?_none {l : Layout} {s : Shape} (hs : s.feature? = none) :
    l.storageDims s = s := by
  unfold storageDims
  split
  · cases hs
  · rfl

theorem storageAxis_of_ne (l : Layout) {rank axis : Nat} (h : rank ≠ 4) :
    l.storageAxis rank axis = axis := by
  unfold storageAxis
  split <;> simp_all

theorem length_storageDims (l : Layout) (s : Shape) : (l.storageDims s).length = s.length := by
  unfold storageDims
  split <;> simp

theorem storageAxis_lt (l : Layout) {rank axis : Nat} (h : axis < rank) :
    l.storageAxis rank axis < rank := by
  unfold storageAxis
  split <;> omega

/-- An axis of the logical shape is one of the stored extents. -/
theorem storageDims_set (l : Layout) {s : Shape} {axis : Nat} (h : axis < s.length) (e : Nat) :
    l.storageDims (s.set axis e) = (l.storageDims s).set (l.storageAxis s.length axis) e := by
  by_cases hr : s.length = 4
  · obtain ⟨f, rfl⟩ := Feature.exists_dims hr
    have h : axis < 4 := h
    obtain rfl | rfl | rfl | rfl : axis = 0 ∨ axis = 1 ∨ axis = 2 ∨ axis = 3 := by omega
    all_goals cases l <;> rfl
  · rw [storageAxis_of_ne l hr, storageDims_of_feature?_none (feature?_eq_none (by simpa using hr)),
      storageDims_of_feature?_none (feature?_eq_none hr)]

end Layout

/-! ## Concatenation in a layout -/

namespace Compute

theorem withDims_eq (dims : Shape) (axis : Nat) : ∀ {ys : List Buffer} {es : List Nat},
    withDims dims axis (ys.zip es) = ys.zip (es.map (dims.set axis ·))
  | [], _ => rfl
  | _ :: _, [] => rfl
  | y :: ys, e :: es => by
    rw [List.zip_cons_cons, List.map_cons, List.zip_cons_cons, ← withDims_eq dims axis]
    rfl

theorem totalExtent_zip : ∀ {ys : List Buffer} {es : List Nat}, ys.length = es.length →
    totalExtent (ys.zip es) = es.sum
  | [], [], _ => rfl
  | y :: ys, e :: es, h => by
    rw [List.zip_cons_cons, totalExtent_cons, totalExtent_zip (by simpa using h), List.sum_cons]

variable {f p : Feature} {l : Layout} {axis : Nat}

/-- Where the word of a part is found, for the position `p` with `a` along the axis. -/
theorem offset_part (h : axis < 4) {g q : Feature} {e a : Nat} (hg : g.dims = f.dims.set axis e)
    (hq : q.dims = p.dims.set axis a) :
    l.offset g q
      = (rowMajor ((l.storageDims f.dims).take (l.storageAxis 4 axis))
            ((l.storageDims p.dims).take (l.storageAxis 4 axis)) * e + a)
          * Shape.elements ((l.storageDims f.dims).drop (l.storageAxis 4 axis + 1))
        + rowMajor ((l.storageDims f.dims).drop (l.storageAxis 4 axis + 1))
            ((l.storageDims p.dims).drop (l.storageAxis 4 axis + 1)) := by
  have hlen : ∀ f : Feature, (l.storageDims f.dims).length = 4 := fun f =>
    length_storageDims l f.dims
  rw [offset_eq, hg, hq, storageDims_set l (s := f.dims) h, storageDims_set l (s := p.dims) h]
  exact rowMajor_set ((hlen p).trans (hlen f).symm) (by rw [hlen f]; exact storageAxis_lt l h)

/-- What stands before and after the axis lies inside the extents there. -/
theorem rowMajor_part_lt (l : Layout) (h : axis < 4) {g : Feature} {e : Nat}
    (hg : g.dims = f.dims.set axis e) (hp : g.Contains p) :
    rowMajor ((l.storageDims f.dims).take (l.storageAxis 4 axis))
        ((l.storageDims p.dims).take (l.storageAxis 4 axis))
      < Shape.elements ((l.storageDims f.dims).take (l.storageAxis 4 axis)) ∧
    rowMajor ((l.storageDims f.dims).drop (l.storageAxis 4 axis + 1))
        ((l.storageDims p.dims).drop (l.storageAxis 4 axis + 1))
      < Shape.elements ((l.storageDims f.dims).drop (l.storageAxis 4 axis + 1)) := by
  have hin := storageDims_forall₂ (l := l) hp
  rw [hg, storageDims_set l (s := f.dims) h] at hin
  have htake := List.forall₂_take (l.storageAxis 4 axis) hin
  have hdrop := List.forall₂_drop (l.storageAxis 4 axis + 1) hin
  rw [show f.dims.length = 4 from rfl, List.take_set, List.set_eq_of_length_le (by simp)] at htake
  rw [show f.dims.length = 4 from rfl, List.drop_set_of_lt (Nat.lt_succ_self _)] at hdrop
  exact ⟨rowMajor_lt htake, rowMajor_lt hdrop⟩

/-- The words of the parts do not depend on the layout. -/
theorem joined_stored (h : axis < 4) (hp : ∀ {e a : Nat}, a < e →
      List.Forall₂ (· < ·) (p.dims.set axis a) (f.dims.set axis e)) :
    ∀ {es : List Nat} {xs ys : List Buffer} (a : Nat),
      StoresAll l (es.map (f.dims.set axis ·)) xs ys →
      joined (Shape.elements ((l.storageDims f.dims).drop (l.storageAxis 4 axis + 1))) (ys.zip es)
          (rowMajor ((l.storageDims f.dims).take (l.storageAxis 4 axis))
            ((l.storageDims p.dims).take (l.storageAxis 4 axis))) a
          (rowMajor ((l.storageDims f.dims).drop (l.storageAxis 4 axis + 1))
            ((l.storageDims p.dims).drop (l.storageAxis 4 axis + 1)))
        = joined (Shape.elements (f.dims.drop (axis + 1))) (xs.zip es)
          (rowMajor (f.dims.take axis) (p.dims.take axis)) a
          (rowMajor (f.dims.drop (axis + 1)) (p.dims.drop (axis + 1)))
  | [], _, _, _, .nil => rfl
  | e :: es, x :: xs, y :: ys, a, .cons hy hys => by
    rw [List.zip_cons_cons, List.zip_cons_cons, joined, joined]
    by_cases ha : a < e
    · obtain ⟨g, hg⟩ := Feature.exists_dims (s := f.dims.set axis e) (by simp [Feature.dims])
      obtain ⟨q, hq⟩ := Feature.exists_dims (s := p.dims.set axis a) (by simp [Feature.dims])
      have hin : g.Contains q := by
        rw [Feature.contains_iff, ← hg, ← hq]
        exact hp ha
      have hy : Stores l g.dims x y := hg ▸ hy
      have hn := offset_part (l := .nhwc) h hg.symm hq.symm
      simp only [storageDims, storageAxis] at hn
      rw [if_pos ha, if_pos ha, ← offset_part h hg.symm hq.symm, ← hn]
      exact (Stores.iff_dims.1 hy).2.2 q hin
    · rw [if_neg ha, if_neg ha]
      exact joined_stored h hp (a - e) hys

end Compute

open Compute

namespace StoresAll

variable {l : Layout} {xs ys : List Buffer}

theorem length_eq {ss : List Shape} (h : StoresAll l ss xs ys) : ys.length = ss.length := by
  induction h with
  | nil => rfl
  | cons _ _ ih => exact congrArg (· + 1) ih

theorem size_zip {shape : Nat → Shape} : ∀ {es : List Nat} {xs ys : List Buffer},
    StoresAll l (es.map shape) xs ys → ∀ p ∈ ys.zip es, p.1.size = (shape p.2).elements
  | [], _, _, .nil, _, hp => by simp at hp
  | e :: es, _, _, .cons hy hys, p, hp => by
    rcases List.mem_cons.1 hp with rfl | hp
    · exact hy.size
    · exact size_zip hys p hp

theorem eq_of_feature?_none : ∀ {ss : List Shape} {xs ys : List Buffer}, StoresAll l ss xs ys →
    (∀ s ∈ ss, s.feature? = none) → ys = xs
  | _, _, _, .nil, _ => rfl
  | _, _, _, .cons hy hys, hs => by
    rw [hy.eq_of_feature?_none (hs _ (by simp)),
      eq_of_feature?_none hys fun s hmem => hs s (by simp [hmem])]

end StoresAll

theorem Layout.elements_storageDims (l : Layout) (s : Shape) :
    Shape.elements (l.storageDims s) = s.elements := by
  unfold storageDims
  split
  · simp only [Shape.elements]
    ring
  · rfl

namespace Kernel

variable {first : Shape} {axis : Nat} {es : List Nat} {l : Layout} {xs ys : List Buffer}

/-- What a concatenation of stored tensors leaves, by places along the axis. -/
theorem concat_stored (hne : es ≠ []) (haxis : axis < first.length)
    (hys : StoresAll l (es.map (first.set axis ·)) xs ys) {old : Buffer}
    (hold : old.size = Shape.elements (first.set axis es.sum)) :
    ∃ z, (Kernel.concat ((es.map (first.set axis ·)).map l.storageDims)
        (l.storageAxis first.length axis)).compute l ys old = some z ∧
      z.size = Shape.elements (first.set axis es.sum) ∧
      ∀ o a i, o < Shape.elements ((l.storageDims first).take (l.storageAxis first.length axis)) →
        a < es.sum →
        i < Shape.elements ((l.storageDims first).drop (l.storageAxis first.length axis + 1)) →
        z[(o * es.sum + a)
            * Shape.elements ((l.storageDims first).drop (l.storageAxis first.length axis + 1)) + i]?
          = joined (Shape.elements ((l.storageDims first).drop (l.storageAxis first.length axis + 1)))
              (ys.zip es) o a i := by
  have hlen : ys.length = es.length := by simpa using hys.length_eq
  have hset : ∀ e, (l.storageDims first).set (l.storageAxis first.length axis) e
      = l.storageDims (first.set axis e) := fun e => (storageDims_set l haxis e).symm
  have hne' : ys.zip es ≠ [] := by
    cases es with
    | nil => exact absurd rfl hne
    | cons e es =>
      obtain ⟨y, ys, rfl⟩ := List.exists_cons_of_length_eq_add_one hlen
      simp
  have haxis' : l.storageAxis first.length axis < (l.storageDims first).length := by
    rw [length_storageDims]
    exact storageAxis_lt l haxis
  have htotal := totalExtent_zip hlen
  obtain ⟨z, hz, hs, hat⟩ := concat_spec hne' haxis'
    (fun p hp => by rw [hset, elements_storageDims]; exact hys.size_zip p hp)
    (by rw [hset, elements_storageDims, htotal, hold])
  rw [htotal] at hat
  refine ⟨z, ?_, hs.trans hold, hat⟩
  rw [withDims_eq] at hz
  change Compute.concat (ys.zip ((es.map (first.set axis ·)).map l.storageDims)) _ old = _
  rw [List.map_map, ← hz]
  congr 2
  refine List.map_congr_left fun e _ => ?_
  exact storageDims_set l haxis e

/-- Feature maps: both layouts are read at the same positions. -/
theorem concat_stores_feature {f : Feature} {y z z' : Buffer} (haxis : axis < 4)
    (hys : StoresAll l (es.map (f.dims.set axis ·)) xs ys)
    (hy : ∀ o a i, o < Shape.elements (f.dims.take axis) → a < es.sum →
      i < Shape.elements (f.dims.drop (axis + 1)) →
      y[(o * es.sum + a) * Shape.elements (f.dims.drop (axis + 1)) + i]?
        = joined (Shape.elements (f.dims.drop (axis + 1))) (xs.zip es) o a i)
    (hz : Stores l (f.dims.set axis es.sum) y z)
    (hs' : z'.size = Shape.elements (f.dims.set axis es.sum))
    (hz' : ∀ o a i, o < Shape.elements ((l.storageDims f.dims).take (l.storageAxis 4 axis)) →
      a < es.sum → i < Shape.elements ((l.storageDims f.dims).drop (l.storageAxis 4 axis + 1)) →
      z'[(o * es.sum + a)
          * Shape.elements ((l.storageDims f.dims).drop (l.storageAxis 4 axis + 1)) + i]?
        = joined (Shape.elements ((l.storageDims f.dims).drop (l.storageAxis 4 axis + 1)))
            (ys.zip es) o a i) : z' = z := by
  obtain ⟨g, hg⟩ := Feature.exists_dims (s := f.dims.set axis es.sum) (by simp [Feature.dims])
  rw [hg] at hz hs'
  obtain ⟨-, hzs, hzat⟩ := Stores.iff_dims.1 hz
  refine Feature.ext (l := l) (hs'.trans (Shape.elements_dims g)) hzs fun p hp => ?_
  have hlt : axis < p.dims.length := haxis
  have hp' := Feature.contains_iff.1 hp
  rw [← hg] at hp'
  have hin : ∀ {e a : Nat}, a < e →
      List.Forall₂ (· < ·) (p.dims.set axis a) (f.dims.set axis e) := by
    intro e a ha
    have := forall₂_set (k := axis) ha hp'
    rwa [List.set_set] at this
  have hself : p.dims = p.dims.set axis p.dims[axis] := (List.set_getElem_self hlt).symm
  have ha : p.dims[axis] < es.sum := by
    have := hp'.get hlt (by simpa [Feature.dims] using haxis)
    simpa using this
  obtain ⟨hbefore, hafter⟩ := rowMajor_part_lt .nhwc haxis hg.symm hp
  simp only [storageDims, storageAxis] at hbefore hafter
  obtain ⟨hbefore', hafter'⟩ := rowMajor_part_lt l haxis hg.symm hp
  have hn := offset_part (l := .nhwc) haxis hg.symm hself
  simp only [storageDims, storageAxis] at hn
  rw [hzat p hp, offset_part haxis hg.symm hself, hn, hz' _ _ _ hbefore' ha hafter',
    hy _ _ _ hbefore ha hafter]
  exact joined_stored haxis hin _ hys

/-- **Concatenation** computes the same in both layouts. -/
theorem concat_gives (hne : es ≠ []) (haxis : axis < first.length)
    (hxs : Sized (es.map (first.set axis ·)) xs) :
    ∃ y : Buffer, y.size = Shape.elements (first.set axis es.sum) ∧ ∀ l,
      Gives l (.concat ((es.map (first.set axis ·)).map l.storageDims)
        (l.storageAxis first.length axis)) (es.map (first.set axis ·)) (first.set axis es.sum) xs y
    := by
  obtain ⟨y, -, hy, hat⟩ := concat_stored (l := .nhwc) hne haxis hxs.storesAll
    (Buffer.size_zeros (Shape.elements (first.set axis es.sum)))
  simp only [storageDims, storageAxis] at hat
  refine ⟨y, hy, fun l ys hys => ?_⟩
  obtain ⟨z, hz⟩ := exists_stores (l := l) hy
  refine ⟨z, hz, fun old hold => ?_⟩
  obtain ⟨z', hz', hs', hat'⟩ := concat_stored hne haxis hys hold
  rw [hz', Option.some.injEq]
  by_cases hr : first.length = 4
  · obtain ⟨f, rfl⟩ := Feature.exists_dims hr
    exact concat_stores_feature haxis hys hat hz hs' hat'
  · -- The parts and the whole are stored in logical order.
    have hrank : ∀ e, Shape.feature? (first.set axis e) = none := fun e =>
      feature?_eq_none (by simpa using hr)
    obtain rfl := hz.eq_of_feature?_none (hrank _)
    obtain rfl := hys.eq_of_feature?_none (List.forall_mem_map.2 fun e _ => hrank e)
    rw [storageDims_of_feature?_none (feature?_eq_none hr), storageAxis_of_ne l hr] at hat'
    refine Buffer.ext_of_lt hs' hy fun k hk => ?_
    rw [Shape.elements_set haxis, ← Nat.mul_assoc] at hk
    obtain ⟨b, i, hb, hi, rfl⟩ := exists_digits hk
    obtain ⟨o, a, ho, ha, rfl⟩ := exists_digits hb
    rw [hat' o a i ho ha hi, hat o a i ho ha hi]

end Kernel

end HeteroNet
