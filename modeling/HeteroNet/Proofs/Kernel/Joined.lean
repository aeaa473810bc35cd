import HeteroNet.Proofs.Kernel.Concat
import Mathlib.Data.List.Perm.Subperm

/-
What a concatenation is, by the indices of its elements. Its loops write every index of the output
once (`writes`), so the result does not depend on what the output held. The element at index `x` is
one of the input whose part of the axis holds `x[axis]`, and the same is true in either layout.
-/

namespace HeteroNet

namespace Compute

open Layout

/-! ## Inputs that fit together -/

def axisExtent (axis : Nat) (input : Buffer × Shape) : Nat := input.2.getD axis 0

/-- The extents of the concatenation. -/
def joinedDims (axis : Nat) : List (Buffer × Shape) → Shape
  | [] => []
  | input :: rest => input.2.set axis (((input :: rest).map (axisExtent axis)).sum)

/-- Where the part of input `k` starts along the axis. -/
def axisStart (axis : Nat) (inputs : List (Buffer × Shape)) (k : Nat) : Nat :=
  ((inputs.take k).map (axisExtent axis)).sum

/-- Place `a` along the axis is in the part of input `k`. -/
def Spans (axis : Nat) (inputs : List (Buffer × Shape)) (k a : Nat) : Prop :=
  ∃ input, inputs[k]? = some input ∧ axisStart axis inputs k ≤ a ∧
    a < axisStart axis inputs k + axisExtent axis input

/-- Inputs of one rank that differ in the extent of the axis at most. -/
structure Joinable (rank axis : Nat) (inputs : List (Buffer × Shape)) : Prop where
  ne_nil : inputs ≠ []
  axis_lt : axis < rank
  rank_eq : ∀ p ∈ inputs, p.2.length = rank
  off_axis : ∀ p ∈ inputs, ∀ q ∈ inputs, ∀ k ≠ axis, p.2[k]? = q.2[k]?
  size_eq : ∀ p ∈ inputs, p.1.size = p.2.elements

/-- The buffers, each with its extent along the axis. -/
def parts (axis : Nat) (inputs : List (Buffer × Shape)) : List (Buffer × Nat) :=
  inputs.map fun p => (p.1, axisExtent axis p)

namespace Joinable

variable {rank axis : Nat} {inputs : List (Buffer × Shape)}

theorem eq_set (h : Joinable rank axis inputs) {p q : Buffer × Shape} (hp : p ∈ inputs)
    (hq : q ∈ inputs) : p.2.set axis (axisExtent axis q) = q.2 := by
  refine List.ext_getElem? fun k => ?_
  rw [List.getElem?_set]
  by_cases hk : axis = k
  · subst hk
    have hlt : axis < q.2.length := by
      rw [h.rank_eq q hq]
      exact h.axis_lt
    rw [if_pos rfl, if_pos (by rw [h.rank_eq p hp]; exact h.axis_lt), axisExtent,
      List.getD_eq_getElem?_getD, List.getElem?_eq_getElem hlt, Option.getD_some]
  · rw [if_neg hk, h.off_axis p hp q hq k (Ne.symm hk)]

theorem sized (h : Joinable rank axis inputs) :
    Sized (inputs.map Prod.snd) (inputs.map Prod.fst) := by
  rw [Sized, List.forall₂_map_left_iff, List.forall₂_map_right_iff, List.forall₂_same]
  exact h.size_eq

/-- All extents come from those of one input. -/
theorem exists_dims (h : Joinable rank axis inputs) :
    ∃ dims : Shape, dims.length = rank ∧
      (∀ p ∈ inputs, dims.set axis (axisExtent axis p) = p.2) ∧
      joinedDims axis inputs = dims.set axis (totalExtent (parts axis inputs)) := by
  obtain ⟨p, rest, rfl⟩ := List.exists_cons_of_ne_nil h.ne_nil
  refine ⟨p.2, h.rank_eq p (by simp), fun q hq => h.eq_set (by simp) hq, ?_⟩
  simp only [joinedDims, totalExtent, parts, List.map_map, Function.comp_def]

end Joinable

/-! ## Writes -/

variable {axis outer inner total before : Nat}

/-- The writes for inputs with `before` elements of the axis before them: where each word goes,
and the word. -/
def placed (outer inner total : Nat) : (before : Nat) → List (Buffer × Nat) → List (Nat × Word)
  | _, [] => []
  | before, (data, e) :: rest =>
    (moved outer (e * inner) data).map (fun p => ((p.1 * total + before) * inner + p.2.2, p.2.1)) ++
      placed outer inner total (before + e) rest

/-- Everything that a concatenation writes, input by input and row by row. -/
def writes (axis : Nat) (inputs : List (Buffer × Shape)) : List (Nat × Word) :=
  let dims := joinedDims axis inputs
  placed (Shape.elements (dims.take axis)) (Shape.elements (dims.drop (axis + 1)))
    (totalExtent (parts axis inputs)) 0 (parts axis inputs)

theorem placeInputs_eq {dims : Shape} (haxis : axis < dims.length) :
    ∀ (ps : List (Buffer × Nat)) (before : Nat) {out : Buffer},
      (∀ p ∈ ps, p.1.size = outer * (p.2 * inner)) → out.size = outer * total * inner →
      before + totalExtent ps = total →
      placeInputs axis outer inner total before (withDims dims axis ps) out
        = Buffer.fill Prod.fst (fun p => some p.2) (placed outer inner total before ps) out
  | [], _, _, _, _, _ => rfl
  | (data, e) :: ps, before, out, hsize, hout, htotal => by
    rw [totalExtent_cons] at htotal
    dsimp only at htotal
    have he : (dims.set axis e)[axis]? = some e := by simp [haxis]
    have hfit : before + e ≤ total := by omega
    have hfirst := placeInput_eq he (hsize (data, e) (by simp)) hout hfit
    rw [withDims, List.map_cons, placeInputs, placed, Buffer.fill_append, Buffer.fill_map]
    simp only [he, Option.bind_eq_bind, Option.bind_some, hfirst]
    refine Option.bind_congr fun b hb => ?_
    exact placeInputs_eq haxis ps (before + e) (fun p hp => hsize p (by simp [hp]))
      ((Buffer.size_fill hb).trans hout) (by omega)

theorem length_moved {run : Nat} {data : Buffer} (hdata : data.size = outer * run) :
    (moved outer run data).length = outer * run := by
  rw [moved, List.length_flatMap]
  have hrow : (List.range outer).map (fun o => ((data.row run o).zipIdx.map fun i => (o, i)).length)
      = (List.range outer).map fun _ => run := by
    refine List.map_congr_left fun o ho => ?_
    rw [List.length_map, List.length_zipIdx, Buffer.length_row hdata (List.mem_range.1 ho)]
  rw [hrow, List.map_const', List.length_range, List.sum_replicate_nat]

theorem length_placed (outer inner total : Nat) :
    ∀ (before : Nat) {ps : List (Buffer × Nat)}, (∀ p ∈ ps, p.1.size = outer * (p.2 * inner)) →
      (placed outer inner total before ps).length = outer * totalExtent ps * inner
  | _, [], _ => by simp [placed, totalExtent]
  | before, (data, e) :: ps, hsize => by
    rw [placed, List.length_append, List.length_map, length_moved (hsize (data, e) (by simp)),
      length_placed outer inner total (before + e) fun p hp => hsize p (by simp [hp]),
      totalExtent_cons]
    ring

/-- Each place along the axis of the parts is written to, in every row. -/
theorem mem_placed :
    ∀ (before : Nat) {ps : List (Buffer × Nat)}, (∀ p ∈ ps, p.1.size = outer * (p.2 * inner)) →
      ∀ {o a i : Nat}, o < outer → before ≤ a → a < before + totalExtent ps → i < inner →
        (o * total + a) * inner + i ∈ (placed outer inner total before ps).map Prod.fst
  | before, [], _, o, a, i, _, hle, hlt, _ => by
    simp only [totalExtent, List.map_nil, List.sum_nil] at hlt
    omega
  | before, (data, e) :: ps, hsize, o, a, i, ho, hle, hlt, hi => by
    rw [totalExtent_cons] at hlt
    dsimp only at hlt
    rw [placed, List.map_append, List.mem_append]
    by_cases ha : a < before + e
    · left
      obtain ⟨d, rfl⟩ := Nat.exists_eq_add_of_le hle
      have hk : d * inner + i < (data.row (e * inner) o).length := by
        rw [Buffer.length_row (hsize (data, e) (by simp)) ho]
        exact digits_lt (by omega) hi
      rw [List.map_map, List.mem_map]
      refine ⟨(o, _, d * inner + i), mem_moved.2 ⟨ho, List.getElem?_eq_getElem hk⟩, ?_⟩
      simp only [Function.comp_apply]
      ring
    · right
      exact mem_placed (before + e) (fun p hp => hsize p (by simp [hp])) ho (by omega) (by omega) hi

/-- Every index is written once: there are as many writes as indices, and one for each. -/
theorem placed_perm {ps : List (Buffer × Nat)}
    (hsize : ∀ p ∈ ps, p.1.size = outer * (p.2 * inner)) :
    ((placed outer inner (totalExtent ps) 0 ps).map Prod.fst).Perm
      (List.range (outer * totalExtent ps * inner)) := by
  have hsub : List.range (outer * totalExtent ps * inner)
      ⊆ (placed outer inner (totalExtent ps) 0 ps).map Prod.fst := by
    intro k hk
    obtain ⟨b, i, hb, hi, rfl⟩ := exists_digits (List.mem_range.1 hk)
    obtain ⟨o, a, ho, ha, rfl⟩ := exists_digits hb
    exact mem_placed 0 hsize ho (Nat.zero_le _) (by omega) hi
  refine ((List.subperm_of_subset List.nodup_range hsub).perm_of_length_le ?_).symm
  rw [List.length_map, List.length_range, length_placed outer inner _ 0 hsize]

/-! ## Parts of the axis -/

variable {inputs : List (Buffer × Shape)} {p : Buffer × Shape} {a k : Nat}

theorem axisStart_cons (axis k : Nat) (p : Buffer × Shape) (inputs : List (Buffer × Shape)) :
    axisStart axis (p :: inputs) (k + 1) = axisExtent axis p + axisStart axis inputs k := by
  simp [axisStart]

theorem spans_cons_zero : Spans axis (p :: inputs) 0 a ↔ a < axisExtent axis p := by
  simp [Spans, axisStart]

theorem spans_cons_succ :
    Spans axis (p :: inputs) (k + 1) a ↔
      axisExtent axis p ≤ a ∧ Spans axis inputs k (a - axisExtent axis p) := by
  simp only [Spans, axisStart_cons, List.getElem?_cons_succ]
  constructor
  · rintro ⟨q, hq, hle, hlt⟩
    exact ⟨by omega, q, hq, by omega, by omega⟩
  · rintro ⟨hle, q, hq, hle', hlt⟩
    exact ⟨q, hq, by omega, by omega⟩

theorem exists_spans : ∀ {inputs : List (Buffer × Shape)} {a : Nat},
    a < (inputs.map (axisExtent axis)).sum → ∃ k, Spans axis inputs k a
  | [], a, h => by simp at h
  | p :: inputs, a, h => by
    rw [List.map_cons, List.sum_cons] at h
    by_cases ha : a < axisExtent axis p
    · exact ⟨0, spans_cons_zero.2 ha⟩
    · have hrest : a - axisExtent axis p < (inputs.map (axisExtent axis)).sum := by omega
      obtain ⟨k, hk⟩ := exists_spans hrest
      exact ⟨k + 1, spans_cons_succ.2 ⟨by omega, hk⟩⟩

/-- No place belongs to two inputs. -/
theorem Spans.unique : ∀ {inputs : List (Buffer × Shape)} {a k k' : Nat},
    Spans axis inputs k a → Spans axis inputs k' a → k = k'
  | [], _, _, _, ⟨_, h, _⟩, _ => by simp at h
  | p :: inputs, a, 0, 0, _, _ => rfl
  | p :: inputs, a, 0, k' + 1, h, h' => by
    have := spans_cons_zero.1 h
    have := (spans_cons_succ.1 h').1
    omega
  | p :: inputs, a, k + 1, 0, h, h' => by
    have := (spans_cons_succ.1 h).1
    have := spans_cons_zero.1 h'
    omega
  | p :: inputs, a, k + 1, k' + 1, h, h' =>
    congrArg (· + 1) ((spans_cons_succ.1 h).2.unique (spans_cons_succ.1 h').2)

/-- The words of the concatenation in the part of input `k`. -/
theorem joined_eq : ∀ {inputs : List (Buffer × Shape)} {k a : Nat} {p : Buffer × Shape},
    inputs[k]? = some p → Spans axis inputs k a → ∀ o i,
      joined inner (parts axis inputs) o a i
        = p.1[(o * axisExtent axis p + (a - axisStart axis inputs k)) * inner + i]?
  | [], _, _, _, hp, _, _, _ => by simp at hp
  | q :: inputs, 0, a, p, hp, h, o, i => by
    obtain rfl : q = p := by simpa using hp
    rw [parts, List.map_cons, joined, if_pos (spans_cons_zero.1 h)]
    rfl
  | q :: inputs, k + 1, a, p, hp, h, o, i => by
    obtain ⟨hle, h⟩ := spans_cons_succ.1 h
    rw [parts, List.map_cons, joined, if_neg (by omega), axisStart_cons, ← Nat.sub_sub]
    exact joined_eq (by simpa using hp) h o i

/-! ## The concatenation -/

/-- The buffer `y` is the concatenation of the inputs. -/
structure Joins (axis : Nat) (inputs : List (Buffer × Shape)) (y : Buffer) : Prop where
  size_eq : y.size = (joinedDims axis inputs).elements
  /-- Each index is in the part of one input. -/
  spans : ∀ x, List.Forall₂ (· < ·) x (joinedDims axis inputs) →
    ∃! k, Spans axis inputs k (x.getD axis 0)
  /-- There, the word is the one that this input has at the same index, less what stands before
  its part. -/
  word : ∀ x, List.Forall₂ (· < ·) x (joinedDims axis inputs) → ∀ k input, inputs[k]? = some input →
    Spans axis inputs k (x.getD axis 0) → ∃ w,
      y[rowMajor (joinedDims axis inputs) x]? = some w ∧
      input.1[rowMajor input.2 (x.set axis (x.getD axis 0 - axisStart axis inputs k))]? = some w

/-- The same inputs as a backend with layout `l` stores them. -/
def Reordered (l : Layout) : List (Buffer × Shape) → List (Buffer × Shape) → Prop :=
  List.Forall₂ fun p q => convert .nhwc l p.2 p.1 = some q.1 ∧ q.2 = l.storageDims p.2

theorem exists_reordered (l : Layout) : ∀ {inputs : List (Buffer × Shape)},
    (∀ p ∈ inputs, p.1.size = p.2.elements) →
      ∃ ys, StoresAll l (inputs.map Prod.snd) (inputs.map Prod.fst) ys ∧
        Reordered l inputs (ys.zip ((inputs.map Prod.snd).map l.storageDims))
  | [], _ => ⟨[], .nil, .nil⟩
  | p :: inputs, h => by
    obtain ⟨y, hy⟩ := exists_stores (l := l) (h p (by simp))
    obtain ⟨ys, hys, hr⟩ := exists_reordered l fun q hq => h q (List.mem_cons_of_mem p hq)
    exact ⟨y :: ys, .cons hy hys, .cons ⟨hy.converted, rfl⟩ hr⟩

section

variable {dims x : Shape} {total : Nat}

theorem withDims_parts (h : ∀ p ∈ inputs, dims.set axis (axisExtent axis p) = p.2) :
    withDims dims axis (parts axis inputs) = inputs := by
  rw [withDims, parts, List.map_map]
  conv_rhs => rw [← List.map_id inputs]
  exact List.map_congr_left fun p hp => Prod.ext rfl (h p hp)

theorem forall_parts (hdims : ∀ p ∈ inputs, dims.set axis (axisExtent axis p) = p.2)
    (hsize : ∀ p ∈ inputs, p.1.size = p.2.elements) :
    ∀ p ∈ parts axis inputs, p.1.size = Shape.elements (dims.set axis p.2) := by
  intro p hp
  obtain ⟨q, hq, rfl⟩ := List.mem_map.1 hp
  rw [hsize q hq, hdims q hq]

/-- An index of the output, split at the axis. -/
theorem exists_split (haxis : axis < dims.length)
    (hx : List.Forall₂ (· < ·) x (dims.set axis total)) :
    ∃ o i, o < Shape.elements (dims.take axis) ∧ i < Shape.elements (dims.drop (axis + 1)) ∧
      x.getD axis 0 < total ∧ ∀ e a, rowMajor (dims.set axis e) (x.set axis a)
        = (o * e + a) * Shape.elements (dims.drop (axis + 1)) + i := by
  have hlen : x.length = dims.length := by simpa using hx.length_eq
  have htake := List.forall₂_take axis hx
  have hdrop := List.forall₂_drop (axis + 1) hx
  rw [List.take_set, List.set_eq_of_length_le (by simp)] at htake
  rw [List.drop_set_of_lt (Nat.lt_succ_self _)] at hdrop
  refine ⟨_, _, rowMajor_lt htake, rowMajor_lt hdrop, ?_, fun e a => rowMajor_set hlen haxis⟩
  have hat := hx.get (hlen ▸ haxis) (by simpa using haxis)
  simpa [hlen ▸ haxis] using hat

end

namespace Joinable

variable {rank : Nat} {old y : Buffer}

/-- A concatenation is the fill with everything that it writes. -/
theorem concat_eq_fill (h : Joinable rank axis inputs)
    (hold : old.size = (joinedDims axis inputs).elements) :
    concat inputs axis old = Buffer.fill Prod.fst (fun p => some p.2) (writes axis inputs) old := by
  obtain ⟨dims, hrank, hdims, hjoined⟩ := h.exists_dims
  have haxis : axis < dims.length := hrank ▸ h.axis_lt
  have hne : parts axis inputs ≠ [] := by simpa [parts] using h.ne_nil
  have hconcat := concat_eq hne haxis old
  rw [hjoined, Shape.elements_set haxis, ← Nat.mul_assoc] at hold
  have hfill := placeInputs_eq haxis (parts axis inputs) 0 (fun p hp =>
    (forall_parts hdims h.size_eq p hp).trans (Shape.elements_set haxis p.2)) hold (Nat.zero_add _)
  rw [withDims_parts hdims] at hconcat hfill
  rw [hconcat, hfill, writes, hjoined, List.take_set, List.set_eq_of_length_le (by simp),
    List.drop_set_of_lt (Nat.lt_succ_self _)]

/-- It writes every index of the output once. -/
theorem perm_range (h : Joinable rank axis inputs) :
    ((writes axis inputs).map Prod.fst).Perm
      (List.range (joinedDims axis inputs).elements) := by
  obtain ⟨dims, hrank, hdims, hjoined⟩ := h.exists_dims
  have haxis : axis < dims.length := hrank ▸ h.axis_lt
  have hsize : ∀ p ∈ parts axis inputs, p.1.size = Shape.elements (dims.take axis) *
      (p.2 * Shape.elements (dims.drop (axis + 1))) := fun p hp =>
    (forall_parts hdims h.size_eq p hp).trans (Shape.elements_set haxis p.2)
  rw [writes, hjoined, List.take_set, List.set_eq_of_length_le (by simp),
    List.drop_set_of_lt (Nat.lt_succ_self _), Shape.elements_set haxis, ← Nat.mul_assoc]
  exact placed_perm hsize

/-- What it leaves is the concatenation. -/
theorem concat_joins (h : Joinable rank axis inputs)
    (hold : old.size = (joinedDims axis inputs).elements) :
    ∃ y, concat inputs axis old = some y ∧ Joins axis inputs y := by
  obtain ⟨dims, hrank, hdims, hjoined⟩ := h.exists_dims
  have haxis : axis < dims.length := hrank ▸ h.axis_lt
  have hne : parts axis inputs ≠ [] := by simpa [parts] using h.ne_nil
  obtain ⟨y, hy, hs, hat⟩ := concat_spec hne haxis (forall_parts hdims h.size_eq)
    (hold.trans (congrArg Shape.elements hjoined))
  rw [withDims_parts hdims] at hy
  have htotal : totalExtent (parts axis inputs) = (inputs.map (axisExtent axis)).sum := by
    rw [totalExtent, parts, List.map_map]
    rfl
  refine ⟨y, hy, hs.trans hold, fun x hx => ?_, fun x hx k p hp hspan => ?_⟩
  · rw [hjoined, htotal] at hx
    obtain ⟨_, _, -, -, hlt, -⟩ := exists_split haxis hx
    obtain ⟨k, hk⟩ := exists_spans hlt
    exact ⟨k, hk, fun k' hk' => hk'.unique hk⟩
  · have hindex := rowMajor_lt hx
    rw [← hold, ← hs] at hindex
    rw [hjoined] at hx
    obtain ⟨o, i, ho, hi, hlt, hsplit⟩ := exists_split haxis hx
    have hlen : axis < x.length := by
      rw [hx.length_eq, List.length_set]
      exact haxis
    have hself : x.set axis (x.getD axis 0) = x := by
      rw [List.getD_eq_getElem?_getD, List.getElem?_eq_getElem hlen, Option.getD_some,
        List.set_getElem_self]
    refine ⟨_, Array.getElem?_eq_getElem hindex, ?_⟩
    rw [← Array.getElem?_eq_getElem hindex, ← hdims p (List.mem_of_getElem? hp), hsplit,
      ← joined_eq hp hspan, ← hat o _ i ho hlt hi, hjoined, ← hsplit, hself]

/-- In every layout the inputs give the same words. -/
theorem exists_gives (h : Joinable rank axis inputs) :
    ∃ y, ∀ l, Kernel.Gives l
      (.concat ((inputs.map Prod.snd).map l.storageDims) (l.storageAxis rank axis))
      (inputs.map Prod.snd) (joinedDims axis inputs) (inputs.map Prod.fst) y := by
  obtain ⟨dims, rfl, hdims, hjoined⟩ := h.exists_dims
  have hshapes : ((parts axis inputs).map Prod.snd).map (dims.set axis ·)
      = inputs.map Prod.snd := by
    rw [parts, List.map_map, List.map_map]
    exact List.map_congr_left hdims
  have hsized := h.sized
  have hne : (parts axis inputs).map Prod.snd ≠ [] := by simpa [parts] using h.ne_nil
  obtain ⟨y, -, hgives⟩ := Kernel.concat_gives hne h.axis_lt (hshapes ▸ hsized)
  have hout : dims.set axis ((parts axis inputs).map Prod.snd).sum = joinedDims axis inputs :=
    hjoined.symm
  rw [hshapes, hout] at hgives
  exact ⟨y, hgives⟩

/-- The host stores the inputs as they are. -/
theorem concat_of_gives (h : Joinable rank axis inputs)
    (hy : Kernel.Gives .nhwc
      (.concat ((inputs.map Prod.snd).map (storageDims .nhwc)) (storageAxis .nhwc rank axis))
      (inputs.map Prod.snd) (joinedDims axis inputs) (inputs.map Prod.fst) y)
    (hold : old.size = (joinedDims axis inputs).elements) : concat inputs axis old = some y := by
  have hid : (storageDims .nhwc : Shape → Shape) = id := by
    funext s
    rfl
  have hzip : (inputs.map Prod.fst).zip ((inputs.map Prod.snd).map (storageDims .nhwc))
      = inputs := by
    rw [hid, List.map_id, ← List.zip_of_prod rfl rfl]
  have hcompute := hy.compute h.sized hold
  change concat ((inputs.map Prod.fst).zip _) axis old = _ at hcompute
  rwa [hzip] at hcompute

end Joinable

/-- **Concatenation.** It writes every index of the output once, and the element at index `x` is the
one of the input whose part of the axis holds `x[axis]`. In another layout the inputs give the same
result in that layout. -/
theorem concat_law {rank axis : Nat} {inputs : List (Buffer × Shape)}
    (h : Joinable rank axis inputs) :
    ((writes axis inputs).map Prod.fst).Perm (List.range (joinedDims axis inputs).elements) ∧
    ∃ y, Joins axis inputs y ∧
      (∀ old : Buffer, old.size = (joinedDims axis inputs).elements →
        concat inputs axis old = some y ∧
        concat inputs axis old
          = Buffer.fill Prod.fst (fun p => some p.2) (writes axis inputs) old) ∧
      ∀ l, ∃ inputs' z, Reordered l inputs inputs' ∧
        convert .nhwc l (joinedDims axis inputs) y = some z ∧
        ∀ old : Buffer, old.size = (joinedDims axis inputs).elements →
          concat inputs' (l.storageAxis rank axis) old = some z := by
  obtain ⟨y, hgives⟩ := h.exists_gives
  have hconcat {old : Buffer} (hold : old.size = (joinedDims axis inputs).elements) :=
    h.concat_of_gives (hgives .nhwc) hold
  obtain ⟨y', hy', hjoins⟩ := h.concat_joins (Buffer.size_zeros (joinedDims axis inputs).elements)
  obtain rfl : y = y' := Option.some.inj ((hconcat (Buffer.size_zeros _)).symm.trans hy')
  refine ⟨h.perm_range, y, hjoins, fun old hold => ⟨hconcat hold, h.concat_eq_fill hold⟩,
    fun l => ?_⟩
  obtain ⟨ys, hys, hr⟩ := exists_reordered l h.size_eq
  obtain ⟨z, hz, hcompute⟩ := hgives l ys hys
  exact ⟨_, z, hr, hz.converted, hcompute⟩

/-- Feature maps with one and with two channels, and the same two pixels. -/
def pixels : List (Buffer × Shape) :=
  [(#[⟨1⟩, ⟨2⟩], [1, 1, 2, 1]), (#[⟨3⟩, ⟨4⟩, ⟨5⟩, ⟨6⟩], [1, 1, 2, 2])]

theorem pixels_joinable : Joinable 4 3 pixels where
  ne_nil := by simp [pixels]
  axis_lt := by decide
  rank_eq := by simp [pixels]
  off_axis p hp q hq k hk := by
    have hk' : ∀ a, [1, 1, 2, a][k]? = [1, 1, 2, 1][k]? := by
      intro a
      match k, hk with
      | 0, _ | 1, _ | 2, _ | _ + 4, _ => rfl
    simp only [pixels, List.mem_cons, List.not_mem_nil, or_false] at hp hq
    obtain rfl | rfl := hp <;> obtain rfl | rfl := hq <;> simp only [hk']
  size_eq := by simp [pixels, Shape.elements]

/-- The channels of each pixel are joined; channel first, those of the first map come first. -/
theorem concat_law_pixels :
    Joinable 4 3 pixels ∧ ∃ y, Joins 3 pixels y ∧ concat pixels 3 (Buffer.zeros 6) = some y ∧
      y = #[⟨1⟩, ⟨3⟩, ⟨4⟩, ⟨2⟩, ⟨5⟩, ⟨6⟩] ∧
      ∃ inputs' z, Reordered .nchw pixels inputs' ∧ convert .nhwc .nchw [1, 1, 2, 3] y = some z ∧
        concat inputs' 1 (Buffer.zeros 6) = some z ∧ z = #[⟨1⟩, ⟨2⟩, ⟨3⟩, ⟨5⟩, ⟨4⟩, ⟨6⟩] := by
  obtain ⟨-, y, hjoins, hconcat, hlayout⟩ := concat_law pixels_joinable
  obtain ⟨inputs', z, hr, hz, hconcat'⟩ := hlayout .nchw
  have hy := (hconcat (Buffer.zeros 6) rfl).1
  obtain rfl : #[⟨1⟩, ⟨3⟩, ⟨4⟩, ⟨2⟩, ⟨5⟩, ⟨6⟩] = y := Option.some.inj hy
  obtain rfl : #[⟨1⟩, ⟨2⟩, ⟨3⟩, ⟨5⟩, ⟨4⟩, ⟨6⟩] = z := Option.some.inj hz
  exact ⟨pixels_joinable, _, hjoins, hy, rfl, inputs', _, hr, hz, hconcat' _ rfl, rfl⟩

end Compute

end HeteroNet
