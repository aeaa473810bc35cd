import HeteroNet.Geometry
import HeteroNet.Proofs.Kernel.Windows

/-
Fully connected layers and softmax. Both compute whole lines of a buffer: a layer takes dot
products of the rows of its input, softmax goes along one axis. The lines of a row-major matrix are
the same in both layouts; the lines along the channels of a feature map are found in different
places, but hold the same words.
-/

namespace HeteroNet

open Layout

/-! ## Fully connected layers -/

namespace Compute

/-- The word of unit `u` for row `r`. -/
def unitWord (size : Nat) (x w b : Buffer) (act : Activation) (r u : Nat) : Option Word := do
  let row ← x.slice (r * size) ((r + 1) * size)
  let ws ← w.slice (u * size) ((u + 1) * size)
  return act.apply ((dot row ws).add (← b.read u))

variable {batch size units : Nat} {x w b : Buffer}

theorem unitWord_activation (act : Activation) (r u : Nat) :
    unitWord size x w b act r u = (unitWord size x w b .none r u).map act.apply := by
  unfold unitWord
  cases x.slice (r * size) ((r + 1) * size) with
  | none => rfl
  | some row =>
    simp only [Option.bind_eq_bind, Option.bind_some]
    cases w.slice (u * size) ((u + 1) * size) with
    | none => rfl
    | some ws => cases b.read u <;> rfl

theorem unitWord_isSome (hx : x.size = batch * size) (hw : w.size = units * size)
    (hb : b.size = units) {r u : Nat} (hr : r < batch) (hu : u < units) (act : Activation) :
    (unitWord size x w b act r u).isSome := by
  simp [unitWord, Buffer.slice_row hx hr, Buffer.slice_row hw hu, hb, hu]

theorem fullyConnected_eq (hx : x.size = batch * size) (hb : b.size = units) (act : Activation)
    (old : Buffer) :
    fullyConnected batch size x w b act old
      = Buffer.fill (fun p : Nat × Nat => p.1 * units + p.2)
          (fun p => unitWord size x w b act p.1 p.2)
          ((List.range batch).flatMap fun r => (List.range units).map fun u => (r, u)) old := by
  rw [← Buffer.foldlM_fill (fun _ => List.range units) (fun r u => r * units + u)
    (fun r u => unitWord size x w b act r u), fullyConnected, Loop.count_eq]
  refine foldlM_congr (fun out r hr => ?_) old
  simp only [Buffer.slice_row hx (List.mem_range.1 hr), Option.bind_eq_bind, Option.bind_some, hb,
    unitWord]

/-- **A fully connected layer** writes every word of its output. -/
theorem fullyConnected_fills (hx : x.size = batch * size) (hw : w.size = units * size)
    (hb : b.size = units) :
    ∃ y : Buffer, y.size = batch * units ∧ ∀ act (old : Buffer), old.size = batch * units →
      fullyConnected batch size x w b act old = some (activate act y) := by
  have hmem : ∀ {p : Nat × Nat}, p ∈ ((List.range batch).flatMap fun r =>
      (List.range units).map fun u => (r, u)) ↔ p.1 < batch ∧ p.2 < units := by
    rintro ⟨r, u⟩
    simp [List.mem_flatMap]
  have hfill : ∀ act (old : Buffer), old.size = batch * units →
      ∃ z, fullyConnected batch size x w b act old = some z ∧ z.size = batch * units ∧
        ∀ r u, r < batch → u < units →
          z[r * units + u]? = unitWord size x w b act r u := by
    intro act old hold
    obtain ⟨z, hz, hs, hat, -⟩ := Buffer.fill_spec (fun p : Nat × Nat => p.1 * units + p.2)
      (fun p => unitWord size x w b act p.1 p.2)
      ((List.range batch).flatMap fun r => (List.range units).map fun u => (r, u)) (b := old)
      (fun p hp => hold ▸ digits_lt (hmem.1 hp).1 (hmem.1 hp).2)
      (fun p hp => unitWord_isSome hx hw hb (hmem.1 hp).1 (hmem.1 hp).2 act)
      (fun p hp q hq h => by
        obtain ⟨h₁, h₂⟩ := digits_injective (hmem.1 hp).2 (hmem.1 hq).2 h
        rw [h₁, h₂])
    exact ⟨z, (fullyConnected_eq hx hb act old).trans hz, hs.trans hold,
      fun r u hr hu => hat (r, u) (hmem.2 ⟨hr, hu⟩)⟩
  obtain ⟨y, -, hy, hat⟩ := hfill .none (Buffer.zeros (batch * units)) (by simp)
  refine ⟨y, hy, fun act old hold => ?_⟩
  obtain ⟨z, hz, hs, hat'⟩ := hfill act old hold
  rw [hz, Option.some.injEq]
  refine Buffer.ext_of_lt hs ((size_activate act y).trans hy) fun k hk => ?_
  obtain ⟨r, u, hr, hu, rfl⟩ := exists_digits hk
  rw [hat' r u hr hu, getElem?_activate, hat r u hr hu, unitWord_activation]

end Compute

open Compute

/-- The input may have any shape that is stored in logical order. -/
theorem Kernel.fullyConnected_gives {batch size units : Nat} {x w b : Buffer}
    (hx : x.size = batch * size) (hw : w.size = units * size) (hb : b.size = units) :
    ∃ y : Buffer, y.size = batch * units ∧ ∀ l s act, l = .nhwc ∨ s.feature? = none →
      Gives l (.fullyConnected batch size act) [s, [units, size], [units]] [batch, units] [x, w, b]
        (activate act y) := by
  obtain ⟨y, hy, hfill⟩ := fullyConnected_fills hx hw hb
  have hout : Shape.elements [batch, units] = batch * units := by simp [Shape.elements]
  refine ⟨y, hy, fun l s act hl ys hys => ?_⟩
  obtain ⟨x', _, rfl, hx', hys⟩ := StoresAll.cons_iff.1 hys
  obtain ⟨w', _, rfl, hw', hys⟩ := StoresAll.cons_iff.1 hys
  obtain ⟨b', _, rfl, hb', hys⟩ := StoresAll.cons_iff.1 hys
  obtain rfl := StoresAll.nil_iff.1 hys
  obtain rfl := hw'.eq_of_feature?_none rfl
  obtain rfl := hb'.eq_of_feature?_none rfl
  obtain rfl : x' = x := by
    rcases hl with rfl | hs
    · exact hx'.eq_of_nhwc
    · exact hx'.eq_of_feature?_none hs
  exact ⟨_, .of_feature?_none rfl ((size_activate act y).trans (hy.trans hout.symm)),
    fun old hold => hfill act old (hold.trans hout)⟩

/-! ## Softmax -/

namespace Compute

variable {outer axisLen inner : Nat} {x : Buffer} {beta : Word}

theorem softmaxAt_lt {o i a : Nat} (ho : o < outer) (hi : i < inner) (ha : a < axisLen) :
    softmaxAt axisLen inner o i a < outer * axisLen * inner :=
  digits_lt (digits_lt ho ha) hi

theorem softmaxAt_injective {o o' i i' a a' : Nat} (hi : i < inner) (hi' : i' < inner)
    (ha : a < axisLen) (ha' : a' < axisLen)
    (h : softmaxAt axisLen inner o i a = softmaxAt axisLen inner o' i' a') :
    o = o' ∧ i = i' ∧ a = a' := by
  obtain ⟨h, hi⟩ := digits_injective hi hi' h
  obtain ⟨ho, ha⟩ := digits_injective ha ha' h
  exact ⟨ho, hi, ha⟩

/-- The line at `(o, i)`. -/
def line (axisLen inner : Nat) (x : Buffer) (o i : Nat) : List Word :=
  ((List.range axisLen).mapM fun a => x.read (softmaxAt axisLen inner o i a)).getD []

theorem gather_line (hx : x.size = outer * axisLen * inner) {o i : Nat} (ho : o < outer)
    (hi : i < inner) :
    (Loop.gather axisLen fun a => x.read (softmaxAt axisLen inner o i a))
      = some (line axisLen inner x o i) := by
  have hsome : ((List.range axisLen).mapM fun a =>
      x.read (softmaxAt axisLen inner o i a)).isSome := by
    refine mapM_isSome fun a ha => ?_
    simp [hx, softmaxAt_lt ho hi (List.mem_range.1 ha)]
  obtain ⟨ws, hws⟩ := Option.isSome_iff_exists.1 hsome
  rw [Loop.gather_eq, line, hws]
  rfl

theorem length_of_mapM {α β : Type} {f : α → Option β} :
    ∀ {l : List α} {bs : List β}, l.mapM f = some bs → bs.length = l.length
  | [], bs, h => by
    simp only [List.mapM_nil, Option.pure_def, Option.some.injEq] at h
    rw [← h]
    rfl
  | a :: l, bs, h => by
    simp only [List.mapM_cons, Option.bind_eq_bind, Option.bind_eq_some_iff, Option.pure_def,
      Option.some.injEq] at h
    obtain ⟨b, -, bs', hbs, rfl⟩ := h
    rw [List.length_cons, List.length_cons, length_of_mapM hbs]

theorem length_softmaxLine (beta : Word) (xs : List Word) :
    (softmaxLine beta xs).length = xs.length := by
  simp [softmaxLine]

theorem length_line (hx : x.size = outer * axisLen * inner) {o i : Nat} (ho : o < outer)
    (hi : i < inner) : (line axisLen inner x o i).length = axisLen := by
  have h := gather_line hx ho hi
  rw [Loop.gather_eq] at h
  simpa using length_of_mapM h

/-- What softmax writes: the line, the word, and its place on the line. -/
def softened (outer axisLen inner : Nat) (beta : Word) (x : Buffer) :
    List ((Nat × Nat) × Word × Nat) :=
  ((List.range outer).flatMap fun o => (List.range inner).map fun i => (o, i)).flatMap
    fun r => (softmaxLine beta (line axisLen inner x r.1 r.2)).zipIdx.map fun i => (r, i)

theorem mem_softened {p : (Nat × Nat) × Word × Nat} :
    p ∈ softened outer axisLen inner beta x ↔ p.1.1 < outer ∧ p.1.2 < inner ∧
      (softmaxLine beta (line axisLen inner x p.1.1 p.1.2))[p.2.2]? = some p.2.1 := by
  obtain ⟨⟨o, i⟩, w, a⟩ := p
  simp only [softened, List.mem_flatMap, List.mem_map, List.mem_range, Prod.mk.injEq, Prod.exists,
    List.mk_mem_zipIdx_iff_getElem?]
  constructor
  · rintro ⟨_, _, ⟨_, ho, _, hi, rfl, rfl⟩, _, _, hw, ⟨rfl, rfl⟩, rfl, rfl⟩
    exact ⟨ho, hi, hw⟩
  · rintro ⟨ho, hi, hw⟩
    exact ⟨o, i, ⟨o, ho, i, hi, rfl, rfl⟩, w, a, hw, ⟨rfl, rfl⟩, rfl, rfl⟩

theorem softmax_eq (hx : x.size = outer * axisLen * inner) (old : Buffer) :
    softmax outer axisLen inner beta x old
      = Buffer.fill (fun p => softmaxAt axisLen inner p.1.1 p.1.2 p.2.2) (fun p => some p.2.1)
          (softened outer axisLen inner beta x) old := by
  rw [softened, ← Buffer.foldlM_fill
    (fun r : Nat × Nat => (softmaxLine beta (line axisLen inner x r.1 r.2)).zipIdx)
    (fun r (p : Word × Nat) => softmaxAt axisLen inner r.1 r.2 p.2) (fun _ p => some p.1),
    Loop.foldlM_flatMap, softmax, Loop.count_eq]
  refine foldlM_congr (fun out o ho => ?_) old
  rw [Loop.count_eq, List.foldlM_map]
  refine foldlM_congr (fun out i hi => ?_) out
  rw [softmaxAlong, gather_line hx (List.mem_range.1 ho) (List.mem_range.1 hi)]
  rfl

/-- Softmax puts the words of every line where the line was read. -/
theorem softmax_lines (beta : Word) (hx : x.size = outer * axisLen * inner) {old : Buffer}
    (hold : old.size = outer * axisLen * inner) :
    ∃ y, softmax outer axisLen inner beta x old = some y ∧ y.size = outer * axisLen * inner ∧
      ∀ o i a, o < outer → i < inner → a < axisLen →
        y[softmaxAt axisLen inner o i a]?
          = (softmaxLine beta (line axisLen inner x o i))[a]? := by
  have hlen : ∀ {o i}, o < outer → i < inner →
      (softmaxLine beta (line axisLen inner x o i)).length = axisLen := by
    intro o i ho hi
    rw [length_softmaxLine, length_line hx ho hi]
  have hlt : ∀ {p}, p ∈ softened outer axisLen inner beta x → p.2.2 < axisLen := by
    intro p hp
    obtain ⟨ho, hi, hw⟩ := mem_softened.1 hp
    exact hlen ho hi ▸ (List.getElem?_eq_some_iff.1 hw).1
  obtain ⟨y, hy, hs, hat, -⟩ := Buffer.fill_spec
    (fun p : (Nat × Nat) × Word × Nat => softmaxAt axisLen inner p.1.1 p.1.2 p.2.2)
    (fun p => some p.2.1) (softened outer axisLen inner beta x) (b := old)
    (fun p hp => hold ▸ softmaxAt_lt (mem_softened.1 hp).1 (mem_softened.1 hp).2.1 (hlt hp))
    (fun _ _ => rfl)
    (fun p hp q hq h => by
      obtain ⟨-, hi, hw⟩ := mem_softened.1 hp
      obtain ⟨-, hi', hw'⟩ := mem_softened.1 hq
      obtain ⟨h₁, h₂, h₃⟩ := softmaxAt_injective hi hi' (hlt hp) (hlt hq) h
      rw [← hw, ← hw', h₁, h₂, h₃])
  refine ⟨y, (softmax_eq hx old).trans hy, hs.trans hold, fun o i a ho hi ha => ?_⟩
  have hw := List.getElem?_eq_getElem (lt_of_lt_of_eq ha (hlen ho hi).symm)
  rw [hw]
  exact hat ((o, i), _, a) (mem_softened.2 ⟨ho, hi, hw⟩)

/-- **Softmax** replaces every line. -/
theorem softmax_fills (beta : Word) (hx : x.size = outer * axisLen * inner) :
    ∃ y : Buffer, y.size = outer * axisLen * inner ∧
      (∀ old : Buffer, old.size = outer * axisLen * inner →
        softmax outer axisLen inner beta x old = some y) ∧
      ∀ o i a, o < outer → i < inner → a < axisLen →
        y[softmaxAt axisLen inner o i a]? = (softmaxLine beta (line axisLen inner x o i))[a]? := by
  obtain ⟨y, -, hy, hat⟩ :=
    softmax_lines beta hx (Buffer.size_zeros (outer * axisLen * inner))
  refine ⟨y, hy, fun old hold => ?_, hat⟩
  obtain ⟨z, hz, hs, hat'⟩ := softmax_lines beta hx hold
  rw [hz, Option.some.injEq]
  refine Buffer.ext_of_lt hs hy fun k hk => ?_
  obtain ⟨b, i, hb, hi, rfl⟩ := exists_digits hk
  obtain ⟨o, a, ho, ha, rfl⟩ := exists_digits hb
  exact (hat' o i a ho hi ha).trans (hat o i a ho hi ha).symm

end Compute

namespace Kernel

/-- The softmax of a matrix goes along its rows. -/
theorem softmax_gives_matrix {r c : Nat} {x : Buffer} (beta : Word)
    (hx : x.size = Shape.elements [r, c]) :
    ∃ y : Buffer, y.size = Shape.elements [r, c] ∧ ∀ l,
      Gives l (.softmax (Shape.elements [r]) c 1 beta) [[r, c]] [r, c] [x] y := by
  have he : Shape.elements [r, c] = Shape.elements [r] * c * 1 := by simp [Shape.elements]
  obtain ⟨y, hy, hfill, -⟩ := softmax_fills beta (hx.trans he)
  refine ⟨y, hy.trans he.symm, fun l ys hys => ?_⟩
  obtain ⟨x', _, rfl, hx', hys⟩ := StoresAll.cons_iff.1 hys
  obtain rfl := StoresAll.nil_iff.1 hys
  obtain rfl := hx'.eq_of_feature?_none rfl
  exact ⟨y, .of_feature?_none rfl (hy.trans he.symm), fun old hold => hfill old (hold.trans he)⟩

variable {f p : Feature} {x x' : Buffer}

theorem elements_rows (f : Feature) : f.elements = Shape.elements [f.n, f.h, f.w] * f.c * 1 := by
  simp only [Feature.elements, Shape.elements]
  ring

theorem elements_planes (f : Feature) : f.elements = f.n * f.c * (f.h * f.w) := by
  rw [f.elements_eq]
  ring

/-- The line of channels through a position, in logical order. -/
theorem offset_row (f p : Feature) (a : Nat) :
    Layout.nhwc.offset f ⟨p.n, p.h, p.w, a⟩
      = softmaxAt f.c 1 ((p.n * f.h + p.h) * f.w + p.w) 0 a := by
  simp [offset, softmaxAt]

/-- The same line, channel first. -/
theorem offset_plane (f p : Feature) (a : Nat) :
    Layout.nchw.offset f ⟨p.n, p.h, p.w, a⟩
      = softmaxAt f.c (f.h * f.w) p.n (p.h * f.w + p.w) a := by
  simp only [offset, softmaxAt]
  ring

theorem row_lt (hp : f.Contains p) :
    (p.n * f.h + p.h) * f.w + p.w < Shape.elements [f.n, f.h, f.w] := by
  have he : Shape.elements [f.n, f.h, f.w] = f.n * f.h * f.w := by
    simp only [Shape.elements]
    ring
  rw [he]
  exact digits_lt (digits_lt hp.1 hp.2.1) hp.2.2.1

/-- The two lines hold the same words. -/
theorem line_stored (hx : Stores .nchw f.dims x x') (hp : f.Contains p) :
    line f.c (f.h * f.w) x' p.n (p.h * f.w + p.w)
      = line f.c 1 x ((p.n * f.h + p.h) * f.w + p.w) 0 := by
  unfold line
  congr 1
  refine mapM_congr fun a ha => ?_
  have hq : f.Contains ⟨p.n, p.h, p.w, a⟩ := ⟨hp.1, hp.2.1, hp.2.2.1, List.mem_range.1 ha⟩
  rw [← offset_plane, ← offset_row]
  exact (Stores.iff_dims.1 hx).2.2 _ hq

/-- **The softmax of a feature map** goes along its channels, in either layout. -/
theorem softmax_gives_feature (beta : Word) (hx : x.size = f.elements) :
    ∃ y : Buffer, y.size = f.elements ∧
      Gives .nhwc (.softmax (Shape.elements [f.n, f.h, f.w]) f.c 1 beta) [f.dims] f.dims [x] y ∧
      Gives .nchw (.softmax f.n f.c (f.h * f.w) beta) [f.dims] f.dims [x] y := by
  obtain ⟨y, hy, hfill, hat⟩ := softmax_fills beta (hx.trans (elements_rows f))
  have hys : y.size = f.elements := hy.trans (elements_rows f).symm
  refine ⟨y, hys, fun ys hst => ?_, fun ys hst => ?_⟩
  · obtain ⟨x', _, rfl, hx', hst⟩ := StoresAll.cons_iff.1 hst
    obtain rfl := StoresAll.nil_iff.1 hst
    obtain rfl := hx'.eq_of_nhwc
    refine ⟨y, stores_nhwc (hys.trans (Shape.elements_dims f).symm), fun old hold => hfill old ?_⟩
    rw [hold, Shape.elements_dims, elements_rows]
  · obtain ⟨x', _, rfl, hx', hst⟩ := StoresAll.cons_iff.1 hst
    obtain rfl := StoresAll.nil_iff.1 hst
    obtain ⟨z, hz, hfill', hat'⟩ := softmax_fills beta
      ((hx'.size.trans (Shape.elements_dims f)).trans (elements_planes f))
    refine ⟨z, Stores.iff_dims.2 ⟨hys, hz.trans (elements_planes f).symm, fun p hp => ?_⟩,
      fun old hold => hfill' old ?_⟩
    · have hplane : p.h * f.w + p.w < f.h * f.w := digits_lt hp.2.1 hp.2.2.1
      rw [offset_plane f p p.c, offset_row f p p.c,
        hat' p.n (p.h * f.w + p.w) p.c hp.1 hplane hp.2.2.2,
        hat _ 0 p.c (row_lt hp) Nat.zero_lt_one hp.2.2.2, line_stored hx' hp]
    · rw [hold, Shape.elements_dims, elements_planes]

/-- Softmax along the last logical axis, for the ranks it is defined for. -/
theorem softmax_gives {s : Shape} (hs : s.rank = 2 ∨ s.rank = 4) {x : Buffer} (beta : Word)
    (hx : x.size = s.elements) :
    ∃ y : Buffer, y.size = s.elements ∧ ∀ l,
      Gives l (.softmax (Geometry.softmaxExtents s l).1 (Geometry.softmaxExtents s l).2.1
        (Geometry.softmaxExtents s l).2.2 beta) [s] s [x] y := by
  rcases hs with hs | hs
  · obtain ⟨r, c, rfl⟩ := List.length_eq_two.1 hs
    obtain ⟨y, hy, hgives⟩ := softmax_gives_matrix beta hx
    refine ⟨y, hy, fun l => ?_⟩
    cases l with
    | nhwc => exact hgives .nhwc
    | nchw => exact hgives .nchw
  · obtain ⟨f, rfl⟩ : ∃ f : Feature, s = f.dims := by
      match s, hs with
      | [n, h, w, c], _ => exact ⟨⟨n, h, w, c⟩, rfl⟩
    obtain ⟨y, hy, hhost, hdevice⟩ :=
      softmax_gives_feature beta (hx.trans (Shape.elements_dims f))
    refine ⟨y, hy.trans (Shape.elements_dims f).symm, fun l => ?_⟩
    cases l with
    | nhwc => exact hhost
    | nchw => exact hdevice

end Kernel

end HeteroNet
