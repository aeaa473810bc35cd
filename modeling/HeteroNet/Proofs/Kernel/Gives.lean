import HeteroNet.Kernel
import HeteroNet.Proofs.Storage.Stored

/-
What a kernel gives, said of logical words. `Gives l k shapes out xs y` holds if the kernel, run on
buffers that store `xs` in layout `l`, leaves a buffer that stores `y`, whatever the output held
before. So it holds of one `y` for both layouts if the kernel computes the same in both.

This module has the kernels that treat each element by itself, and those that only move elements.
-/

namespace HeteroNet

open Layout

/-- Buffers that store logical tensors, one by one. -/
inductive StoresAll (l : Layout) : List Shape → List Buffer → List Buffer → Prop
  | nil : StoresAll l [] [] []
  | cons {s : Shape} {x y : Buffer} {ss : List Shape} {xs ys : List Buffer} :
    Stores l s x y → StoresAll l ss xs ys → StoresAll l (s :: ss) (x :: xs) (y :: ys)

namespace StoresAll

variable {l : Layout} {s : Shape} {x y : Buffer} {ss : List Shape} {xs ys : List Buffer}

theorem cons_iff : StoresAll l (s :: ss) (x :: xs) ys ↔
    ∃ y ys', ys = y :: ys' ∧ Stores l s x y ∧ StoresAll l ss xs ys' := by
  constructor
  · rintro (_ | ⟨h, hs⟩)
    exact ⟨_, _, rfl, h, hs⟩
  · rintro ⟨y, ys', rfl, h, hs⟩
    exact .cons h hs

theorem nil_iff : StoresAll l [] [] ys ↔ ys = [] := by
  constructor
  · rintro ⟨⟩
    rfl
  · rintro rfl
    exact .nil

end StoresAll

/-- Logical words for tensors of the given shapes. -/
def Sized (ss : List Shape) (xs : List Buffer) : Prop :=
  List.Forall₂ (fun s (x : Buffer) => x.size = s.elements) ss xs

theorem Sized.storesAll {ss : List Shape} {xs : List Buffer} (h : Sized ss xs) :
    StoresAll .nhwc ss xs xs := by
  induction h with
  | nil => exact .nil
  | cons h _ ih => exact .cons (stores_nhwc h) ih

/-- Buffers of the right sizes store some logical words. -/
theorem Sized.exists_storesAll {l : Layout} {ss : List Shape} {ys : List Buffer} (h : Sized ss ys) :
    ∃ xs, Sized ss xs ∧ StoresAll l ss xs ys := by
  induction h with
  | nil => exact ⟨[], .nil, .nil⟩
  | cons h _ ih =>
    obtain ⟨xs, hxs, hs⟩ := ih
    obtain ⟨x, hx⟩ := exists_stored (l := l) h
    exact ⟨x :: xs, .cons hx.words hxs, .cons hx hs⟩

namespace Kernel

/-- On buffers that store `xs`, the kernel leaves one that stores `y`. -/
def Gives (l : Layout) (k : Kernel) (shapes : List Shape) (out : Shape) (xs : List Buffer)
    (y : Buffer) : Prop :=
  ∀ ys, StoresAll l shapes xs ys → ∃ z, Stores l out y z ∧
    ∀ old : Buffer, old.size = out.elements → k.compute l ys old = some z

/-- On the host, what a kernel gives is what it computes. -/
theorem Gives.compute {k : Kernel} {shapes : List Shape} {out : Shape} {xs : List Buffer}
    {y old : Buffer} (h : Gives .nhwc k shapes out xs y) (hxs : Sized shapes xs)
    (hold : old.size = out.elements) : k.compute .nhwc xs old = some y := by
  obtain ⟨z, hz, hk⟩ := h xs hxs.storesAll
  rw [hk old hold, hz.eq_of_nhwc]

end Kernel

/-! ## Elements treated by themselves -/

namespace Layout.Stores

variable {l : Layout} {s : Shape} {x x' y y' : Buffer}

theorem map (h : Stores l s x y) (g : Word → Word) : Stores l s (x.map g) (y.map g) := by
  cases hs : s.feature? with
  | none =>
    rw [h.eq_of_feature?_none hs]
    exact .of_feature?_none hs (by simpa using h.words)
  | some f =>
    obtain rfl := Shape.feature?_eq_some.1 hs
    obtain ⟨hx, hy, hat⟩ := iff_dims.1 h
    refine iff_dims.2 ⟨by simpa using hx, by simpa using hy, fun p hp => ?_⟩
    rw [Array.getElem?_map, Array.getElem?_map, hat p hp]

theorem zipWith (h : Stores l s x y) (h' : Stores l s x' y') (g : Word → Word → Word) :
    Stores l s (Array.zipWith g x x') (Array.zipWith g y y') := by
  cases hs : s.feature? with
  | none =>
    rw [h.eq_of_feature?_none hs, h'.eq_of_feature?_none hs]
    exact .of_feature?_none hs (by simp [h.words, h'.words])
  | some f =>
    obtain rfl := Shape.feature?_eq_some.1 hs
    obtain ⟨hx, hy, hat⟩ := iff_dims.1 h
    obtain ⟨hx', hy', hat'⟩ := iff_dims.1 h'
    refine iff_dims.2 ⟨by simp [hx, hx'], by simp [hy, hy'], fun p hp => ?_⟩
    rw [Array.getElem?_zipWith, Array.getElem?_zipWith, hat p hp, hat' p hp]

end Layout.Stores

namespace Compute

theorem activate_none (b : Buffer) : activate .none b = b := by
  have hid : Activation.none.apply = id := rfl
  rw [activate, hid, Array.map_id]

theorem size_activate (act : Activation) (b : Buffer) : (activate act b).size = b.size := by
  simp [activate]

theorem getElem?_activate (act : Activation) (b : Buffer) (k : Nat) :
    (activate act b)[k]? = b[k]?.map act.apply := by
  simp [activate]

/-- A fill of every index of a buffer. -/
theorem fill_range {n : Nat} {f : Nat → Word} {value : Nat → Option Word} {old z : Buffer}
    (hold : old.size = n) (hz : z.size = n) (hvalue : ∀ k, k < n → value k = some (f k))
    (hat : ∀ k, k < n → z[k]? = some (f k)) :
    Buffer.fill id value (List.range n) old = some z := by
  obtain ⟨b', hb', hsize, hat', -⟩ := Buffer.fill_spec id value (List.range n) (b := old)
    (fun p hp => by simpa [hold] using List.mem_range.1 hp)
    (fun p hp => by simp [hvalue p (List.mem_range.1 hp)])
    (fun p _ q _ h => by rw [id_eq, id_eq] at h; rw [h])
  rw [hb', Option.some.injEq]
  refine Buffer.ext_of_lt (hsize.trans hold) hz fun k hk => ?_
  rw [hat k hk, ← hvalue k hk]
  exact hat' k (List.mem_range.2 hk)

end Compute

namespace Kernel

open Compute

theorem activation_compute (l : Layout) (act : Activation) (ins : List Buffer) (old : Buffer) :
    (Kernel.activation act).compute l ins old = some (activate act old) := rfl

theorem add_gives (l : Layout) (act : Activation) {s : Shape} {x x' : Buffer} :
    Gives l (.add act) [s, s] s [x, x'] (activate act (Array.zipWith Word.add x x')) := by
  rintro ys hys
  obtain ⟨y, _, rfl, hy, hys⟩ := StoresAll.cons_iff.1 hys
  obtain ⟨y', _, rfl, hy', hys⟩ := StoresAll.cons_iff.1 hys
  obtain rfl := StoresAll.nil_iff.1 hys
  refine ⟨_, (hy.zipWith hy' Word.add).map act.apply, fun old hold => ?_⟩
  have hmin : min old.size (min y.size y'.size) = s.elements := by
    rw [hold, hy.size, hy'.size]
    simp
  change Compute.add y y' act old = _
  rw [Compute.add, hmin]
  refine fill_range (f := fun k => act.apply ((y[k]?.getD default).add (y'[k]?.getD default)))
    hold (by simp [hy.size, hy'.size]) (fun k hk => ?_) fun k hk => ?_
  · simp [hy.size, hy'.size, hk]
  · simp [hy.size, hy'.size, hk]

/-- The word that a conversion makes of each word. -/
def castWord (source target : TypeInfo) (w : Word) : Word :=
  if source.same target then w else target.word (source.real w)

theorem cast_gives (l : Layout) (source target : TypeInfo) {s : Shape} {x : Buffer} :
    Gives l (.cast source target) [s] s [x] (x.map (castWord source target)) := by
  rintro ys hys
  obtain ⟨y, _, rfl, hy, hys⟩ := StoresAll.cons_iff.1 hys
  obtain rfl := StoresAll.nil_iff.1 hys
  refine ⟨_, hy.map _, fun old hold => ?_⟩
  change Compute.cast source target y old = _
  unfold Compute.cast
  by_cases hsame : source.same target
  · have hid : castWord source target = id := by
      funext w
      simp [castWord, hsame]
    have hle : old.size ≤ y.size := by rw [hold, hy.size]
    simp only [hsame, if_true, hle, hid, Array.map_id, Option.some.injEq]
    rw [hold, ← hy.size, Array.extract_size]
  · have hmin : min old.size y.size = s.elements := by rw [hold, hy.size, Nat.min_self]
    rw [if_neg hsame, hmin]
    refine fill_range (f := fun k => castWord source target (y[k]?.getD default)) hold
      (by simp [hy.size]) (fun k hk => ?_) fun k hk => ?_
    · simp [hy.size, hk, castWord, hsame]
    · simp [hy.size, hk]

/-! ## Elements moved -/

theorem copy_gives (l : Layout) {s : Shape} {x : Buffer} : Gives l .copy [s] s [x] x := by
  rintro ys hys
  obtain ⟨y, _, rfl, hy, hys⟩ := StoresAll.cons_iff.1 hys
  obtain rfl := StoresAll.nil_iff.1 hys
  refine ⟨y, hy, fun old hold => ?_⟩
  change old.replace y = _
  rw [Buffer.replace, if_pos (hy.size.trans hold.symm)]

theorem reshape_gives (l : Layout) {s t : Shape} {x : Buffer} (h : s.elements = t.elements) :
    Gives l (.reshape s t) [s] t [x] x := by
  rintro ys hys
  obtain ⟨y, _, rfl, hy, hys⟩ := StoresAll.cons_iff.1 hys
  obtain rfl := StoresAll.nil_iff.1 hys
  obtain ⟨z, hz⟩ := exists_stores (l := l) (s := t) (hy.words.trans h)
  refine ⟨z, hz, fun old hold => ?_⟩
  have hread : (Kernel.reshape s t).compute l [y] old = old.replace z := by
    simp [compute, hy.back, hz.converted]
  rw [hread, Buffer.replace, if_pos (hz.size.trans hold.symm)]

end Kernel

end HeteroNet
