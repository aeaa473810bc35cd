import HeteroNet.Proofs.Plan.Assembled
import HeteroNet.Proofs.Plan.Draft
import HeteroNet.Proofs.Plan.Made

/-
Filling the constants. Every constant that an operation reads has an initializer, which stores its
words in each of its tensors; all other tensors keep the zeros they were given. So a new plan has
in its tensors what `initial` says.
-/

namespace HeteroNet

open Operation Model Layout

variable {W : CellId → Prop} {D : Prop} {os : Operands} {sites : List Site} {m₀ m : Machine}
  {bs : List TensorBuilder} {E : CellId → Buffer} {n : Nat} {V : Words}

/-- Zeros are stored as zeros. -/
theorem Layout.stores_zeros (l : Layout) (s : Shape) :
    Stores l s (Buffer.zeros s.elements) (Buffer.zeros s.elements) := by
  cases hs : s.feature? with
  | none => exact .of_feature?_none hs (Buffer.size_zeros _)
  | some f =>
    obtain rfl := Shape.feature?_eq_some.1 hs
    rw [Shape.elements_dims]
    refine Stores.iff_dims.2 ⟨Buffer.size_zeros _, Buffer.size_zeros _, fun p hp => ?_⟩
    rw [Buffer.getElem?_zeros (offset_lt hp), Buffer.getElem?_zeros (offset_lt hp)]

theorem Blank.ready {t : Tensor} (h : Blank m t) (hbound : t.cell < m.memory.length)
    (hwhole : (m.memory.cell t.cell).damaged = false) : t.Ready m.memory where
  bound := hbound
  reserved := h.reserved
  whole := hwhole
  size := by rw [Memory.contents, h.words, Buffer.size_zeros]

/-- Weights for the device are reordered as any tensor is. -/
theorem channelFirst_eq (f : Feature) (ws : Buffer) :
    Initializer.channelFirst f ws = convert .nhwc .nchw f.dims ws := by
  rw [convert, Shape.feature?_eq_some.2 rfl]
  rfl

/-- To fill a tensor is to write the constant in the order of the tensor. -/
theorem fill_writes {t : Tensor} {s : Site} {o : Operand} {init : Initializer}
    (hc : ConstantsSized os) (ho : os[s.2]? = some o) (hinfo : t.info = ⟨o.shape, o.type⟩)
    (hsuits : Suits os s.2 init) : ∃ y, Stores t.layout t.info.shape (initial os s) y ∧
      ∀ m, outcome (init.fill t) m = outcome (t.write y) m := by
  obtain ⟨o', data, ho', hd, hinit⟩ := hsuits
  rw [ho] at ho'
  cases ho'
  have hwords : initial os s = (o.element.decode data).toArray := by
    simp only [initial, ho, hd]
  have hsize : (o.element.decode data).toArray.size = t.info.shape.elements := by
    rw [List.size_toArray, hinfo]
    exact length_decode (hc ho hd)
  obtain ⟨y, hy⟩ := exists_stores (l := t.layout) hsize
  refine ⟨y, hwords ▸ hy, fun m => ?_⟩
  rcases hinit with rfl | ⟨f, hshape, rfl⟩
  · exact outcome_bind_of_ok (Tensor.reorder_ok hy.converted)
  · have hdecode : t.info.type.element.decode data = o.element.decode data := by
      rw [hinfo]
      rfl
    have hdims : t.info.shape = f.dims := by rw [hinfo, hshape]
    simp only [Initializer.fill, hdecode]
    cases hl : t.layout with
    | nhwc =>
      rw [hl] at hy
      rw [hy.eq_of_nhwc]
    | nchw =>
      rw [hl, hdims] at hy
      simp only [channelFirst_eq, hy.converted]

/-- **An initializer stores the constant.** -/
theorem fill_going {t : Tensor} {s : Site} {o : Operand} {init : Initializer}
    (hc : ConstantsSized os) (ho : os[s.2]? = some o) (hinfo : t.info = ⟨o.shape, o.type⟩)
    (hsuits : Suits os s.2 init) (hr : t.Ready m₀.memory) (hW : W t.cell)
    (hD : t.place = .device → D) (h : Going W D m₀ E n m) :
    ∃ m' y, outcome (init.fill t) m = (.ok (), m') ∧
      Stores t.layout t.info.shape (initial os s) y ∧
      Going W D m₀ (Function.update E t.cell y) (n + t.commands) m' := by
  obtain ⟨y, hy, hfill⟩ := fill_writes hc ho hinfo hsuits
  obtain ⟨m', hrun, hgoing, -⟩ := t.write_going hr hW hD hy.size h
  exact ⟨m', y, (hfill m).trans hrun, hy, hgoing⟩

/-! ## All constants -/

theorem fillConstants_going {p : Plan} (htable : Table os sites p.builders)
    (hn : Apart p.builders) (hready : AllReady p.builders m₀.memory)
    (hW : ∀ t ∈ tensorsOf p.builders, W t.cell) (hD : ∀ b ∈ p.builders, b.place = .device → D)
    (hc : ConstantsSized os) :
    ∀ {inits : SortedMap OperandId Initializer} {E : CellId → Buffer} {n : Nat} {m : Machine},
      (∀ {i init}, (i, init) ∈ inits → Suits os i init) → Going W D m₀ E n m →
      ∃ m' E' n', outcome (p.fillConstants inits) m = (.ok (), m') ∧ Going W D m₀ E' n' m' ∧
        Rewrites p.builders (initial os) (inits.flatMap fun e => p.tensors e.1) E E'
  | [], E, n, m, _, h => ⟨m, E, n, rfl, h, .nil⟩
  | (i, init) :: inits, E, n, m, hsuits, h => by
    obtain ⟨m₁, E₁, hrun, hgoing, hrewrites⟩ := forM_rewrites (f := init.fill) (V := initial os)
      (i := i) hn (fun {id t E n m} ht hgoing => by
        obtain ⟨-, hplace, ⟨b, hb, hbp⟩, o, ho, hinfo⟩ := htable.tensorAt_known ht
        have hmem := mem_tensorsOf_of_tensorAt ht
        exact fill_going (s := (id, i)) hc ho hinfo (hsuits (by simp)) (hready t hmem) (hW t hmem)
          (fun hp => hD b hb (hbp.trans (hplace.symm.trans hp))) hgoing)
      (l := p.tensors i) (fun t ht => (htable.mem_tensors rfl).1 ht) h
    obtain ⟨m₂, E₂, n₂, hrun', hgoing', hrewrites'⟩ := fillConstants_going htable hn hready hW hD hc
      (fun hmem => hsuits (List.mem_cons_of_mem _ hmem)) hgoing
    refine ⟨m₂, E₂, n₂, ?_, hgoing', ?_⟩
    · rw [Plan.fillConstants, List.forM_eq_forM] at hrun' ⊢
      rw [List.forM_cons, outcome_bind_of_ok hrun, hrun']
    · rw [List.flatMap_cons]
      exact hrewrites.trans hrewrites'

/-- The constants among the operands of the table have initializers. -/
def Supplied (os : Operands) (sites : List Site) (inits : SortedMap OperandId Initializer) : Prop :=
  ∀ id i o, (id, i) ∈ sites → os[i]? = some o → o.data.isSome → ∃ init, (i, init) ∈ inits

/-- **In the end all tensors hold what a new plan starts with.** -/
theorem Rewrites.holds {p : Plan} {inits : SortedMap OperandId Initializer}
    (htable : Table os sites p.builders)
    (hsupplied : Supplied os sites inits) (hblank : ∀ t ∈ tensorsOf p.builders, Blank m₀ t)
    (h : Rewrites p.builders (initial os) (inits.flatMap fun e => p.tensors e.1)
      m₀.memory.contents E) : Holds p.builders E (initial os) := by
  intro s t ht
  obtain ⟨hin, hout⟩ := h.tensors s t ht
  by_cases hmem : t ∈ inits.flatMap fun e => p.tensors e.1
  · exact hin hmem
  · obtain ⟨id, i⟩ := s
    obtain ⟨hsite, -, -, o, ho, hinfo⟩ := htable.tensorAt_known ht
    have hdata : o.data = none := by
      by_contra hd
      obtain ⟨init, hinit⟩ := hsupplied id i o hsite ho (Option.ne_none_iff_isSome.1 hd)
      exact hmem (List.mem_flatMap.2 ⟨_, hinit, (htable.mem_tensors rfl).2 ⟨id, ht⟩⟩)
    have hzeros : initial os (id, i) = Buffer.zeros t.info.shape.elements := by
      simp only [initial, ho, hdata, hinfo]
    have hcell : m₀.memory.contents t.cell = Buffer.zeros t.info.shape.elements :=
      (hblank t (mem_tensorsOf_of_tensorAt ht)).words
    rw [hout hmem, hcell, hzeros]
    exact stores_zeros _ _

end HeteroNet
