import HeteroNet.Proofs.Plan.Bound
import HeteroNet.Proofs.Plan.Prepared

/-
From stages to steps. A stage finds its tensors in the table, since it names what its operation
reads and writes; it may add a scratch tensor, and it appends the steps of its operation. The only
thing that can go wrong is that the device runs out of memory for a scratch tensor.
-/

namespace HeteroNet

open Operation Model

variable {os : Operands} {sites : List Site} {m₀ m m' : Machine} {bs bs₀ : List TensorBuilder}
  {ts : List Tensor} {a : Assembly} {α : Type}

/-- The builders have the tensors of `bs₀` and perhaps scratch; all have memory filled with zeros. -/
structure Assembling (m₀ : Machine) (bs₀ : List TensorBuilder) (a : Assembly) : Prop where
  frames : a.builders.map TensorBuilder.frame = bs₀.map TensorBuilder.frame
  phases : ∀ b ∈ a.builders, b.phase = .allocated
  laid : Laid m₀ (tensorsOf a.builders) a.machine
  blank : ∀ t ∈ tensorsOf a.builders, Blank a.machine t

/-- The device ran out of memory. -/
structure Spoilt (m₀ : Machine) (e : Failure) (a : Assembly) : Prop where
  cause : Exhausted m₀ e
  laid : Laid m₀ (tensorsOf a.builders) a.machine

namespace Assembly

theorem onMachine_ends {t : Task α} {post : α → Assembly → Prop} {err : Failure → Assembly → Prop}
    (h : Ends (outcome t a.machine) (fun x m => post x { a with machine := m })
      (fun e m => err e { a with machine := m })) : Ends (outcome (onMachine t) a) post err := by
  have hrun : outcome (onMachine t) a
      = ((outcome t a.machine).1, { a with machine := (outcome t a.machine).2 }) := rfl
  rw [hrun]
  revert h
  obtain ⟨r, m⟩ := outcome t a.machine
  cases r <;> exact id

theorem tensor_ok {id : BackendId} {i : OperandId} {t : Tensor}
    (ht : tensorAt a.builders (id, i) = some t) : outcome (tensor id i) a = (.ok t, a) := by
  obtain ⟨b, hb, ht⟩ := Option.bind_eq_some_iff.1 ht
  rw [tensor, outcome_bind_of_ok (outcome_get a), hb]
  dsimp only
  rw [TensorBuilder.tensor, ht]
  rfl

theorem hostCell_ok {id : BackendId} {i : OperandId} {t : Tensor}
    (ht : tensorAt a.builders (id, i) = some t) (hp : t.place = .host) :
    outcome (hostCell id i) a = (.ok t.cell, a) := by
  rw [hostCell, outcome_bind_of_ok (tensor_ok ht), if_neg (not_not.2 hp)]
  rfl

theorem deviceCellOf_ok {t : Tensor} (hb : Blank a.machine t) (hp : t.place = .device) :
    outcome (deviceCellOf t) a = (.ok t.cell, a) := by
  have hready : outcome t.requireReserved a.machine = (.ok (), a.machine) := by
    simp [Tensor.requireReserved, outcome_bind, hb.reserved]
  have hrun : outcome (onMachine t.requireReserved) a = (.ok (), a) := by
    change ((outcome t.requireReserved a.machine).1,
      { a with machine := (outcome t.requireReserved a.machine).2 }) = _
    rw [hready]
  rw [deviceCellOf, if_neg (not_not.2 hp), outcome_bind_of_ok hrun]
  rfl

theorem deviceCell_ok {id : BackendId} {i : OperandId} {t : Tensor}
    (ht : tensorAt a.builders (id, i) = some t) (hb : Blank a.machine t) (hp : t.place = .device) :
    outcome (deviceCell id i) a = (.ok t.cell, a) := by
  rw [deviceCell, outcome_bind_of_ok (tensor_ok ht), deviceCellOf_ok hb hp]

/-- Looking up one cell after another changes nothing. -/
theorem mapM_ok {f : OperandId → Assemble CellId} : ∀ {is : List OperandId} {ts : List Tensor},
    List.Forall₂ (fun i t => outcome (f i) a = (.ok t.cell, a)) is ts →
      outcome (is.mapM f) a = (.ok (ts.map Tensor.cell), a)
  | [], _, h => by
    rw [List.forall₂_nil_left_iff.1 h]
    rfl
  | i :: is, _, h => by
    obtain ⟨t, ts, ht, hts, rfl⟩ := List.forall₂_cons_left_iff.1 h
    rw [List.mapM_cons, outcome_bind_of_ok ht, outcome_bind_of_ok (mapM_ok hts)]
    rfl

end Assembly

/-! ## Scratch tensors -/

theorem addScratch_laid {b : TensorBuilder} (hphase : b.phase = .allocated) (info : TensorInfo)
    (h : Laid m₀ ts m) :
    Ends (outcome (b.addScratch info) m)
      (fun r m' => r.1.frame = b.frame ∧ r.1.phase = .allocated ∧ r.1.scratch = b.scratch ++ [r.2] ∧
        r.2.place = b.place ∧ r.2.info = info ∧ Laid m₀ (r.2 :: ts) m' ∧ Blank m' r.2 ∧
        ∀ i, i < m.memory.length → m'.memory.cell i = m.memory.cell i)
      (fun e m' => Lacking m₀ (· = info.elements) e ∧ CutShort m₀ ts e m') := by
  obtain ⟨t, m₁, hcreate, hplace, hinfo, hcell, hlaid, hsame, hnew⟩ :=
    create_laid b.place b.backend info h
  unfold TensorBuilder.addScratch
  rw [if_neg (not_not.2 hphase), outcome_bind_of_ok hcreate]
  refine Ends.bind ((allocate_laid hlaid (by simp) (by rw [hnew])).mono (fun bytes m₂ h₂ => ?_)
    fun e m₂ he => ?_)
  · obtain ⟨hlaid₂, -, hother, hblank⟩ := h₂
    refine ⟨rfl, hphase, rfl, hplace, hinfo, hlaid₂, hblank, fun i hi => ?_⟩
    rw [hother i (hcell ▸ Nat.ne_of_lt hi), hsame i hi]
  · -- The tensor that got no memory belongs to no builder.
    obtain ⟨hcause, hcut, hmemory⟩ := he
    rw [hinfo] at hcause
    exact ⟨hcause, hcut.tail (by rw [hmemory, hnew])⟩

theorem addScratchTo_laid {id : BackendId} (info : TensorInfo) : ∀ {bs : List TensorBuilder},
    (∃ b ∈ bs, b.backend = id) → (∀ b ∈ bs, b.phase = .allocated) → Laid m₀ ts m →
    Ends (outcome (Assembly.addScratchTo id info bs) m)
      (fun r m' => r.1.map TensorBuilder.frame = bs.map TensorBuilder.frame ∧
        (∀ b ∈ r.1, b.phase = .allocated) ∧ (scratchOf r.1).Perm (r.2 :: scratchOf bs) ∧
        (∃ b ∈ bs, b.backend = id ∧ r.2.place = b.place) ∧ r.2.info = info ∧
        Laid m₀ (r.2 :: ts) m' ∧ Blank m' r.2 ∧
        ∀ i, i < m.memory.length → m'.memory.cell i = m.memory.cell i)
      (fun e m' => Lacking m₀ (· = info.elements) e ∧ CutShort m₀ ts e m')
  | [], hb, _, _ => by
    obtain ⟨b, hb, -⟩ := hb
    cases hb
  | b :: bs, hb, hphase, h => by
    unfold Assembly.addScratchTo
    by_cases hid : b.backend = id
    · rw [if_pos (beq_iff_eq.2 hid)]
      refine Ends.bind ((addScratch_laid (hphase b (by simp)) info h).mono (fun r m' hr => ?_)
        fun _ _ he => he)
      obtain ⟨hframe, hphase', hscratch, hplace, hinfo, hrest⟩ := hr
      refine ⟨by rw [List.map_cons, List.map_cons, hframe], fun b' hb' => ?_, ?_,
        ⟨b, by simp, hid, hplace⟩, hinfo, hrest⟩
      · rcases List.mem_cons.1 hb' with rfl | hb'
        · exact hphase'
        · exact hphase b' (List.mem_cons_of_mem _ hb')
      · change (r.1.scratch ++ scratchOf bs).Perm (r.2 :: (b.scratch ++ scratchOf bs))
        rw [hscratch, List.append_assoc]
        exact List.perm_middle
    · rw [if_neg (by simpa using hid)]
      have hb' : ∃ b ∈ bs, b.backend = id := by
        obtain ⟨b', hb', hid'⟩ := hb
        rcases List.mem_cons.1 hb' with rfl | hb'
        · exact absurd hid' hid
        · exact ⟨b', hb', hid'⟩
      refine Ends.bind ((addScratchTo_laid info hb'
        (fun b hb => hphase b (List.mem_cons_of_mem _ hb)) h).mono (fun r m' hr => ?_)
        fun _ _ he => he)
      obtain ⟨hframes, hphases, hperm, ⟨b₁, hb₁, hid₁, hplace⟩, hinfo, hrest⟩ := hr
      refine ⟨by rw [List.map_cons, List.map_cons, hframes], fun b' hb' => ?_, ?_,
        ⟨b₁, List.mem_cons_of_mem _ hb₁, hid₁, hplace⟩, hinfo, hrest⟩
      · rcases List.mem_cons.1 hb' with rfl | hb'
        · exact hphase b' (by simp)
        · exact hphases b' hb'
      · change (b.scratch ++ scratchOf r.1).Perm (r.2 :: (b.scratch ++ scratchOf bs))
        exact (hperm.append_left _).trans List.perm_middle

/-- What a step of assembly that may add scratch tensors leaves. -/
structure Assembled (m₀ : Machine) (bs₀ : List TensorBuilder) (a a' : Assembly) : Prop extends
    Assembling m₀ bs₀ a' where
  scratch : scratchOf a.builders ⊆ scratchOf a'.builders

theorem Assembling.refl (h : Assembling m₀ bs₀ a) : Assembled m₀ bs₀ a a :=
  ⟨h, fun _ ht => ht⟩

theorem Assembled.trans {a₁ a₂ a₃ : Assembly} (h : Assembled m₀ bs₀ a₁ a₂)
    (h' : Assembled m₀ bs₀ a₂ a₃) : Assembled m₀ bs₀ a₁ a₃ :=
  ⟨h'.toAssembling, fun _ ht => h'.scratch (h.scratch ht)⟩

theorem Assembled.append {a' : Assembly} (h : Assembled m₀ bs₀ a a') (rs : List Runnable) :
    Assembled m₀ bs₀ a { a' with runnables := rs } :=
  ⟨⟨h.frames, h.phases, h.laid, h.blank⟩, h.scratch⟩

namespace Assembling

variable (h : Assembling m₀ bs₀ a) (htable : Table os sites bs₀)

include h

theorem table (htable : Table os sites bs₀) : Table os sites a.builders := htable.congr h.frames

theorem tensorAt_eq : tensorAt a.builders = tensorAt bs₀ := tensorAt_congr h.frames

/-- A tensor of the table has its memory. -/
theorem tensorAt_blank {s : Site} {t : Tensor} (ht : tensorAt a.builders s = some t) :
    Blank a.machine t :=
  h.blank t (mem_tensorsOf_of_tensorAt ht)

include htable

/-- The tensors of a list of operands. -/
theorem exists_tensorsAt {id : BackendId} {is : List OperandId} (hs : ∀ i ∈ is, (id, i) ∈ sites) :
    ∃ ts, TensorsAt a.builders id is ts :=
  exists_forall₂ fun i hi => (h.table htable).exists_tensorAt (hs i hi)

/-- Adding a scratch tensor for a backend that has tensors, if some buffer is large enough for it. -/
theorem addScratch {id : BackendId} {i : OperandId} (hs : (id, i) ∈ sites) {info : TensorInfo}
    (hfits : info.elements ≤ Buffer.capacity) :
    Ends (outcome (Assembly.scratch id info) a)
      (fun u a' => Assembled m₀ bs₀ a a' ∧ a'.runnables = a.runnables ∧
        u ∈ scratchOf a'.builders ∧ u.place = placeOf id ∧ u.info = info)
      (Spoilt m₀) := by
  have htable' := h.table htable
  obtain ⟨b, hb, hid⟩ := List.mem_map.1 (htable'.backend hs)
  rw [Assembly.scratch, outcome_bind_of_ok (outcome_get a)]
  have hspoilt : ∀ {e m'}, Lacking m₀ (· = info.elements) e →
      CutShort m₀ (tensorsOf a.builders) e m' → Spoilt m₀ e { a with machine := m' } :=
    fun hcause hcut =>
      have hexhausted := hcause.exhausted fun n hn => hn ▸ hfits
      ⟨hexhausted, hcut.laid hexhausted.returned⟩
  refine Ends.bind (Assembly.onMachine_ends
    ((addScratchTo_laid info ⟨b, hb, hid⟩ h.phases h.laid).mono (fun r m' hr => ?_)
      fun e m' he => hspoilt he.1 he.2))
  obtain ⟨hframes, hphases, hperm, ⟨b', hb', hid', hplace⟩, hinfo, hlaid, hblank, hsame⟩ := hr
  have htensors : (tensorsOf r.1).Perm (r.2 :: tensorsOf a.builders) := by
    rw [tensorsOf, tensorsOf, entries_congr hframes]
    exact (hperm.append_left _).trans List.perm_middle
  refine ⟨⟨⟨hframes.trans h.frames, hphases, hlaid.perm htensors, fun t ht => ?_⟩,
    fun t ht => hperm.symm.subset (List.mem_cons_of_mem _ ht)⟩, rfl,
    hperm.symm.subset (by simp), hplace.trans (hid' ▸ htable'.place b' hb'), hinfo⟩
  rcases List.mem_cons.1 (htensors.subset ht) with rfl | ht
  · exact hblank
  · exact (h.blank t ht).congr (hsame _ (h.laid.bound t ht))

end Assembling

/-! ## Stages -/

/-- The stage of an operation whose checks passed. -/
inductive Staged (os : Operands) : Operation × Placement → Stage → Prop
  | host {op p ss o out k k' act fl} :
    Planned os op ss o out k k' act fl → op.kind ≠ .permute → placeOf p.backend = .host →
    Staged os (op, p) (.host p.backend k op.inputs o)
  | device {op p ss o out k k' act fl} :
    Planned os op ss o out k k' act fl → op.kind ≠ .permute → placeOf p.backend = .device →
    Staged os (op, p) (.device p.backend k' act op.inputs o fl)
  | permute {op p a b x o s} :
    op.attributes = .permute a b → op.inputs = [x] → op.outputs = [o] → HasShape os x s →
    HasShape os o s → Staged os (op, p) (.permute x o a b)

/-- The sites of an operation are in the table. -/
def Sited (sites : List Site) (q : Operation × Placement) : Prop :=
  ∀ s ∈ reads q ++ writes q, s ∈ sites

theorem Sited.planned {op : Operation} {p : Placement} (h : Sited sites (op, p))
    (hk : op.kind ≠ .permute) {o : OperandId} (ho : op.outputs = [o]) :
    (∀ i ∈ op.inputs, (p.backend, i) ∈ sites) ∧ (p.backend, o) ∈ sites := by
  refine ⟨fun i hi => h _ (List.mem_append_left _ ?_), h _ (List.mem_append_right _ ?_)⟩
  · rw [reads, source_of_kind hk]
    exact List.mem_map.2 ⟨i, hi, rfl⟩
  · rw [writes, target_of_kind hk, ho]
    exact List.mem_singleton_self _

/-- What applying the stage of an operation leaves. -/
def Applied (m₀ : Machine) (bs₀ : List TensorBuilder) (os : Operands) (a : Assembly)
    (q : Operation × Placement) (a' : Assembly) : Prop :=
  Assembled m₀ bs₀ a a' ∧ ∃ rs, a'.runnables = a.runnables ++ rs ∧ Bound os a'.builders q rs

theorem outcome_append (r : Runnable) (a : Assembly) : outcome (Assembly.append r) a
    = (.ok (), { a with runnables := a.runnables ++ [r] }) := rfl

theorem apply_host (h : Assembling m₀ bs₀ a) (htable : Table os sites bs₀) {op : Operation}
    {p : Placement} {ss : List Shape} {o : OperandId} {out : Shape} {k k' : Kernel}
    {act : Activation} {fl : Option Flatten} (hp : Planned os op ss o out k k' act fl)
    (hk : op.kind ≠ .permute) (hplace : placeOf p.backend = .host) (hs : Sited sites (op, p)) :
    Ends (outcome (Stage.apply (.host p.backend k op.inputs o)) a)
      (fun _ a' => Applied m₀ bs₀ os a (op, p) a') (Spoilt m₀) := by
  have htable' := h.table htable
  obtain ⟨hins, hout⟩ := hs.planned hk hp.outputs
  obtain ⟨ts, hts⟩ := h.exists_tensorsAt htable hins
  obtain ⟨t, ht⟩ := htable'.exists_tensorAt hout
  have hhost : ∀ {i t}, tensorAt a.builders (p.backend, i) = some t → t.place = .host :=
    fun ht => (htable'.tensorAt_known ht).2.1.trans hplace
  have hcells : List.Forall₂ (fun i t =>
      outcome (Assembly.hostCell p.backend i) a = (.ok (Tensor.cell t), a)) op.inputs ts :=
    hts.imp fun i t ht => Assembly.hostCell_ok ht (hhost ht)
  rw [Stage.apply, outcome_bind_of_ok (Assembly.mapM_ok hcells),
    outcome_bind_of_ok (Assembly.hostCell_ok ht (hhost ht)), outcome_append]
  exact ⟨h.refl.append _, _, rfl, .host _ hp hk hplace hts ht⟩

theorem apply_permute (h : Assembling m₀ bs₀ a) (htable : Table os sites bs₀) {op : Operation}
    {p : Placement} {b b' : BackendId} {x o : OperandId} {s : Shape}
    (ha : op.attributes = .permute b b') (hx : op.inputs = [x]) (ho : op.outputs = [o])
    (hxs : HasShape os x s) (hos : HasShape os o s) (hs : Sited sites (op, p)) :
    Ends (outcome (Stage.apply (.permute x o b b')) a)
      (fun _ a' => Applied m₀ bs₀ os a (op, p) a') (Spoilt m₀) := by
  have htable' := h.table htable
  obtain ⟨source, hsource⟩ := htable'.exists_tensorAt (s := (b, x)) (hs _ (by
    simp [reads, hx, Operation.source, ha]))
  obtain ⟨target, htarget⟩ := htable'.exists_tensorAt (s := (b', o)) (hs _ (by
    simp [writes, ho, Operation.target, ha]))
  rw [Stage.apply, outcome_bind_of_ok (Assembly.tensor_ok hsource),
    outcome_bind_of_ok (Assembly.tensor_ok htarget), outcome_append]
  exact ⟨h.refl.append _, _, rfl, .permute _ ha hx ho hxs hos hsource htarget⟩

/-- Appending the kernel of a device stage, and its activation. -/
theorem outcome_deviceSteps (label label' : String) (k : Kernel) (act : Activation)
    (ins : List CellId) (out : CellId) (a : Assembly) :
    outcome (do
      Assembly.append (.device label k ins out)
      if act ≠ .none then Assembly.append (.device label' (.activation act) [] out)) a
      = (.ok (), { a with runnables := a.runnables ++ deviceSteps label label' k act ins out }) := by
  rw [outcome_bind_of_ok (outcome_append _ a), deviceSteps]
  split
  · rw [outcome_append]
    simp
  · rfl

theorem Planned.inputs_ne_nil {op : Operation} {ss : List Shape} {o : OperandId} {out : Shape}
    {k k' : Kernel} {act : Activation} {f : Flatten}
    (h : Planned os op ss o out k k' act (some f)) : op.inputs ≠ [] := by
  intro hnil
  have hshapes := h.shapes
  rw [hnil, List.forall₂_nil_left_iff] at hshapes
  subst hshapes
  obtain ⟨y, -, -, hy⟩ := h.gives .nil
  exact hy

/-- What is flattened keeps the number of its elements. -/
theorem Planned.scratch_elements {op : Operation} {ss : List Shape} {o : OperandId} {out : Shape}
    {k k' : Kernel} {act : Activation} {f : Flatten}
    (h : Planned os op ss o out k k' act (some f)) {i : OperandId} {is : List OperandId}
    (hi : op.inputs = i :: is) : ∃ s, HasShape os i s ∧ f.scratch.elements = s.elements := by
  have hshapes := h.shapes
  rw [hi] at hshapes
  obtain ⟨s, ss, hs, -, rfl⟩ := List.forall₂_cons_left_iff.1 hshapes
  have hsized : Sized (s :: ss) ((s :: ss).map fun s => Buffer.zeros s.elements) :=
    List.forall₂_map_right_iff.2 (List.forall₂_same.2 fun s _ => Buffer.size_zeros _)
  obtain ⟨y, -, -, hflat, -⟩ := h.gives hsized
  obtain ⟨z, hz⟩ := Layout.exists_stores (l := .nchw) (Buffer.size_zeros s.elements)
  obtain ⟨w, hw, -⟩ := hflat [z] (.cons hz .nil)
  exact ⟨s, hs, hw.words.symm.trans (Buffer.size_zeros _)⟩

theorem apply_device (h : Assembling m₀ bs₀ a) (htable : Table os sites bs₀) {op : Operation}
    {p : Placement} {ss : List Shape} {o : OperandId} {out : Shape} {k k' : Kernel}
    {act : Activation} {fl : Option Flatten} (hp : Planned os op ss o out k k' act fl)
    (hk : op.kind ≠ .permute) (hplace : placeOf p.backend = .device) (hs : Sited sites (op, p)) :
    Ends (outcome (Stage.apply (.device p.backend k' act op.inputs o fl)) a)
      (fun _ a' => Applied m₀ bs₀ os a (op, p) a') (Spoilt m₀) := by
  have htable' := h.table htable
  obtain ⟨hins, hout⟩ := hs.planned hk hp.outputs
  obtain ⟨ts, hts⟩ := h.exists_tensorsAt htable hins
  obtain ⟨t, ht⟩ := htable'.exists_tensorAt hout
  have hdevice : ∀ {i t}, tensorAt a.builders (p.backend, i) = some t → t.place = .device :=
    fun ht => (htable'.tensorAt_known ht).2.1.trans hplace
  have hcells : List.Forall₂ (fun i t =>
      outcome (Assembly.deviceCell p.backend i) a = (.ok (Tensor.cell t), a)) op.inputs ts :=
    hts.imp fun i t ht => Assembly.deviceCell_ok ht (h.tensorAt_blank ht) (hdevice ht)
  rw [Stage.apply, outcome_bind_of_ok
      (Assembly.deviceCell_ok ht (h.tensorAt_blank ht) (hdevice ht)),
    outcome_bind_of_ok (Assembly.mapM_ok hcells)]
  cases fl with
  | none =>
    have hflat : outcome (Stage.applyFlatten p.backend none op.inputs (ts.map Tensor.cell)) a
        = (.ok (ts.map Tensor.cell), a) := rfl
    rw [outcome_bind_of_ok hflat, outcome_deviceSteps]
    exact ⟨h.refl.append _, _, rfl, .device _ _ hp hk hplace hts ht⟩
  | some f =>
    obtain ⟨i, is, hinputs⟩ := List.exists_cons_of_ne_nil hp.inputs_ne_nil
    rw [hinputs] at hts
    obtain ⟨first, rest, hfirst, hrest, rfl⟩ := List.forall₂_cons_left_iff.1 hts
    rw [hinputs]
    have hfits : f.scratch.elements ≤ Buffer.capacity := by
      -- The input that is flattened has its memory.
      obtain ⟨s, ⟨x, hx, rfl⟩, helements⟩ := hp.scratch_elements hinputs
      obtain ⟨-, -, -, x', hx', hinfo⟩ := htable'.tensorAt_known hfirst
      rw [hx, Option.some.injEq] at hx'
      have hblank := (h.tensorAt_blank hfirst).fits
      rw [hinfo, ← hx'] at hblank
      exact helements.trans_le hblank
    refine Ends.bind (Ends.bind ((h.addScratch htable (hins i (by simp [hinputs])) hfits).mono
      (fun u a₁ h₁ => ?_) fun _ _ he => he))
    obtain ⟨hassembled, hrunnables, hu, huplace, huinfo⟩ := h₁
    have hcell : outcome (Assembly.deviceCellOf u) a₁ = (.ok u.cell, a₁) :=
      Assembly.deviceCellOf_ok (hassembled.blank u (List.mem_append_right _ hu))
        (huplace.trans hplace)
    rw [outcome_bind_of_ok hcell, outcome_bind_of_ok (outcome_append _ a₁)]
    change Ends (outcome (do
      Assembly.append (.device _ k' (u.cell :: rest.map Tensor.cell) t.cell)
      if act ≠ .none then Assembly.append (.device _ (.activation act) [] t.cell)) _) _ _
    rw [outcome_deviceSteps]
    have htensors : tensorAt a₁.builders = tensorAt a.builders :=
      hassembled.tensorAt_eq.trans h.tensorAt_eq.symm
    refine ⟨hassembled.append _, _, by rw [hrunnables, List.append_assoc], ?_⟩
    refine .flattened _ _ _ hp hk hplace ?_ ?_ hu (huplace.trans hplace) huinfo
    · rw [TensorsAt, htensors, hinputs]
      exact hts
    · rw [htensors]
      exact ht

/-- **Applying the stage of an operation** appends its steps. -/
theorem apply_staged (h : Assembling m₀ bs₀ a) (htable : Table os sites bs₀)
    {q : Operation × Placement} {s : Stage} (hstage : Staged os q s) (hs : Sited sites q) :
    Ends (outcome s.apply a) (fun _ a' => Applied m₀ bs₀ os a q a') (Spoilt m₀) := by
  cases hstage with
  | host hp hk hplace => exact apply_host h htable hp hk hplace hs
  | device hp hk hplace => exact apply_device h htable hp hk hplace hs
  | permute ha hx ho hxs hos => exact apply_permute h htable ha hx ho hxs hos hs

/-- All stages in order. -/
theorem applyAll_staged (htable : Table os sites bs₀) {ops : List (Operation × Placement)}
    {stages : List Stage} (hstages : List.Forall₂ (Staged os) ops stages)
    (hs : ∀ q ∈ ops, Sited sites q) : ∀ {a : Assembly}, Assembling m₀ bs₀ a →
    Ends (outcome (stages.forM Stage.apply) a)
      (fun _ a' => Assembled m₀ bs₀ a a' ∧ ∃ groups, a'.runnables = a.runnables ++ groups.flatten ∧
        List.Forall₂ (Bound os a'.builders) ops groups)
      (Spoilt m₀) := by
  induction hstages with
  | nil => exact fun h => ⟨h.refl, [], by simp, .nil⟩
  | @cons q s ops stages hstage _ ih =>
    intro a h
    rw [List.forM_eq_forM, List.forM_cons, ← List.forM_eq_forM]
    refine Ends.bind ((apply_staged h htable hstage (hs q (by simp))).mono (fun _ a₁ h₁ => ?_)
      fun _ _ he => he)
    obtain ⟨hassembled, rs, hrs, hbound⟩ := h₁
    refine (ih (fun r hr => hs r (List.mem_cons_of_mem _ hr)) hassembled.toAssembling).mono
      (fun _ a₂ h₂ => ?_) fun _ _ he => he
    obtain ⟨hassembled', groups, hgroups, hbounds⟩ := h₂
    refine ⟨hassembled.trans hassembled', rs :: groups, ?_, .cons ?_ hbounds⟩
    · rw [hgroups, hrs, List.flatten_cons, List.append_assoc]
    · exact hbound.congr (hassembled'.frames.trans hassembled.frames.symm) hassembled'.scratch

end HeteroNet
