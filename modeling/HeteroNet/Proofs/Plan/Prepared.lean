import HeteroNet.Proofs.Plan.Reserved

/-
The tensors of a new plan. Preparing the builders gives each marked operand a tensor with a cell of
its own; allocating them gives every tensor memory filled with zeros. Neither changes anything else.
-/

namespace HeteroNet

open Model

variable {os : Operands} {sites : List Site} {constraints : ShapeConstraints} {m₀ m m' : Machine}
  {ts : List Tensor} {b b' : TensorBuilder} {bs bs' : List TensorBuilder}

/-- The tensors have no memory yet. -/
def Unreserved (m : Machine) (ts : List Tensor) : Prop :=
  ∀ t ∈ ts, (m.memory.cell t.cell).reserved = false

/-- All tensors of the builders, one builder after another. -/
def tensorsBy (bs : List TensorBuilder) : List Tensor := bs.flatMap (·.allTensors)

theorem tensorsOf_perm : ∀ bs : List TensorBuilder, (tensorsOf bs).Perm (tensorsBy bs)
  | [] => .nil
  | b :: bs => by
    have hcons : tensorsOf (b :: bs) = b.tensors.map Prod.snd ++
        ((entries bs).map Prod.snd ++ (b.scratch ++ scratchOf bs)) := by
      rw [tensorsOf, entries, List.flatMap_cons, List.map_append, List.map_map, List.append_assoc]
      rfl
    have hrest : tensorsBy (b :: bs) = b.tensors.map Prod.snd ++ (b.scratch ++ tensorsBy bs) := by
      rw [← List.append_assoc]
      rfl
    rw [hcons, hrest]
    refine List.Perm.append_left _ (List.Perm.trans ?_ ((tensorsOf_perm bs).append_left _))
    rw [tensorsOf, ← List.append_assoc, ← List.append_assoc]
    exact List.perm_append_comm.append_right _

/-! ## Preparing -/

/-- What preparing makes of a builder. -/
structure Prepared (os : Operands) (b b' : TensorBuilder) : Prop where
  backend : b'.backend = b.backend
  place : b'.place = b.place
  marked : b'.marked = b.marked
  phase : b'.phase = .prepared
  scratch : b'.scratch = []
  keys : b'.tensors.map Prod.fst = b.marked
  known : ∀ {i t}, (i, t) ∈ b'.tensors →
    t.place = b.place ∧ ∃ o, os[i]? = some o ∧ t.info = ⟨o.shape, o.type⟩

/-- What an operand is wanted as. -/
def Wanted (os : Operands) (i : OperandId) (w : OperandId × TensorInfo) : Prop :=
  w.1 = i ∧ ∃ o, os[i]? = some o ∧ w.2 = ⟨o.shape, o.type⟩

/-- The tensor made for what was wanted. -/
def Created (place : Place) (w : OperandId × TensorInfo) (e : OperandId × Tensor) : Prop :=
  e.1 = w.1 ∧ e.2.place = place ∧ e.2.info = w.2

theorem known_of_created {place : Place} {is : List OperandId}
    {wanted : List (OperandId × TensorInfo)} {es : List (OperandId × Tensor)}
    (hw : List.Forall₂ (Wanted os) is wanted) (he : List.Forall₂ (Created place) wanted es) :
    es.map Prod.fst = is ∧ ∀ {i t}, (i, t) ∈ es →
      t.place = place ∧ ∃ o, os[i]? = some o ∧ t.info = ⟨o.shape, o.type⟩ := by
  induction hw generalizing es with
  | nil =>
    obtain rfl := List.forall₂_nil_left_iff.1 he
    exact ⟨rfl, fun hm => by cases hm⟩
  | @cons i w is ws hw _ ih =>
    obtain ⟨e, es, ⟨hfst, hplace, hinfo⟩, hes, rfl⟩ := List.forall₂_cons_left_iff.1 he
    obtain ⟨rfl, o, ho, hinfo'⟩ := hw
    obtain ⟨hmap, hknown⟩ := ih hes
    refine ⟨by rw [List.map_cons, hmap, hfst], fun {i t} hm => ?_⟩
    rcases List.mem_cons.1 hm with rfl | hm
    · dsimp only at hfst
      subst hfst
      exact ⟨hplace, o, ho, hinfo.trans hinfo'⟩
    · exact hknown hm

theorem createTensors_laid {wanted : List (OperandId × TensorInfo)} (h : Laid m₀ ts m)
    (hfree : Unreserved m ts) :
    Ends (outcome (b.createTensors wanted) m)
      (fun es m' => List.Forall₂ (Created b.place) wanted es ∧
        Laid m₀ (es.map Prod.snd ++ ts) m' ∧ Unreserved m' (es.map Prod.snd ++ ts))
      (fun _ _ => False) := by
  refine Ends.mapM (fun done es m' => List.Forall₂ (Created b.place) done es ∧
    Laid m₀ (es.map Prod.snd ++ ts) m' ∧ Unreserved m' (es.map Prod.snd ++ ts))
    (fun done es w rest m₁ _ hI => ?_) ⟨.nil, h, hfree⟩
  obtain ⟨hall, hlaid, hfree⟩ := hI
  obtain ⟨t, m₂, hcreate, hplace, hinfo, hcell, hlaid', hsame, hnew⟩ :=
    create_laid b.place b.backend w.2 hlaid
  have hrun : outcome (do return (w.1, ← Tensor.create b.place b.backend w.2) :
      Task (OperandId × Tensor)) m₁ = (.ok (w.1, t), m₂) := by
    rw [outcome_bind_of_ok hcreate]
    rfl
  change Ends (outcome (do return (w.1, ← Tensor.create b.place b.backend w.2)) m₁) _ _
  rw [hrun]
  have hp : (((es ++ [(w.1, t)]).map Prod.snd) ++ ts).Perm (t :: (es.map Prod.snd ++ ts)) := by
    rw [List.map_append, List.append_assoc]
    exact List.perm_middle
  refine ⟨List.rel_append hall (.cons ⟨rfl, hplace, hinfo⟩ .nil), hlaid'.perm hp, fun u hu => ?_⟩
  rcases List.mem_cons.1 (hp.subset hu) with rfl | hu
  · rw [hnew]
  · rw [hsame _ (hlaid.bound u hu)]
    exact hfree u hu

theorem wanted_ok (hc : ∀ i ∈ b.marked,
      ∃ o, os[i]? = some o ∧ constraints.find? i = some ⟨o.shape, o.type⟩) :
    ∃ wanted, b.wanted constraints = .ok wanted ∧ List.Forall₂ (Wanted os) b.marked wanted := by
  obtain ⟨wanted, hwanted⟩ := exists_forall₂
    (R := fun i w => Wanted os i w ∧ constraints.find? i = some w.2) (l := b.marked) fun i hi => by
      obtain ⟨o, ho, hfind⟩ := hc i hi
      exact ⟨(i, ⟨o.shape, o.type⟩), ⟨rfl, o, ho, rfl⟩, hfind⟩
  refine ⟨wanted, mapM_eq_ok.2 (hwanted.imp fun i w hw => ?_), hwanted.imp fun i w hw => hw.1⟩
  obtain ⟨⟨rfl, -⟩, hfind⟩ := hw
  rw [hfind]

theorem prepare_laid (hphase : b.phase = .marking) (hscratch : b.scratch = [])
    (hc : ∀ i ∈ b.marked, ∃ o, os[i]? = some o ∧ constraints.find? i = some ⟨o.shape, o.type⟩)
    (h : Laid m₀ ts m) (hfree : Unreserved m ts) :
    Ends (outcome (b.prepare constraints) m)
      (fun b' m' => Prepared os b b' ∧ Laid m₀ (b'.allTensors ++ ts) m' ∧
        Unreserved m' (b'.allTensors ++ ts))
      (fun _ _ => False) := by
  obtain ⟨wanted, hrun, hwanted⟩ := wanted_ok hc
  unfold TensorBuilder.prepare
  rw [if_neg (not_not.2 hphase)]
  refine Ends.bind ?_
  rw [outcome_check, hrun]
  refine Ends.bind ((createTensors_laid h hfree).mono (fun es m' hes => ?_) fun _ _ he => he)
  obtain ⟨hall, hlaid, hfree⟩ := hes
  obtain ⟨hmap, hknown⟩ := known_of_created hwanted hall
  refine ⟨⟨rfl, rfl, rfl, rfl, hscratch, hmap, hknown⟩, ?_⟩
  have hlist : es.map Prod.snd ++ b.scratch = es.map Prod.snd := by
    rw [hscratch, List.append_nil]
  change Laid m₀ ((es.map Prod.snd ++ b.scratch) ++ ts) m' ∧
    Unreserved m' ((es.map Prod.snd ++ b.scratch) ++ ts)
  rw [hlist]
  exact ⟨hlaid, hfree⟩

/-- Builders that marked operands and did nothing else. -/
structure Marked (b : TensorBuilder) : Prop where
  phase : b.phase = .marking
  scratch : b.scratch = []
  stats : b.stats = { markCalls := b.stats.markCalls, marked := b.marked.length }

/-- **Preparing builders.** -/
theorem prepareAll_laid (hmarked : ∀ b ∈ bs, Marked b)
    (hc : ∀ b ∈ bs, ∀ i ∈ b.marked,
      ∃ o, os[i]? = some o ∧ constraints.find? i = some ⟨o.shape, o.type⟩) (m : Machine) :
    Ends (outcome (bs.mapM (·.prepare constraints)) m)
      (fun bs' m' => List.Forall₂ (Prepared os) bs bs' ∧ Laid m (tensorsOf bs') m' ∧
        Unreserved m' (tensorsOf bs'))
      (fun _ _ => False) := by
  have hall : Ends (outcome (bs.mapM (·.prepare constraints)) m)
      (fun bs' m' => List.Forall₂ (Prepared os) bs bs' ∧ Laid m (tensorsBy bs') m' ∧
        Unreserved m' (tensorsBy bs')) (fun _ _ => False) :=
    Ends.mapM (fun done bs' m' => List.Forall₂ (Prepared os) done bs' ∧ Laid m (tensorsBy bs') m' ∧
      Unreserved m' (tensorsBy bs')) (fun done bs' b rest m' hl hI => ?_)
    ⟨.nil, .nil m, fun t ht => by cases ht⟩
  · refine hall.mono (fun bs' m' h => ?_) fun _ _ he => he
    obtain ⟨hprep, hlaid, hfree⟩ := h
    have hp := tensorsOf_perm bs'
    exact ⟨hprep, hlaid.perm hp, fun t ht => hfree t (hp.subset ht)⟩
  · obtain ⟨hprep, hlaid, hfree⟩ := hI
    have hb : b ∈ bs := by rw [hl]; simp
    refine (prepare_laid (hmarked b hb).phase (hmarked b hb).scratch (hc b hb) hlaid hfree).mono
      (fun b' m' h => ?_) fun _ _ he => he
    obtain ⟨hb', hlaid', hfree'⟩ := h
    have hp : (tensorsBy (bs' ++ [b'])).Perm (b'.allTensors ++ tensorsBy bs') := by
      rw [tensorsBy, List.flatMap_append, List.flatMap_singleton]
      exact List.perm_append_comm
    exact ⟨List.rel_append hprep (.cons hb' .nil), hlaid'.perm hp,
      fun t ht => hfree' t (hp.subset ht)⟩

/-! ## Allocating -/

/-- All that allocating leaves of a builder as it was. -/
def kept (b : TensorBuilder) : (BackendId × Place × List OperandId × SortedMap OperandId Tensor) ×
    List Tensor :=
  (b.frame, b.scratch)

theorem frames_of_kept (h : bs'.map kept = bs.map kept) :
    bs'.map TensorBuilder.frame = bs.map TensorBuilder.frame ∧ scratchOf bs' = scratchOf bs := by
  have hframe : ∀ bs : List TensorBuilder,
      bs.map TensorBuilder.frame = (bs.map kept).map Prod.fst := fun bs => by
    rw [List.map_map]
    rfl
  have hscratch : ∀ bs : List TensorBuilder, scratchOf bs = (bs.map kept).flatMap Prod.snd :=
    fun bs => by
      rw [List.flatMap_map]
      rfl
  rw [hframe, hframe, hscratch, hscratch, h]
  exact ⟨rfl, rfl⟩

theorem reserveAll_kept : ∀ (l : List Tensor) (b : TensorBuilder) (m : Machine),
    kept (TensorBuilder.reserveAll l b m).2.1 = kept b
  | [], _, _ => rfl
  | t :: l, b, m => by
    unfold TensorBuilder.reserveAll
    split
    · exact reserveAll_kept l _ _
    · rfl

theorem allocate_kept (b : TensorBuilder) (m : Machine) : kept (b.allocate m).2.1 = kept b := by
  unfold TensorBuilder.allocate
  split
  · rfl
  · rfl
  · have hreserve := reserveAll_kept (b.tensors.map (·.2))
      { b with stats := { b.stats with allocateCalls := b.stats.allocateCalls + 1 } } m
    dsimp only
    split <;> rename_i h
    all_goals
      rw [h] at hreserve
      exact hreserve

/-- Whether there is memory or not, the tensors stay the same. -/
theorem allocateAll_kept : ∀ (bs : List TensorBuilder) (m : Machine),
    (Plan.allocateAll bs m).2.1.map kept = bs.map kept
  | [], _ => rfl
  | b :: bs, m => by
    have hb := allocate_kept b m
    unfold Plan.allocateAll
    split <;> rename_i h <;> rw [h] at hb
    · exact congrArg₂ List.cons hb (allocateAll_kept bs _)
    · exact congrArg₂ List.cons hb rfl

/-- What a call that gives memory to the tensors `l` leaves, if it succeeds. -/
structure Filled (m₀ : Machine) (ts l : List Tensor) (m m' : Machine) : Prop extends
    Laid m₀ ts m' where
  same : ∀ i, (∀ t ∈ l, i ≠ t.cell) → m'.memory.cell i = m.memory.cell i
  blank : ∀ t ∈ l, Blank m' t

theorem Filled.trans {l l' : List Tensor} {m₁ m₂ m₃ : Machine} (h : Filled m₀ ts l m₁ m₂)
    (h' : Filled m₀ ts l' m₂ m₃) (hd : ∀ t ∈ l, ∀ t' ∈ l', t.cell ≠ t'.cell) :
    Filled m₀ ts (l ++ l') m₁ m₃ where
  toLaid := h'.toLaid
  same i hi := by
    rw [h'.same i fun t ht => hi t (List.mem_append_right _ ht),
      h.same i fun t ht => hi t (List.mem_append_left _ ht)]
  blank t ht := by
    rcases List.mem_append.1 ht with ht | ht
    · have hsame := h'.same t.cell (hd t ht)
      exact (h.blank t ht).congr hsame
    · exact h'.blank t ht

/-- What a call that gives memory to the tensors `l` leaves, if it fails. -/
structure Starved (m₀ : Machine) (ts l : List Tensor) (e : Failure) (m : Machine) : Prop extends
    CutShort m₀ ts e m where
  cause : Lacking m₀ (fun n => ∃ t ∈ l, n = t.info.elements) e

theorem Starved.mono {l l' : List Tensor} {e : Failure} (h : Starved m₀ ts l e m) (hsub : l ⊆ l') :
    Starved m₀ ts l' e m :=
  ⟨h.toCutShort, h.cause.mono fun _ ⟨t, ht, hn⟩ => ⟨t, hsub ht, hn⟩⟩

theorem reserveAll_laid : ∀ {l : List Tensor} {b : TensorBuilder} {m : Machine}, Laid m₀ ts m →
    (∀ t ∈ l, t ∈ ts) → (l.map Tensor.cell).Nodup → Unreserved m l →
    ∃ r b' m', TensorBuilder.reserveAll l b m = (r, b', m') ∧
      Ends (r, m') (fun _ m' => Filled m₀ ts l m m') (Starved m₀ ts l)
  | [], b, m, h, _, _, _ => ⟨_, b, m, rfl, h, fun _ _ => rfl, fun t ht => by cases ht⟩
  | t :: l, b, m, h, hsub, hn, hfree => by
    obtain ⟨hcell, hn⟩ := List.nodup_cons.1 hn
    have hne : ∀ u ∈ l, t.cell ≠ u.cell := fun u hu he =>
      hcell (he ▸ List.mem_map_of_mem hu)
    have ht := allocate_laid h (hsub t (by simp)) (hfree t (by simp))
    unfold TensorBuilder.reserveAll
    rw [Task.on_eq]
    revert ht
    obtain ⟨r, m₁⟩ := outcome t.allocate m
    cases r with
    | error e =>
      rintro ⟨hcause, hcut, -⟩
      exact ⟨_, b, m₁, rfl, hcut, hcause.mono fun n hn => ⟨t, by simp, hn⟩⟩
    | ok bytes =>
      rintro ⟨hlaid, -, hother, hblank⟩
      have hfree' : Unreserved m₁ l := fun u hu => by
        rw [hother _ (Ne.symm (hne u hu))]
        exact hfree u (List.mem_cons_of_mem _ hu)
      obtain ⟨r, b', m', hrun, hends⟩ := reserveAll_laid (b := b.countTensor bytes) hlaid
        (fun u hu => hsub u (List.mem_cons_of_mem _ hu)) hn hfree'
      refine ⟨r, b', m', hrun, hends.mono (fun _ m' hf => ?_)
        fun _ _ he => he.mono (List.subset_cons_self t l)⟩
      have hfirst : Filled m₀ ts [t] m m₁ :=
        ⟨hlaid, fun i hi => hother i (hi t (by simp)), fun u hu => by
          rw [List.mem_singleton] at hu
          exact hu ▸ hblank⟩
      exact hfirst.trans hf fun u hu u' hu' => by
        rw [List.mem_singleton] at hu
        exact hu ▸ hne u' hu'

theorem builder_allocate_laid (hphase : b.phase = .prepared) (h : Laid m₀ ts m)
    (hsub : ∀ t ∈ b.tensors.map (·.2), t ∈ ts) (hn : ((b.tensors.map (·.2)).map Tensor.cell).Nodup)
    (hfree : Unreserved m (b.tensors.map (·.2))) :
    ∃ r b' m', b.allocate m = (r, b', m') ∧
      Ends (r, m') (fun _ m' => b'.phase = .allocated ∧
        Filled m₀ ts (b.tensors.map (·.2)) m m') (Starved m₀ ts (b.tensors.map (·.2))) := by
  obtain ⟨r, b', m', hrun, hends⟩ := reserveAll_laid
    (b := { b with stats := { b.stats with allocateCalls := b.stats.allocateCalls + 1 } })
    h hsub hn hfree
  unfold TensorBuilder.allocate
  split
  · rename_i hp
    rw [hphase] at hp
    cases hp
  · rename_i hp
    rw [hphase] at hp
    cases hp
  · dsimp only
    rw [hrun]
    cases r with
    | error e => exact ⟨_, _, _, rfl, hends⟩
    | ok u => exact ⟨_, _, _, rfl, rfl, hends⟩

/-- **Allocating builders.** If there is memory, every tensor gets its own, filled with zeros. -/
theorem allocateAll_laid : ∀ {bs : List TensorBuilder} {m : Machine},
    (∀ b ∈ bs, b.phase = .prepared) → Laid m₀ ts m →
    (∀ t ∈ (entries bs).map Prod.snd, t ∈ ts) →
    (((entries bs).map Prod.snd).map Tensor.cell).Nodup →
    Unreserved m ((entries bs).map Prod.snd) →
    ∃ r bs' m', Plan.allocateAll bs m = (r, bs', m') ∧
      Ends (r, m') (fun _ m' => (∀ b ∈ bs', b.phase = .allocated) ∧
        Filled m₀ ts ((entries bs).map Prod.snd) m m') (Starved m₀ ts ((entries bs).map Prod.snd))
  | [], m, _, h, _, _, _ => ⟨_, [], m, rfl, by simp, h, fun _ _ => rfl, fun t ht => by cases ht⟩
  | b :: bs, m, hphase, h, hsub, hn, hfree => by
    have hcons : (entries (b :: bs)).map Prod.snd
        = b.tensors.map (·.2) ++ (entries bs).map Prod.snd := by
      rw [entries, List.flatMap_cons, List.map_append, List.map_map]
      rfl
    rw [hcons] at hsub hn hfree ⊢
    rw [List.map_append] at hn
    obtain ⟨hn₁, hn₂, hdisjoint⟩ := List.nodup_append.1 hn
    have hne : ∀ t ∈ b.tensors.map (·.2), ∀ t' ∈ (entries bs).map Prod.snd, t.cell ≠ t'.cell :=
      fun t ht t' ht' => hdisjoint _ (List.mem_map_of_mem ht) _ (List.mem_map_of_mem ht')
    obtain ⟨r, b', m₁, hrun, hends⟩ := builder_allocate_laid (hphase b (by simp)) h
      (fun t ht => hsub t (List.mem_append_left _ ht)) hn₁
      fun t ht => hfree t (List.mem_append_left _ ht)
    unfold Plan.allocateAll
    rw [hrun]
    cases r with
    | error e => exact ⟨_, _, m₁, rfl, Starved.mono hends (List.subset_append_left _ _)⟩
    | ok u =>
      obtain ⟨hphase', hf⟩ := hends
      have hfree' : Unreserved m₁ ((entries bs).map Prod.snd) := fun t ht => by
        rw [hf.same _ fun u hu => (hne u hu t ht).symm]
        exact hfree t (List.mem_append_right _ ht)
      obtain ⟨r, bs', m', hrun', hends'⟩ := allocateAll_laid
        (fun b hb => hphase b (List.mem_cons_of_mem _ hb)) hf.toLaid
        (fun t ht => hsub t (List.mem_append_right _ ht)) hn₂ hfree'
      dsimp only
      rw [hrun']
      refine ⟨r, b' :: bs', m', rfl, hends'.mono (fun _ m' hf' => ?_)
        fun _ _ he => he.mono (List.subset_append_right _ _)⟩
      obtain ⟨hphases, hf'⟩ := hf'
      refine ⟨fun b hb => ?_, hf.trans hf' hne⟩
      rcases List.mem_cons.1 hb with rfl | hb
      · exact hphase'
      · exact hphases b hb

end HeteroNet
