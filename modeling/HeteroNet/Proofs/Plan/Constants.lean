import HeteroNet.Proofs.Plan.Exits

/-
The constants of a compiled plan. An operand may be read in several roles and on several backends,
but it has one initializer, the last one that was recorded for it. Which one that is does not
matter: all of them write the words of the constant, in the order of the tensor (`fill_writes`). The
loop that fills the constants carries this from tensor to tensor, since no two tensors share memory
(`Filling`).

Nothing need be known of the backends. Neither need the device be fine: when it has a failure to
report, the plan is made only if all of its tensors lie on the host.
-/

namespace HeteroNet

open Model

variable {os : Operands} {host : Prop} {m₀ m₁ m : Machine} {filled : List (OperandId × Tensor)}
  {i : OperandId} {t : Tensor} {o : Operand} {init : Initializer}

/-- The tensor holds the words of constant `i`, in the order of its layout. -/
def Tensor.HoldsConstant (t : Tensor) (os : Operands) (i : OperandId) (mem : Memory) : Prop :=
  ∃ o data, os[i]? = some o ∧ o.data = some data ∧ t.info = ⟨o.shape, o.type⟩ ∧
    Layout.convert .nhwc t.layout o.shape (o.element.decode data).toArray
      = some (mem.contents t.cell)

theorem Tensor.HoldsConstant.congr {mem mem' : Memory} (h : t.HoldsConstant os i mem)
    (hsame : mem'.contents t.cell = mem.contents t.cell) : t.HoldsConstant os i mem' := by
  obtain ⟨o, data, ho, hd, hinfo, hconvert⟩ := h
  exact ⟨o, data, ho, hd, hinfo, hsame ▸ hconvert⟩

/-! ## One tensor -/

/-- The constants in `filled` were filled in from `m₀` on. Once the device has a failure to report
it skips its commands, and then nothing is known, unless all tensors lie on the host. -/
structure Filling (os : Operands) (host : Prop) (m₀ : Machine) (filled : List (OperandId × Tensor))
    (m : Machine) : Prop where
  memory : Memory.Rewritten (fun _ => True) m₀.memory m.memory
  holds : m.device.failure = none ∨ host → ∀ e ∈ filled, e.2.HoldsConstant os e.1 m.memory

theorem Filling.start : Filling os host m [] m := ⟨.refl, fun _ e he => by cases he⟩

theorem Filling.failed (hmem : Memory.Rewritten (fun _ => True) m₀.memory m.memory)
    (hfailure : m.device.failure ≠ none) (hnot : ¬host) : Filling os host m₀ filled m :=
  ⟨hmem, fun hfine => absurd (hfine.resolve_right hnot) hfailure⟩

/-- Storing a constant in a tensor leaves the others as they are. -/
theorem holds_store {mem : Memory} {y : Buffer} (hbound : t.cell < mem.length)
    (hy : t.HoldsConstant os i (mem.store t.cell y))
    (hapart : ∀ e ∈ filled, e.2.cell = t.cell → e = (i, t))
    (h : ∀ e ∈ filled, e.2.HoldsConstant os e.1 mem) :
    ∀ e ∈ filled ++ [(i, t)], e.2.HoldsConstant os e.1 (mem.store t.cell y) := by
  intro e he
  by_cases hcell : e.2.cell = t.cell
  · have he : e = (i, t) := by
      rcases List.mem_append.1 he with he | he
      · exact hapart e he hcell
      · exact List.mem_singleton.1 he
    subst he
    exact hy
  · have he : e ∈ filled := (List.mem_append.1 he).resolve_right fun he =>
      hcell (congrArg (·.2.cell) (List.mem_singleton.1 he))
    refine (h e he).congr ?_
    rw [Memory.contents_store hbound, Function.update_of_ne hcell]

/-- **An initializer puts the constant into a tensor.** -/
theorem Filling.fill (h : Filling os host m₀ filled m) (hc : ConstantsSized os)
    (hready : t.Ready m₀.memory) (ho : os[i]? = some o) (hinfo : t.info = ⟨o.shape, o.type⟩)
    (hsuits : Suits os i init) (hhost : host → t.place = .host)
    (hapart : ∀ e ∈ filled, e.2.cell = t.cell → e = (i, t)) :
    ∃ m', outcome (init.fill t) m = (.ok (), m') ∧
      Filling os host m₀ (filled ++ [(i, t)]) m' := by
  obtain ⟨y, hy, hfill⟩ := fill_writes (s := ("", i)) hc ho hinfo hsuits
  have hready := hready.rewritten h.memory
  have hstore := hready.store (W := fun _ => True) trivial hy.size
  have hheld : t.HoldsConstant os i (m.memory.store t.cell y) := by
    obtain ⟨o', data, ho', hd, -⟩ := hsuits
    rw [ho] at ho'
    cases ho'
    have hconverted := hy.converted
    simp only [initial, ho, hd, hinfo] at hconverted
    refine ⟨o, data, ho, hd, hinfo, ?_⟩
    rw [Memory.contents_store hready.bound, Function.update_self]
    exact hconverted
  refine ⟨_, (hfill m).trans (Tensor.write_ready hready hy.size), ?_⟩
  cases hp : t.place with
  | host =>
    exact ⟨h.memory.trans hstore, fun hfine =>
      holds_store hready.bound hheld hapart (h.holds hfine)⟩
  | device =>
    have hnot : ¬host := fun hh => by
      rw [hhost hh] at hp
      cases hp
    dsimp only
    unfold Machine.process
    split
    · rename_i hfailure
      exact .failed h.memory (by simp [hfailure]) hnot
    · exact .failed h.memory (by simp) hnot
    · rename_i hfailure _
      rw [hready.upload y]
      exact ⟨h.memory.trans hstore, fun _ =>
        holds_store hready.bound hheld hapart (h.holds (.inl hfailure))⟩

/-! ## All constants -/

/-- What filling needs to know of the tensors of a plan. -/
structure Fillable (os : Operands) (host : Prop) (p : Plan) (mem : Memory) : Prop where
  ready : ∀ {i t}, t ∈ p.tensors i → t.Ready mem
  info : ∀ {i t}, t ∈ p.tensors i → ∃ o, os[i]? = some o ∧ t.info = ⟨o.shape, o.type⟩
  host : host → ∀ {i t}, t ∈ p.tensors i → t.place = .host
  apart : ∀ {i j t u}, t ∈ p.tensors i → u ∈ p.tensors j → t.cell = u.cell → (i, t) = (j, u)

/-- The tensors that initializers fill, each with its operand. -/
def Plan.filledBy (p : Plan) (inits : SortedMap OperandId Initializer) :
    List (OperandId × Tensor) :=
  inits.flatMap fun e => (p.tensors e.1).map (e.1, ·)

theorem Plan.mem_filledBy {p : Plan} {inits : SortedMap OperandId Initializer} :
    (i, t) ∈ p.filledBy inits ↔ (∃ init, (i, init) ∈ inits) ∧ t ∈ p.tensors i := by
  simp only [Plan.filledBy, List.mem_flatMap, List.mem_map, Prod.exists, Prod.mk.injEq]
  constructor
  · rintro ⟨j, init, hinit, u, hu, rfl, rfl⟩
    exact ⟨⟨init, hinit⟩, hu⟩
  · rintro ⟨⟨init, hinit⟩, ht⟩
    exact ⟨i, init, hinit, t, ht, rfl, rfl⟩

theorem fillConstants_filling {p : Plan} (hc : ConstantsSized os)
    (hp : Fillable os host p m₀.memory) {inits : SortedMap OperandId Initializer}
    (hsuits : ∀ {i init}, (i, init) ∈ inits → Suits os i init) :
    ∃ m, outcome (p.fillConstants inits) m₀ = (.ok (), m) ∧
      Filling os host m₀ (p.filledBy inits) m := by
  have hall : Ends (outcome (p.fillConstants inits) m₀)
      (fun _ m => Filling os host m₀ (p.filledBy inits) m) fun _ _ => False := by
    unfold Plan.fillConstants
    refine Ends.forM (fun done m => Filling os host m₀ (p.filledBy done) m)
      (fun done e rest m hl h => ?_) .start
    obtain ⟨i, init⟩ := e
    rw [Plan.filledBy, List.flatMap_append, List.flatMap_singleton, ← Plan.filledBy]
    refine Ends.forM (fun done' m => Filling os host m₀ (p.filledBy done ++ done'.map (i, ·)) m)
      (fun done' t rest' m hl' h => ?_) (by simpa using h)
    have ht : t ∈ p.tensors i := by simp [hl']
    have hinit : Suits os i init := hsuits (by simp [hl])
    have hapart : ∀ e ∈ p.filledBy done ++ done'.map (i, ·), e.2.cell = t.cell → e = (i, t) := by
      rintro ⟨j, u⟩ he hcell
      rcases List.mem_append.1 he with he | he
      · exact hp.apart (Plan.mem_filledBy.1 he).2 ht hcell
      · obtain ⟨u', hu, he⟩ := List.mem_map.1 he
        cases he
        exact hp.apart (by simp [hl', hu]) ht hcell
    obtain ⟨o, ho, hinfo⟩ := hp.info ht
    obtain ⟨m', hrun, hm'⟩ :=
      h.fill hc (hp.ready ht) ho hinfo hinit (fun hh => hp.host hh ht) hapart
    rw [hrun, List.map_append, ← List.append_assoc]
    exact hm'
  obtain ⟨⟨⟩, m, hrun, hm⟩ := hall.exists_ok
  exact ⟨m, hrun, hm⟩

/-! ## Plans -/

variable {Mixed : Prop} {model : Model} {d : PlanDraft} {builders bs bs₁ : List TensorBuilder}
  {a : Assembly} {p : Plan}

/-- Every tensor of a constant holds it. -/
def Plan.HoldsConstants (p : Plan) (mem : Memory) : Prop :=
  ∀ i o, p.model.operands[i]? = some o → o.data.isSome →
    ∀ t ∈ p.tensors i, t.HoldsConstant p.model.operands i mem

theorem Plan.mem_tensors (p : Plan) :
    t ∈ p.tensors i ↔ ∃ b ∈ p.builders, i ∈ b.marked ∧ b.tensors.find? i = some t := by
  simp only [Plan.tensors, List.mem_filterMap]
  refine exists_congr fun b => and_congr_right fun _ => ?_
  split <;> simp_all

/-- A tensor of a plan has its place in the table of the builders. -/
theorem Plan.mem_entries (ht : t ∈ p.tensors i) : ∃ id, ((id, i), t) ∈ entries p.builders := by
  obtain ⟨b, hb, -, ht⟩ := p.mem_tensors.1 ht
  exact ⟨b.backend, List.mem_flatMap.2 ⟨b, hb, List.mem_map.2 ⟨_, SortedMap.find?_mem ht, rfl⟩⟩⟩

/-- Where the plan is completed, its tensors can be filled. -/
theorem Staging.fillable (hp : List.Forall₂ (Prepared os) builders bs)
    (hassembling : Assembling m₀ bs { builders := bs₁, machine := m₁ }) (hstaging : Staging bs m₁ a)
    (hbuilders : p.builders = a.builders) :
    Fillable os (∀ b ∈ p.builders, b.place = .host) p a.machine.memory where
  ready ht := (hstaging.tensors_ready hp hassembling hbuilders ht).1
  info ht := (hstaging.tensors_ready hp hassembling hbuilders ht).2
  host hhost i t ht := by
    obtain ⟨b, hb, -, ht⟩ := p.mem_tensors.1 ht
    obtain ⟨b₁, hb₁, -, hplace, -, htensors⟩ := exists_frame hstaging.frames (hbuilders ▸ hb)
    obtain ⟨b₀, -, hb₀⟩ := (mem_of_forall₂ hp).1 b₁ hb₁
    have hknown := (hb₀.known (htensors ▸ SortedMap.find?_mem ht)).1
    rw [hknown, ← hb₀.place, ← hplace]
    exact hhost b hb
  apart {i j t u} ht hu hcell := by
    obtain ⟨_, ht⟩ := Plan.mem_entries ht
    obtain ⟨_, hu⟩ := Plan.mem_entries hu
    have hentries : entries p.builders = entries bs₁ := by
      rw [hbuilders, entries_congr hstaging.frames, entries_congr hassembling.frames]
    rw [hentries] at ht hu
    have hapart : Apart bs₁ := hassembling.laid.cells
    have he := List.inj_on_of_nodup_map hapart.split.1 ht hu hcell
    cases he
    rfl

theorem complete_holds (h : Plannable Mixed model d builders)
    (hinitialized : ∀ b ∈ builders, ∀ i ∈ b.marked, Initialized model.operands d i)
    (hp : List.Forall₂ (Prepared model.operands) builders bs)
    (hassembling : Assembling m₀ bs { builders := bs₁, machine := m₁ }) (hstaging : Staging bs m₁ a)
    (hmodel : p.model = model) (hbuilders : p.builders = a.builders) :
    Returns (outcome (d.complete p) a) fun p a' => p.HoldsConstants a'.machine.memory := by
  subst hmodel
  obtain ⟨m, hfill, hm⟩ := fillConstants_filling h.sized
    (hstaging.fillable hp hassembling hbuilders) h.suits
  refine complete_ends hfill ((Plan.synchronizeAll_returns p.builders m).mono ?_)
  rintro _ _ ⟨rfl, hfine⟩ i o ho hdata t ht
  obtain ⟨b, hb, hi, -⟩ := p.mem_tensors.1 ht
  obtain ⟨b₁, hb₁, -, -, hmarked, -⟩ := exists_frame hstaging.frames (hbuilders ▸ hb)
  obtain ⟨b₀, hb₀, hprepared⟩ := (mem_of_forall₂ hp).1 b₁ hb₁
  have hinit := hinitialized b₀ hb₀ i (hprepared.marked ▸ hmarked ▸ hi) o ho hdata
  exact hm.holds hfine (i, t) (Plan.mem_filledBy.2 ⟨hinit, ht⟩)

/-! ## Replacing initializers -/

/-- Two initializers of a constant do the same to any of its tensors. -/
theorem fill_congr {init' : Initializer} (hc : ConstantsSized os) (ho : os[i]? = some o)
    (hinfo : t.info = ⟨o.shape, o.type⟩) (h : Suits os i init) (h' : Suits os i init') :
    init'.fill t = init.fill t := by
  obtain ⟨y, hy, hfill⟩ := fill_writes (s := ("", i)) hc ho hinfo h
  obtain ⟨y', hy', hfill'⟩ := fill_writes (s := ("", i)) hc ho hinfo h'
  obtain rfl : y' = y := Option.some.inj (hy'.converted.symm.trans hy.converted)
  exact funext fun m => (hfill' m).trans (hfill m).symm

theorem forM_congr {f g : Tensor → Task Unit} : ∀ {l : List Tensor}, (∀ t ∈ l, f t = g t) →
    l.forM f = l.forM g
  | [], _ => rfl
  | t :: l, h => by
    have hrest := forM_congr (l := l) fun u hu => h u (List.mem_cons_of_mem t hu)
    rw [List.forM_eq_forM] at hrest ⊢
    rw [List.forM_cons, List.forM_cons, h t (by simp), hrest]

/-- Other initializers of the same constants fill them in alike. -/
theorem fillConstants_congr (hc : ConstantsSized os)
    (hinfo : ∀ {i t}, t ∈ p.tensors i → ∃ o, os[i]? = some o ∧ t.info = ⟨o.shape, o.type⟩) :
    ∀ {inits inits' : SortedMap OperandId Initializer}, inits'.map Prod.fst = inits.map Prod.fst →
      (∀ {i init}, (i, init) ∈ inits → Suits os i init) →
      (∀ {i init}, (i, init) ∈ inits' → Suits os i init) →
      p.fillConstants inits' = p.fillConstants inits
  | [], [], _, _, _ => rfl
  | (i, init) :: inits, (i', init') :: inits', hkeys, h, h' => by
    rw [List.map_cons, List.map_cons, List.cons.injEq] at hkeys
    obtain ⟨rfl, hkeys⟩ := hkeys
    have hrest := fillConstants_congr hc hinfo hkeys (fun hmem => h (List.mem_cons_of_mem _ hmem))
      fun hmem => h' (List.mem_cons_of_mem _ hmem)
    have hfirst : (p.tensors i').forM init'.fill = (p.tensors i').forM init.fill :=
      forM_congr fun t ht => by
        obtain ⟨o, ho, hinfo⟩ := hinfo ht
        exact fill_congr hc ho hinfo (h (by simp)) (h' (by simp))
    simp only [Plan.fillConstants, List.forM_eq_forM] at hrest hfirst ⊢
    rw [List.forM_cons, List.forM_cons, hrest, hfirst]

/-- **Replacing initializers changes nothing.** -/
theorem finalize_initializers (h : Plannable Mixed model d builders)
    {inits : SortedMap OperandId Initializer}
    (hkeys : inits.map Prod.fst = d.initializers.map Prod.fst)
    (hsuits : ∀ {i init}, (i, init) ∈ inits → Suits model.operands i init) (m₀ : Machine) :
    outcome ({ d with initializers := inits }.finalize model builders) m₀
      = outcome (d.finalize model builders) m₀ := by
  refine finalize_congr rfl ((prepareAll_laid h.marked h.constraints m₀).mono
    (fun _ _ hm => hm) fun _ _ _ => trivial) fun bs m hm => ?_
  obtain ⟨hprepared, hlaid, hfree⟩ := hm
  obtain ⟨r, bs₁, m₁, hrun, -, hends⟩ := allocateAll_ends hprepared hlaid hfree
  have hassembling (hr : r = .ok ()) : Assembling m₀ bs { builders := bs₁, machine := m₁ } := by
    subst hr
    exact hends
  refine assemble_congr hrun rfl (fun hr => applyAll_raises (.start (hassembling hr))
    (housed_of_prepared hprepared) (h.seated hprepared)) fun hr p a ha hbuilders => ?_
  rw [PlanDraft.complete, PlanDraft.complete, fillConstants_congr h.sized
    (fun ht => (ha.tensors_ready hprepared (hassembling hr) hbuilders ht).2) hkeys h.suits hsuits]

/-- Which initializers a draft has for the constants does not matter. -/
structure Interchangeable (model : Model) (d : PlanDraft) (builders : List TensorBuilder) :
    Prop where
  suits : ∀ {i init}, (i, init) ∈ d.initializers → Suits model.operands i init
  /-- Reordering weights is the same as copying them. -/
  fill_eq : ∀ {i : OperandId} {o : Operand} {data : Bytes} {t : Tensor} {f : Feature},
    model.operands[i]? = some o → o.data = some data → o.shape = f.dims →
    t.info = ⟨o.shape, o.type⟩ → ∀ m,
    outcome ((Initializer.weights data f).fill t) m
      = outcome ((Initializer.copy data o.type).fill t) m
  /-- Other initializers of the same constants make the same plan. -/
  finalize_eq : ∀ {inits : SortedMap OperandId Initializer},
    inits.map Prod.fst = d.initializers.map Prod.fst →
    (∀ {i init}, (i, init) ∈ inits → Suits model.operands i init) → ∀ m,
    outcome ({ d with initializers := inits }.finalize model builders) m
      = outcome (d.finalize model builders) m

theorem Plannable.interchangeable (h : Plannable Mixed model d builders) :
    Interchangeable model d builders where
  suits := h.suits
  fill_eq {i o data t f} ho hd hshape hinfo m := by
    rw [fill_congr h.sized ho hinfo ⟨o, data, ho, hd, .inl rfl⟩
      ⟨o, data, ho, hd, .inr ⟨f, hshape, rfl⟩⟩]
  finalize_eq hkeys hsuits m := finalize_initializers h hkeys hsuits m

/-- **Constants do not depend on which initializer wins.** In a plan that was compiled every tensor
of a constant holds its words, in the order of the tensor, and with other initializers the plan
would have been the same. -/
theorem compile_constants (calls : List Call) (policy : Policy) (s : Platform) :
    (∀ p s', outcome (compile (ofCalls calls) policy) s = (.ok p, s') →
      p.HoldsConstants s'.machine.memory) ∧
    ∀ model d builders s',
      outcome (accept (ofCalls calls) policy) s = (.ok (model, d, builders), s') →
      Interchangeable model d builders := by
  have haccept : Returns (outcome (accept (ofCalls calls) policy) s) fun a _ =>
      Plannable s.registry.Mixed a.1 a.2.1 a.2.2 ∧
        ∀ b ∈ a.2.2, ∀ i ∈ b.marked, Initialized a.1.operands a.2.1 i :=
    (accept_raises calls policy s).mono (fun _ _ ha => ha.2) fun _ _ _ => trivial
  refine ⟨fun p s' hp => ?_, fun model d builders s' ha => (haccept.of_eq ha).1.interchangeable⟩
  have hends : Returns (outcome (compile (ofCalls calls) policy) s) fun p s' =>
      p.HoldsConstants s'.machine.memory := by
    rw [compile_eq]
    refine haccept.bind fun a s₁ ha => ?_
    obtain ⟨hplannable, hinitialized⟩ := ha
    exact Platform.onMachine_ends (finalize_of_complete hplannable s₁.machine (fun _ => trivial)
      fun hp hassembling hstaging =>
        complete_holds hplannable hinitialized hp hassembling hstaging rfl rfl)
  exact hends.of_eq hp

/-- The weights of a convolution are also added to themselves. -/
def sharedCalls : List Call :=
  let number (n : UInt8) (i : OperandId) : List Call :=
    [.addOperand [] { element := .scalarInt32 }, .setValue i [n, 0, 0, 0]]
  let float : TypeInfo := { element := .float32 }
  [.addOperand [1, 1, 2, 2] float, .addOperand [2, 1, 2, 2] float, .addOperand [2] float,
    .addOperand [1, 1, 1, 2] float, .addOperand [2, 1, 2, 2] float,
    .setValue 1 ((List.range 32).map UInt8.ofNat), .setValue 2 (List.replicate 8 0)] ++
  number 2 5 ++ number 1 6 ++ number 0 7 ++
  [.addOperation ⟨[0, 1, 2], [3],
      .conv2d { padding := 5, strideW := 6, strideH := 6, activation := 7 }⟩,
    .addOperation ⟨[1, 1], [4], .add 7⟩, .addInput 0, .addOutput 3, .addOutput 4]

/-- The convolution runs on the device, the addition on the host. -/
def sharedPolicy : Policy := ({ default := "cpu" } : Policy).withKind .conv2d "gpu"

/-- Both layouts hold the weights, which the device would reorder itself, but which are copied. -/
theorem compile_constants_shared : ∃ p s',
    outcome (compile (ofCalls sharedCalls) sharedPolicy)
      { registry := [Backend.device, Backend.host] } = (.ok p, s') ∧
    (p.tensors 1).map (·.layout) = [.nhwc, .nchw] ∧ p.HoldsConstants s'.machine.memory ∧
    ∃ model d builders s'', outcome (accept (ofCalls sharedCalls) sharedPolicy)
      { registry := [Backend.device, Backend.host] } = (.ok (model, d, builders), s'') ∧
      Interchangeable model d builders := by
  have hcompiled : (fun p : Plan => (p.tensors 1).map (·.layout)) <$>
      (outcome (compile (ofCalls sharedCalls) sharedPolicy)
        { registry := [Backend.device, Backend.host] }).1 = .ok [.nhwc, .nchw] := by decide +kernel
  have haccepted : (fun _ => ()) <$> (outcome (accept (ofCalls sharedCalls) sharedPolicy)
        { registry := [Backend.device, Backend.host] }).1 = .ok () := by decide +kernel
  obtain ⟨p, hp, hlayouts⟩ := map_eq_ok.1 hcompiled
  obtain ⟨⟨model, d, builders⟩, ha, -⟩ := map_eq_ok.1 haccepted
  obtain ⟨hholds, hinterchangeable⟩ := compile_constants sharedCalls sharedPolicy
    { registry := [Backend.device, Backend.host] }
  exact ⟨p, _, outcome_eq hp, hlayouts, hholds _ _ (outcome_eq hp), model, d, builders, _,
    outcome_eq ha, hinterchangeable _ _ _ _ (outcome_eq ha)⟩

end HeteroNet
