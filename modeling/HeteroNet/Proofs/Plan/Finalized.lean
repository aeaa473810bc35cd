import HeteroNet.Proofs.Plan.Filled

/-
Making a plan. What planning collected is enough: making the plan either succeeds, and then the plan
has the steps of its operations and tensors filled for its first run, or the device runs out of
memory or meets an injected fault, or an operand has more elements than a buffer can have words.
Either way the memory there was before is as it was.
-/

namespace HeteroNet

open Operation Model

variable {needs : List Site} {m₀ m m' : Machine} {builders bs : List TensorBuilder}
  {ops : List (Operation × Placement)} {model : Model} {d : PlanDraft}

/-- The builders, before anything is prepared, have marked the tensors `needs`. -/
structure Marks (needs : List Site) (bs : List TensorBuilder) : Prop where
  names : (bs.map (·.backend)).Pairwise (· < ·)
  backend : ∀ {id i}, (id, i) ∈ needs → id ∈ bs.map (·.backend)
  place : ∀ b ∈ bs, b.place = placeOf b.backend
  marked : ∀ b ∈ bs, ∀ i, i ∈ b.marked ↔ (b.backend, i) ∈ needs
  used : ∀ b ∈ bs, ∃ i, (b.backend, i) ∈ needs
  once : ∀ b ∈ bs, b.marked.Nodup
  fresh : ∀ b ∈ bs, Marked b

/-- Everything that making a plan needs to know. -/
structure Planning (model : Model) (ops : List (Operation × Placement)) (d : PlanDraft)
    (builders : List TensorBuilder) : Prop where
  runs : Runs model ops
  constants : ConstantsSized model.operands
  marks : Marks (sites ops) builders
  constraints : ∀ id i, (id, i) ∈ sites ops → ∃ o, model.operands[i]? = some o ∧
    d.constraints.find? i = some ⟨o.shape, o.type⟩
  stages : List.Forall₂ (Staged model.operands) ops d.stages
  suits : ∀ {i init}, (i, init) ∈ d.initializers → Suits model.operands i init
  supplied : Supplied model.operands (sites ops) d.initializers

/-- The failure reports an injected fault. -/
def Reported (m₀ : Machine) (e : Failure) : Prop :=
  ∃ text, Injected m₀ text ∧ e = .error (.execution (.backend Machine.deviceName text))

/-- The number of elements of one of the operands that have tensors. -/
def Needed (os : Operands) (needs : List Site) (n : Nat) : Prop :=
  ∃ site ∈ needs, ∃ o, os[site.2]? = some o ∧ n = o.shape.elements

/-- A failed call gave the memory there was before back as it was. The device got back what it had
given away, unless the call broke off. -/
structure Refused (m₀ : Machine) (model : Model) (ops : List (Operation × Placement)) (e : Failure)
    (m : Machine) : Prop where
  cause : Lacking m₀ (Needed model.operands (sites ops)) e ∨ Reported m₀ e
  intact : Intact m₀ m
  failure : m.device.failure = none
  allocated : e ≠ .oversized → m.device.allocated = m₀.device.allocated

/-- A failed call did not reach outside of a buffer. -/
theorem Refused.inside {e : Failure} (h : Refused m₀ model ops e m) : e ≠ .outOfBounds := by
  rcases h.cause with (⟨⟨_, _, rfl⟩, -⟩ | ⟨rfl, -⟩) | ⟨_, -, rfl⟩ <;> simp

/-- A new plan. -/
structure Finished (m₀ : Machine) (model : Model) (ops : List (Operation × Placement)) (p : Plan)
    (m : Machine) : Prop where
  model_eq : p.model = model
  made : p.Made ops
  kept : p.Kept ops m.memory
  lent : Lent m₀ (tensorsOf p.builders) m
  fits : ∀ n, Needed model.operands (sites ops) n → n ≤ Buffer.capacity
  intact : Intact m₀ m
  failure : m.device.failure = none

/-- Preparing builders keeps their backends. -/
theorem backends_prepared {os : Operands} (h : List.Forall₂ (Prepared os) builders bs) :
    bs.map (·.backend) = builders.map (·.backend) := by
  induction h with
  | nil => rfl
  | cons hb _ ih => rw [List.map_cons, List.map_cons, hb.backend, ih]

theorem Marks.table {os : Operands} (h : Marks needs builders)
    (hp : List.Forall₂ (Prepared os) builders bs) : Table os needs bs := by
  have hnames := backends_prepared hp
  have hmem : ∀ b' ∈ bs, ∃ b ∈ builders, Prepared os b b' := (mem_of_forall₂ hp).1
  refine ⟨hnames ▸ h.names, fun hs => hnames ▸ h.backend hs, fun b' hb' => ?_, fun b' hb' => ?_,
    fun b' hb' => ?_, fun b' hb' => ?_, fun b' hb' => ?_, fun b' hb' => ?_⟩ <;>
    obtain ⟨b, hb, hbb⟩ := hmem b' hb'
  · rw [hbb.place, hbb.backend]
    exact h.place b hb
  · rw [hbb.marked, hbb.backend]
    exact h.marked b hb
  · rw [hbb.backend]
    exact h.used b hb
  · rw [hbb.keys, hbb.marked]
  · rw [hbb.marked]
    exact h.once b hb
  · intro i t ht
    rw [hbb.place]
    exact hbb.known ht

/-! ## Needs -/

theorem Table.needed {os : Operands} (h : Table os needs bs) {t : Tensor}
    (ht : t ∈ (entries bs).map Prod.snd) : Needed os needs t.info.elements := by
  obtain ⟨⟨s, t⟩, hs, rfl⟩ := List.mem_map.1 ht
  obtain ⟨hsite, -, -, o, ho, hinfo⟩ := h.tensorAt_known (h.tensorAt_iff.2 hs)
  exact ⟨s, hsite, o, ho, congrArg TensorInfo.elements hinfo⟩

theorem Table.exists_needed {os : Operands} (h : Table os needs bs) {n : Nat}
    (hn : Needed os needs n) : ∃ t ∈ tensorsOf bs, n = t.info.elements := by
  obtain ⟨⟨id, i⟩, hs, o, ho, rfl⟩ := hn
  obtain ⟨t, ht⟩ := h.exists_tensorAt hs
  obtain ⟨-, -, -, o', ho', hinfo⟩ := h.tensorAt_known ht
  rw [ho, Option.some.injEq] at ho'
  exact ⟨t, mem_tensorsOf_of_tensorAt ht, by rw [TensorInfo.elements, hinfo, ho']⟩

/-! ## Memory that was there before -/

theorem Intact.rewritten {W : CellId → Prop} (h : Intact m₀ m)
    (hm : Memory.Rewritten W m.memory m'.memory) (hW : ∀ c, W c → m₀.memory.length ≤ c) :
    Intact m₀ m' where
  length := hm.length ▸ h.length
  old c hc := (hm.same c fun hw => Nat.not_lt.2 (hW c hw) hc).trans (h.old c hc)
  whole c hc := (hm.damaged c).trans (h.whole c hc)

/-- Letting go of new memory leaves the old as it was. -/
theorem Intact.releaseAll {ts : List Tensor} : ∀ {m : Machine}, Intact m₀ m →
    (∀ t ∈ ts, m₀.memory.length ≤ t.cell) →
    Intact m₀ (ts.foldl (fun m t => t.release m) m) ∧
      (ts.foldl (fun m t => t.release m) m).device.failure = m.device.failure := by
  induction ts with
  | nil => exact fun h _ => ⟨h, rfl⟩
  | cons t ts ih =>
    intro m h hnew
    have hstep : Intact m₀ (t.release m) := by
      refine ⟨?_, fun c hc => ?_, fun c hc => ?_⟩
      · simp only [Tensor.release, Machine.release, List.length_modify]
        exact h.length
      · have hne : t.cell ≠ c := Nat.ne_of_gt (Nat.lt_of_lt_of_le hc (hnew t (by simp)))
        exact (Memory.cell_modify_other hne).trans (h.old c hc)
      · exact Memory.cell_modify_holds (P := fun c => c.damaged = false) (fun _ hx => hx)
          (h.whole c hc)
    exact ih hstep fun u hu => hnew u (List.mem_cons_of_mem _ hu)

/-! ## The last steps -/

/-- What is true when making a plan failed halfway. -/
structure Halfway (m₀ : Machine) (model : Model) (ops : List (Operation × Placement)) (e : Failure)
    (a : Assembly) : Prop where
  cause : Lacking m₀ (Needed model.operands (sites ops)) e ∨ Reported m₀ e
  intact : Intact m₀ a.machine
  failure : a.machine.device.failure = none
  celled : Celled m₀ (tensorsOf a.builders) a.machine
  allocated : e ≠ .oversized → GivenAway m₀ (tensorsOf a.builders) a.machine

theorem CutShort.halfway {e : Failure} {a : Assembly} (hfail : m₀.device.failure = none)
    (h : CutShort m₀ (tensorsOf a.builders) e a.machine)
    (he : Lacking m₀ (Needed model.operands (sites ops)) e) : Halfway m₀ model ops e a :=
  ⟨.inl he, h.toIntact, h.failure.trans hfail, h.toCelled, h.allocated⟩

/-- Letting go of all that was made so far gives the memory back. -/
theorem Halfway.refused {e : Failure} {a : Assembly} (h : Halfway m₀ model ops e a) :
    Refused m₀ model ops e (Plan.releaseAll a.builders a.machine) := by
  have hp := (tensorsOf_perm a.builders).symm
  have hcelled : Celled m₀ (tensorsBy a.builders) a.machine := h.celled.perm hp
  obtain ⟨hintact, hfailure⟩ := h.intact.releaseAll hcelled.new
  exact ⟨h.cause, hintact, hfailure.trans h.failure,
    fun he => hcelled.releaseAll ((h.allocated he).perm hp)⟩

/-- When the constants are filled in, a plan is complete as soon as its tensors are waited for. -/
theorem complete_ends {d : PlanDraft} {p : Plan} {a : Assembly} {post : Plan → Assembly → Prop}
    {err : Failure → Assembly → Prop}
    (hfill : outcome (p.fillConstants d.initializers) a.machine = (.ok (), m))
    (hwait : Ends (outcome (Plan.synchronizeAll p.builders) m)
      (fun _ m' => post p { a with machine := m' }) fun e m' => err e { a with machine := m' }) :
    Ends (outcome (d.complete p) a) post err := by
  refine Ends.bind (Assembly.onMachine_ends ?_)
  rw [hfill]
  exact Ends.bind (Assembly.onMachine_ends hwait)

/-- Once all stages are applied, the constants are filled. -/
theorem fill_ends (h : Planning model ops d builders) (hfail : m₀.device.failure = none)
    {a : Assembly} (ha : Assembling m₀ bs a) (htable : Table model.operands (sites ops) bs)
    {p : Plan} (hmodel : p.model = model) (hbuilders : p.builders = a.builders)
    (hsteps : ∃ groups, p.runnables = groups.flatten ∧
      List.Forall₂ (Bound model.operands a.builders) ops groups) :
    Ends (outcome (d.complete p) a)
      (fun p a' => Finished m₀ model ops p a'.machine) (Halfway m₀ model ops) := by
  subst hmodel
  have htable' : Table p.model.operands (sites ops) p.builders := by
    rw [hbuilders]
    exact ha.table htable
  have hapart : Apart p.builders := by
    rw [hbuilders]
    exact ha.laid.cells
  have hlent : Lent m₀ (tensorsOf p.builders) a.machine := by
    rw [hbuilders]
    exact ha.laid.toLent
  have hready : AllReady p.builders a.machine.memory := fun t ht => by
    rw [hbuilders] at ht
    exact (ha.blank t ht).ready (ha.laid.bound t ht) (ha.laid.whole _ (ha.laid.new t ht))
  have hblank : ∀ t ∈ tensorsOf p.builders, Blank a.machine t := by
    rw [hbuilders]
    exact ha.blank
  obtain ⟨m₁, E, n, hfill, hgoing, hrewrites⟩ := fillConstants_going
    (W := fun c => m₀.memory.length ≤ c) (D := ∃ b ∈ p.builders, b.place = .device)
    htable' hapart hready hlent.new (fun b hb hp => ⟨b, hb, hp⟩) h.constants h.suits
    (.start (ha.laid.failure.trans hfail))
  have hE := hrewrites.holds htable' h.supplied hblank
  have hfits : ∀ n, Needed p.model.operands (sites ops) n → n ≤ Buffer.capacity := by
    intro n hn
    obtain ⟨t, ht, rfl⟩ := htable'.exists_needed hn
    exact (hblank t ht).fits
  refine complete_ends hfill ((Plan.synchronizeAll_ends id hgoing).mono
    (fun _ m₂ hm₂ => ?_) fun e m₂ hstop => ?_)
  · obtain ⟨rfl, hhealthy⟩ := hm₂
    refine ⟨rfl, ⟨h.runs, htable', hapart, ?_⟩, ⟨hready.rewritten hgoing.memory,
      fun s t ht _ _ => ?_⟩, hlent.rewritten hgoing.memory hhealthy.allocated, hfits,
      ha.laid.toIntact.rewritten hgoing.memory fun _ hc => hc, hhealthy.failure⟩
    · rw [hbuilders]
      exact hsteps
    · change Layout.Stores _ _ _ (m₂.memory.contents t.cell)
      rw [hhealthy.contents]
      exact hE s t ht
  · obtain ⟨text, hinjected, he⟩ := hstop.reported
    have hlent := ha.laid.toLent.rewritten hstop.memory hstop.allocated
    refine ⟨.inr ⟨text, ?_, he⟩, ha.laid.toIntact.rewritten hstop.memory fun _ hc => hc,
      hstop.failure, hlent.toCelled, fun _ => hlent.allocated⟩
    obtain ⟨label, reason, hfault, rfl⟩ := hinjected
    exact ⟨label, reason, ha.laid.fault.symm.trans hfault, rfl⟩

theorem scratchOf_prepared {os : Operands} (h : List.Forall₂ (Prepared os) builders bs) :
    scratchOf bs = [] := by
  induction h with
  | nil => rfl
  | @cons b b' builders bs hb _ ih =>
    change b'.scratch ++ scratchOf bs = []
    rw [hb.scratch, ih, List.nil_append]

/-- Giving memory to prepared builders: all their tensors get some, or memory is lacking. -/
theorem allocateAll_ends {os : Operands} (hp : List.Forall₂ (Prepared os) builders bs)
    (hlaid : Laid m₀ (tensorsOf bs) m) (hfree : Unreserved m (tensorsOf bs)) :
    ∃ r bs' m₁, Plan.allocateAll bs m = (r, bs', m₁) ∧ tensorsOf bs' = tensorsOf bs ∧
      Ends (r, m₁) (fun _ m₁ => Assembling m₀ bs { builders := bs', machine := m₁ })
        (fun e m₁ => Starved m₀ (tensorsOf bs) ((entries bs).map Prod.snd) e m₁) := by
  have hphases : ∀ b ∈ bs, b.phase = .prepared := fun b' hb' => by
    obtain ⟨b, -, hb⟩ := (mem_of_forall₂ hp).1 b' hb'
    exact hb.phase
  have htensors : tensorsOf bs = (entries bs).map Prod.snd := by
    rw [tensorsOf, scratchOf_prepared hp, List.append_nil]
  obtain ⟨r, bs', m₁, hrun, hends⟩ := allocateAll_laid hphases hlaid
    (fun t ht => htensors ▸ ht) (htensors ▸ hlaid.cells) (htensors ▸ hfree)
  have hkept := allocateAll_kept bs m
  rw [hrun] at hkept
  obtain ⟨hframes, hscratch⟩ := frames_of_kept hkept
  have htensors' : tensorsOf bs' = tensorsOf bs := by
    rw [tensorsOf, tensorsOf, entries_congr hframes, hscratch]
  refine ⟨r, bs', m₁, hrun, htensors', hends.mono (fun _ m₁ hm₁ => ?_) fun _ _ he => he⟩
  obtain ⟨hallocated, hfilled⟩ := hm₁
  refine ⟨hframes, hallocated, ?_, fun t ht => hfilled.blank t ?_⟩
  · rw [htensors']
    exact hfilled.toLaid
  · rw [← htensors, ← htensors']
    exact ht

/-- Memory, stages and constants, from prepared builders. -/
theorem assemble_ends (h : Planning model ops d builders) (hfail : m₀.device.failure = none)
    (hp : List.Forall₂ (Prepared model.operands) builders bs) (hlaid : Laid m₀ (tensorsOf bs) m)
    (hfree : Unreserved m (tensorsOf bs)) :
    Ends (outcome (d.assemble model) { builders := bs, machine := m })
      (fun p a => Finished m₀ model ops p a.machine) (Halfway m₀ model ops) := by
  have htable := h.marks.table hp
  obtain ⟨r, bs', m₁, hrun, htensors, hends⟩ := allocateAll_ends hp hlaid hfree
  refine assemble_of_allocate hrun (fun e he => ?_) fun hr => ?_
  · subst he
    refine CutShort.halfway hfail ?_ (hends.cause.mono fun n ⟨t, ht, hn⟩ =>
      hn ▸ htable.needed ht)
    rw [htensors]
    exact hends.toCutShort
  · subst hr
    refine (applyAll_staged htable h.stages
      (fun q hq s hs => List.mem_flatMap.2 ⟨q, hq, hs⟩) hends).mono (fun _ a ha' => ?_)
      fun e a he => (he.laid.cutShort e).halfway hfail (.inl he.cause)
    obtain ⟨hassembled, groups, hgroups, hbounds⟩ := ha'
    exact fill_ends h hfail hassembled.toAssembling htable rfl rfl
      ⟨groups, by rw [hgroups, List.nil_append], hbounds⟩

/-- **Making a plan.** -/
theorem finalize_ends (h : Planning model ops d builders) (hfail : m₀.device.failure = none) :
    Ends (outcome (d.finalize model builders) m₀)
      (fun p m => Finished m₀ model ops p m) (Refused m₀ model ops) := by
  have hconstraints : ∀ b ∈ builders, ∀ i ∈ b.marked, ∃ o, model.operands[i]? = some o ∧
      d.constraints.find? i = some ⟨o.shape, o.type⟩ :=
    fun b hb i hi => h.constraints b.backend i ((h.marks.marked b hb i).1 hi)
  refine finalize_of_prepare ((prepareAll_laid h.marks.fresh hconstraints m₀).mono
    (fun _ _ hm => hm) fun _ _ he => he.elim) fun bs m hm => ?_
  obtain ⟨hprepared, hlaid, hfree⟩ := hm
  exact (assemble_ends h hfail hprepared hlaid hfree).mono (fun _ _ hp => hp)
    fun _ _ he => he.refused

end HeteroNet
