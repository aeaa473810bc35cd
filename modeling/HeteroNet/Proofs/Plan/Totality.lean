import HeteroNet.Proofs.Plan.Fitted
import HeteroNet.Proofs.Plan.Supported
import HeteroNet.Proofs.Plan.Twins

/-
When a compilation returns a plan. Each of its parts returns under a condition of its own: backends
are chosen if they are registered, contexts are made if the backends of all tensors are, operations
are planned if they pass their checks, and making the plan fails only for what the device does. So on
a platform that has what it needs (`Platform.Ready`) a model that is accepted has a plan as soon as
all operations of the lowered model pass and no operand is larger than a buffer (`compile_total`).
-/

namespace HeteroNet

open Operation Model

variable {m₀ m m' : Model} {policy : Policy} {s : Platform} {r r' : Registry}
  {ops : List (Operation × Placement)} {order : List OperationId}

/-! ## Backends -/

/-- All backends are found that the policy names for operations of a model. -/
def Policy.Known (policy : Policy) (r : Registry) (m : Model) : Prop :=
  ∀ op ∈ m.operations, ∃ b, r.lookup (policy.backendFor op.kind) = .ok b

theorem resolve_total (hr : r.AllDefault) (hknown : policy.Known r m) :
    policy.resolve r m = .ok (m.operations.map policy.place) := by
  refine mapM_eq_ok.2 (List.forall₂_map_right_iff.2 (List.forall₂_same.2 fun op hop => ?_))
  obtain ⟨b, hb⟩ := hknown op hop
  obtain ⟨hlayout, hrefuses⟩ := lookup_layout hr hb
  have hsupports : b.supports op.kind = true := by simp [Backend.supports, hrefuses]
  refine bind_eq_ok.2 ⟨b, hb, ?_⟩
  rw [hsupports, hlayout]
  rfl

theorem Registry.Alike.symm (h : r.Alike r') : r'.Alike r := fun id => (h id).symm

/-- Every tensor is marked whose backend is registered. -/
theorem markAll_total (hs : s.Clean) {marks : List Site}
    (hknown : ∀ site ∈ marks, ∃ b, s.registry.lookup site.1 = .ok b) :
    ∃ cs s', outcome (marks.foldlM markTensor []) s = (.ok cs, s') ∧ Contexts marks cs ∧
      Starts s s' := by
  obtain ⟨cs, s', hrun, hI⟩ : ∃ cs s', outcome (marks.foldlM markTensor []) s = (.ok cs, s') ∧
      (Contexts marks cs ∧ Starts s s') ∧ Registered s.registry cs ∧
        s.registry.Alike s'.registry := by
    refine foldlM_total (fun done cs s' => (Contexts done cs ∧ Starts s s') ∧
      Registered s.registry cs ∧ s.registry.Alike s'.registry) (fun done site cs s₁ hsite hI => ?_)
      ⟨⟨.nil, hs, rfl⟩, fun _ _ hmem => (by cases hmem), fun _ => rfl⟩
    obtain ⟨⟨hcs, hstarts⟩, hregistered, halike⟩ := hI
    -- Starting a backend keeps all names in the registry, so that later tensors find theirs.
    obtain ⟨b, hb⟩ := hknown site hsite
    obtain ⟨b₁, hb₁, -⟩ := halike.symm.lookup hb
    exact (((markTensor_ends hstarts.1 hstarts hcs site).and
      (markTensor_registered hregistered halike site)).mono (fun _ _ h => h)
      fun e s' he => he.1.2 b₁ hb₁).exists_ok
  exact ⟨cs, s', hrun, hI.1⟩

/-! ## Planning -/

namespace Planner

variable {os : Operands} {op : Operation} {d : PlanDraft}

/-- A loop of planning steps returns if every step does, from what the steps before it leave. -/
theorem planning_forM_total {α : Type} {f : α → Planning PUnit} (I : List α → PlanDraft → Prop)
    {l : List α} (step : ∀ done a d, a ∈ l → I done d →
      ∃ d', (f a).run d = .ok (⟨⟩, d') ∧ I (done ++ [a]) d') (hI : I [] d) :
    ∃ d', (l.forM f).run d = .ok (⟨⟩, d') := by
  suffices h : ∀ rest done d, (∀ a ∈ rest, a ∈ l) → I done d →
      ∃ d', (List.forM rest f).run d = .ok (⟨⟩, d') from h l [] d (fun _ ha => ha) hI
  intro rest
  induction rest with
  | nil => exact fun _ d _ _ => ⟨d, rfl⟩
  | cons a rest ih =>
    intro done d hsub hI
    obtain ⟨d₁, h₁, hI₁⟩ := step done a d (hsub a (by simp)) hI
    obtain ⟨d₂, h₂⟩ := ih (done ++ [a]) d₁ (fun x hx => hsub x (by simp [hx])) hI₁
    refine ⟨d₂, ?_⟩
    rw [List.forM_eq_forM, List.forM_cons, ← List.forM_eq_forM]
    exact planning_bind.2 ⟨⟨⟩, d₁, h₁, h₂⟩

theorem addConstraints_total (hd : d.Fits os)
    (hget : ∀ i ∈ op.inputs ++ op.outputs, ∃ o, os[i]? = some o) :
    ∃ d', (addConstraints os op).run d = .ok ((), d') := by
  refine planning_forM_total (fun _ d => d.Fits os) (fun _ i d hi hd => ?_) hd
  obtain ⟨o, ho⟩ := hget i hi
  have hc := addConstraint_total hd ho
  refine ⟨_, ?_, (addConstraint_fits ho hc).1 hd⟩
  refine planning_bind.2 ⟨o, d, planning_check.2 ⟨Operands.get_eq_ok.2 ho, rfl⟩, ?_⟩
  refine planning_bind.2 ⟨d, d, rfl, ?_⟩
  exact planning_bind.2 ⟨_, d, planning_check.2 ⟨hc, rfl⟩, rfl⟩

theorem addPlainConstants_total (hget : ∀ i ∈ op.inputs, ∃ o, os[i]? = some o) :
    ∃ d', (addPlainConstants os op).run d = .ok ((), d') := by
  refine planning_forM_total (fun _ _ => True) (fun _ e d he _ => ?_) trivial
  obtain ⟨i, role⟩ := e
  obtain ⟨o, ho⟩ := hget i (List.mem_of_getElem? (List.mk_mem_zipIdx_iff_getElem?.1 he))
  dsimp only
  split
  · obtain ⟨d', h⟩ := initializeConstant_total ho (constant_total ho) d
    exact ⟨d', h, trivial⟩
  · exact ⟨d, rfl, trivial⟩

/-- An operation that passed its checks has a stage wherever it is placed. -/
theorem generate_total {c : Context} {d' : PlanDraft} (harity : op.checkArity = .ok ())
    (h : (checkOperation os c op).run d = .ok ((), d')) (place : Place) (id : BackendId) :
    ∃ stage, Stage.generate place id op os = .ok stage := by
  by_cases hk : op.kind = .permute
  · cases ha : op.attributes with
    | permute a b =>
      obtain ⟨x, o, s, -, -, -, -, hgen⟩ := permute_planned ha harity h
      exact ⟨_, hgen place id⟩
    | _ =>
      rw [Operation.kind, ha] at hk
      cases hk
  · obtain ⟨ss, o, out, k, k', act, fl, hp⟩ := checkOperation_planned harity hk h
    cases place with
    | host => exact ⟨_, hp.host id⟩
    | device => exact ⟨_, hp.device id⟩

/-- Nothing keeps the planner from planning the operation on backend `id`. -/
structure Plannable (os : Operands) (contexts : SortedMap BackendId Context) (op : Operation)
    (id : BackendId) : Prop where
  context : ∃ c, contexts.find? id = some c
  arity : op.checkArity = .ok ()
  operands : ∀ i ∈ op.inputs ++ op.outputs, ∃ o, os[i]? = some o
  passes : ∀ c d, ∃ d', (checkOperation os c op).run d = .ok ((), d')

theorem visit_total {contexts : SortedMap BackendId Context} {p : Placement} (hd : d.Fits os)
    (h : Plannable os contexts op p.backend) :
    ∃ d', (visit os contexts op p).run d = .ok ((), d') := by
  obtain ⟨c, hc⟩ := h.context
  obtain ⟨d₁, h₁⟩ := h.passes c d
  have hd₁ := (checkOperation_fits h₁).1 hd
  obtain ⟨d₂, h₂⟩ := addConstraints_total hd₁ h.operands
  obtain ⟨d₃, h₃⟩ : ∃ d₃, (addPlainConstants os op).run d₂ = .ok ((), d₃) :=
    addPlainConstants_total fun i hi => h.operands i (List.mem_append_left _ hi)
  obtain ⟨stage, hstage⟩ := generate_total h.arity h₁ c.backend.stages c.backend.stageName
  refine ⟨d₃.addStage stage, ?_⟩
  rw [visit, hc]
  refine planning_bind.2 ⟨(), d, planning_check.2 ⟨h.arity, rfl⟩, ?_⟩
  refine planning_bind.2 ⟨(), d₁, h₁, planning_bind.2 ⟨(), d₂, h₂, planning_bind.2 ⟨(), d₃, h₃, ?_⟩⟩⟩
  exact planning_bind.2 ⟨stage, d₃, planning_lift.2 ⟨hstage, rfl⟩, rfl⟩

/-- All operations are planned if each of them can be. -/
theorem draftPlan_total {contexts : SortedMap BackendId Context}
    (hops : m.placedOperations order = .ok ops)
    (h : ∀ q ∈ ops, Plannable m.operands contexts q.1 q.2.backend) :
    ∃ d, draftPlan m contexts order = .ok d := by
  obtain ⟨d, hrun⟩ := planning_forM_total
    (f := fun q : Operation × Placement => visit m.operands contexts q.1 q.2)
    (fun done d => Drafted m.operands contexts done d) (fun done q d hq hd => by
      obtain ⟨d', hvisit⟩ := visit_total hd.fits (h q hq)
      exact ⟨d', hvisit, visit_drafted hd hvisit⟩) .empty
  exact ⟨d, bind_eq_ok.2 ⟨ops, lift_eq_ok.2 hops, bind_eq_ok.2 ⟨_, hrun, rfl⟩⟩⟩

end Planner

/-! ## Lowered models -/

/-- A model that is finished and whose backends are chosen is lowered. -/
theorem placeModel_total {ps : List Placement} (h₀ : m₀.Built) (hm : m₀.finished = .ok m)
    (hps : policy.resolve r m = .ok ps) : ∃ copies sm m', placeModel m₀ r policy = .ok m' ∧
      m'.phase = .lowered ∧ Lowering m₀ m ps copies sm m' := by
  obtain ⟨hsame, hl, hc, hphase⟩ := finished_ok h₀ hm
  obtain ⟨m', hlower, hlowered⟩ := lower_total hl hc hphase (resolve_length hps)
  obtain ⟨copies, sm, hlow⟩ := lower_lowering hsame h₀.sound.constants hl hc hlower
  refine ⟨copies, sm, m', ?_, hlowered, hlow⟩
  rw [placeModel_eq]
  refine bind_eq_ok.2 ⟨m, hm, bind_eq_ok.2 ⟨ps, hps, ?_⟩⟩
  rw [placeModel.after, show (lower ps).on m = (.ok (), m') from hlower]

/-- An operation of a lowered model runs on the backend to which it writes; it reads and writes on
backends of the caller's operations. -/
theorem Model.Lowering.handles {ps : List Placement} {copies : Copies} {sm : Model}
    (h : Lowering m₀ m ps copies sm m') (hplain : ∀ op ∈ m₀.operations, op.kind ≠ .permute)
    {j : OperationId} {op : Operation} {p : Placement} (hop : m'.operations[j]? = some op)
    (hp : m'.placements[j]? = some p) :
    p.backend = op.target p ∧ (∃ q ∈ ps, q.backend = op.source p) ∧
      ∃ q ∈ ps, q.backend = op.target p := by
  rw [h.lowered.operations] at hop
  rw [h.placements] at hp
  rcases h.split.cases h.count hop with
    ⟨op₀, p₀, hop₀, hp₀, hp', rfl⟩ | ⟨k, i, a, b, -, rfl, hv, ⟨w, -, q, hq, hqa⟩, -, hon⟩
  · rw [hp, Option.some.injEq] at hp'
    subst hp'
    have hk : op₀.kind ≠ .permute :=
      hplain op₀ (h.finished.operations ▸ List.mem_of_getElem? hop₀)
    have hmem := List.mem_of_getElem? hp₀
    rw [source_of_kind (by exact hk), target_of_kind (by exact hk)]
    exact ⟨rfl, ⟨p, hmem, rfl⟩, p, hmem, rfl⟩
  · obtain ⟨p', hp', hb⟩ := hon
    rw [hp, Option.some.injEq] at hp'
    subst hp'
    obtain ⟨-, l, -, q', hq', hqb⟩ := (h.split.copied hv).crosses
    exact ⟨hb, ⟨q, List.mem_of_getElem? hq, hqa⟩, q', List.mem_of_getElem? hq', hqb⟩

/-- All tensors of a lowered model are on registered backends, and so are the operations. -/
theorem Model.Lowering.sites_known {copies : Copies} {sm : Model}
    (h : Lowering m₀ m (m.operations.map policy.place) copies sm m')
    (hplain : ∀ op ∈ m₀.operations, op.kind ≠ .permute) (hknown : policy.Known r m)
    (hops : m'.placedOperations order = .ok ops) :
    ∀ site ∈ sites ops, ∃ b, r.lookup site.1 = .ok b := by
  have hlookup : ∀ {id}, (∃ q ∈ m.operations.map policy.place, q.backend = id) →
      ∃ b, r.lookup id = .ok b := by
    rintro id ⟨q, hq, rfl⟩
    obtain ⟨op, hop, rfl⟩ := List.mem_map.1 hq
    exact hknown op hop
  intro site hsite
  obtain ⟨⟨op, p⟩, hq, hsite⟩ := List.mem_flatMap.1 hsite
  obtain ⟨j, hop, hp⟩ := placed_of_mem hops hq
  obtain ⟨-, hsource, htarget⟩ := h.handles hplain hop hp
  rcases List.mem_append.1 hsite with hs | hs
  · obtain ⟨i, -, rfl⟩ := List.mem_map.1 hs
    exact hlookup hsource
  · obtain ⟨i, -, rfl⟩ := List.mem_map.1 hs
    exact hlookup htarget

/-- All operations of a lowered model are planned that pass their checks. -/
theorem Model.Lowering.plannable {ps : List Placement} {copies : Copies} {sm : Model}
    {contexts : SortedMap BackendId Context} (h : Lowering m₀ m ps copies sm m')
    (hplain : ∀ op ∈ m₀.operations, op.kind ≠ .permute) (hops : m'.placedOperations order = .ok ops)
    (hcs : Contexts (sites ops) contexts) {q : Operation × Placement} (hq : q ∈ ops)
    (hpass : ∀ c d, ∃ d', (Planner.checkOperation m'.operands c q.1).run d = .ok ((), d')) :
    Planner.Plannable m'.operands contexts q.1 q.2.backend where
  context := by
    obtain ⟨j, hop, hp⟩ := placed_of_mem hops hq
    obtain ⟨o, ho⟩ :=
      Operation.outputs_of_checkArity (h.lowChecked.arity (List.mem_of_getElem? hop))
    obtain ⟨c, hc⟩ := hcs.all (List.mem_flatMap.2 ⟨q, hq, List.mem_append_right _
      (List.mem_map.2 ⟨o, ho ▸ List.mem_singleton_self o, rfl⟩)⟩)
    rw [← (h.handles hplain hop hp).1] at hc
    exact ⟨c, hcs.ascending.find?.2 hc⟩
  arity := by
    obtain ⟨j, hop, -⟩ := placed_of_mem hops hq
    exact h.lowChecked.arity (List.mem_of_getElem? hop)
  operands i hi := by
    obtain ⟨j, hop, -⟩ := placed_of_mem hops hq
    exact ⟨_, List.getElem?_eq_getElem (h.lowChecked.named (List.mem_of_getElem? hop)
      (List.mem_append_left _ hi))⟩
  passes := hpass

/-! ## Compilations -/

/-- However the model is lowered as the policy says, all operations pass their checks. -/
def Model.PassesLowered (m₀ m : Model) (policy : Policy) : Prop :=
  ∀ {copies sm m'}, Lowering m₀ m (m.operations.map policy.place) copies sm m' →
    ∀ op ∈ m'.operations, ∀ c d, ∃ d',
      (Planner.checkOperation m'.operands c op).run d = .ok ((), d')

/-- A model is accepted if all operations of the lowered model pass their checks. -/
theorem accept_total (h₀ : m₀.Built) (hplain : ∀ op ∈ m₀.operations, op.kind ≠ .permute)
    (hs : s.Clean) (hm : m₀.finished = .ok m) (hknown : policy.Known s.registry m)
    (hpass : m₀.PassesLowered m policy) : ∃ a s', outcome (accept m₀ policy) s = (.ok a, s') := by
  obtain ⟨copies, sm, m', hplaced, hphase, hlow⟩ :=
    placeModel_total h₀ hm (resolve_total hs.registry hknown)
  obtain ⟨order, horder⟩ := linearize_total hlow.lowChecked hphase
  obtain ⟨-, -, hmem⟩ := linearize_ok hlow.lowLinked hlow.lowChecked horder
  obtain ⟨ops, hops⟩ := placedOperations_total (fun j hj => (hmem j).1 hj) hlow.count_placements
  obtain ⟨contexts, s', hmarks, hcs, -⟩ := markAll_total hs (hlow.sites_known hplain hknown hops)
  obtain ⟨d, hdraft⟩ := Planner.draftPlan_total hops fun q hq => by
    obtain ⟨j, hop, -⟩ := placed_of_mem hops hq
    exact hlow.plannable hplain hops hcs hq (hpass hlow q.1 (List.mem_of_getElem? hop))
  rw [accept]
  exact ⟨_, s', outcome_bind_ok.2 ⟨s, s, outcome_get s,
    outcome_bind_ok.2 ⟨m', s, outcome_lift_of_ok hplaced s,
    outcome_bind_ok.2 ⟨order, s, outcome_lift_of_ok horder s,
    outcome_bind_ok.2 ⟨_, s, outcome_lift_of_ok (tensorMarks_eq hops) s,
    outcome_bind_ok.2 ⟨contexts, s', hmarks,
    outcome_bind_ok.2 ⟨d, s', outcome_check_of_ok hdraft s', rfl⟩⟩⟩⟩⟩⟩⟩

/-- A platform on which nothing is missing: the two default backends are registered and no others,
and the device has no limit of memory and no failure on the way. -/
structure Platform.Ready (s : Platform) : Prop where
  clean : s.Clean
  host : ∃ b, s.registry.lookup "cpu" = .ok b
  device : ∃ b, s.registry.lookup "gpu" = .ok b
  limit : s.machine.device.limit = none
  fault : s.machine.device.fault = none

/-- The policy names default backends only. -/
def Policy.NamesDefault (policy : Policy) : Prop :=
  ∀ k, policy.backendFor k = "cpu" ∨ policy.backendFor k = "gpu"

theorem Platform.Ready.known (h : s.Ready) (hpolicy : policy.NamesDefault) (m : Model) :
    policy.Known s.registry m := by
  intro op _
  rcases hpolicy op.kind with hid | hid
  · rw [hid]
    exact h.host
  · rw [hid]
    exact h.device

/-- A buffer can be as large as every operand that the operations read or write. -/
def Model.Fits (m : Model) : Prop := ∀ n, m.Needs n → n ≤ Buffer.capacity

/-- **Where nothing is missing, an accepted model has a plan** if its operands are no larger than
buffers. -/
theorem compile_total (h₀ : m₀.Built) (hplain : ∀ op ∈ m₀.operations, op.kind ≠ .permute)
    (hs : s.Ready) (hpolicy : policy.NamesDefault) (hm : m₀.finished = .ok m)
    (hpass : m₀.PassesLowered m policy) (hfits : m₀.Fits) :
    ∃ p s', outcome (compile m₀ policy) s = (.ok p, s') := by
  obtain ⟨a, s', haccept⟩ := accept_total h₀ hplain hs.clean hm (hs.known hpolicy m) hpass
  have hends := accept_ends policy h₀ hs.clean
  rw [haccept] at hends
  obtain ⟨⟨hclean, hmachine⟩, ops, hcompiles, hplanning⟩ := hends
  have hfinal : Ends (outcome (Platform.onMachine (a.2.1.finalize a.1 a.2.2)) s')
      (fun _ _ => True) (fun _ _ => False) := by
    refine Platform.onMachine_ends ((finalize_ends hplanning hclean.failure).mono
      (fun _ _ _ => trivial) fun e m he => ?_)
    rw [hmachine] at he
    rcases he.cause with hlacking | ⟨_, ⟨_, _, hfault, -⟩, -⟩
    · obtain ⟨-, l, hlimit⟩ := hlacking.exhausted fun n hn => hfits n (hcompiles.needs h₀ hn)
      rw [hs.limit] at hlimit
      cases hlimit
    · rw [hs.fault] at hfault
      cases hfault
  obtain ⟨p, s'', hrun, -⟩ := hfinal.exists_ok
  refine ⟨p, s'', ?_⟩
  rw [compile_eq, outcome_bind_of_ok haccept]
  exact hrun

end HeteroNet
