import HeteroNet.Proofs.Model.Placed
import HeteroNet.Proofs.Plan.Contexts
import HeteroNet.Proofs.Plan.Judged

/-
Compilations. The first steps of a compilation decide whether a model is accepted (`accept`). They
do not touch the machine, and what they collect is enough to make the plan. So an accepted model
gets its plan, or the device runs out of memory or meets an injected fault.

Which operations a plan runs, and in which order, is settled by the model and the policy alone
(`Compiles.unique`).
-/

namespace HeteroNet

open Operation Model

variable {m₀ m m' m'' : Model} {policy : Policy} {ops ops' : List (Operation × Placement)}
  {order : List OperationId} {s : Platform}

/-! ## The operations in order -/

/-- Where all operations have placements, these are as many. -/
theorem length_placements_ge (hmem : ∀ j, j ∈ order ↔ j < m.operations.length)
    (hops : List.Forall₂ (fun j (q : Operation × Placement) =>
      m.operations[j]? = some q.1 ∧ m.placements[j]? = some q.2) order ops) :
    m.operations.length ≤ m.placements.length := by
  by_contra hlt
  obtain ⟨q, -, -, hp⟩ := (mem_of_forall₂ hops).2 _ ((hmem _).2 (Nat.not_le.1 hlt))
  exact absurd (List.getElem?_eq_some_iff.1 hp).1 (Nat.lt_irrefl _)

/-- The operations of an order that has each once are those of the model, with their placements. -/
theorem placed_perm (hmem : ∀ j, j ∈ order ↔ j < m.operations.length) (hn : order.Nodup)
    (hops : List.Forall₂ (fun j (q : Operation × Placement) =>
      m.operations[j]? = some q.1 ∧ m.placements[j]? = some q.2) order ops) :
    ops.Perm (m.operations.zip m.placements) := by
  have hlen : (m.operations.zip m.placements).length = m.operations.length := by
    rw [List.length_zip, Nat.min_eq_left (length_placements_ge hmem hops)]
  have hleft : order.map ((m.operations.zip m.placements)[·]?) = ops.map some := by
    clear hmem hn
    induction hops with
    | nil => rfl
    | cons hq _ ih =>
      rw [List.map_cons, List.map_cons, ih, List.getElem?_zip_eq_some.2 hq]
  refine (List.map_perm_map_iff (Option.some_injective _)).1 ?_
  rw [← hleft, ← map_getElem?_range, hlen]
  refine ((List.perm_ext_iff_of_nodup hn List.nodup_range).2 fun j => ?_).map _
  rw [hmem, List.mem_range]

/-- What a test counts does not depend on the order. -/
theorem countP_placed (test : Operation → Bool) (hmem : ∀ j, j ∈ order ↔ j < m.operations.length)
    (hn : order.Nodup) (hops : List.Forall₂ (fun j (q : Operation × Placement) =>
      m.operations[j]? = some q.1 ∧ m.placements[j]? = some q.2) order ops) :
    ops.countP (fun q => test q.1) = m.operations.countP test := by
  have hcount := ((placed_perm hmem hn hops).map Prod.fst).countP_eq test
  rwa [List.map_fst_zip (length_placements_ge hmem hops), List.countP_map] at hcount

/-- An order that has every operation places every operation. -/
theorem exists_placed (hmem : ∀ j, j ∈ order ↔ j < m.operations.length)
    (hops : List.Forall₂ (fun j (q : Operation × Placement) =>
      m.operations[j]? = some q.1 ∧ m.placements[j]? = some q.2) order ops) {j : OperationId}
    {op : Operation} (hop : m.operations[j]? = some op) :
    ∃ p, (op, p) ∈ ops ∧ m.placements[j]? = some p := by
  obtain ⟨⟨op', p⟩, hq, hop', hp⟩ :=
    (mem_of_forall₂ hops).2 j ((hmem j).2 (List.getElem?_eq_some_iff.1 hop).1)
  rw [hop] at hop'
  cases hop'
  exact ⟨p, hq, hp⟩

/-- The operations of a lowered model run in the order that was found. -/
theorem runs_of_order (hl : m.Linked) (hc : m.Checked) (horder : m.linearize = .ok order)
    (hops : m.placedOperations order = .ok ops)
    (hworks : ∀ q ∈ ops, ∃ ss o out k, q.1.Works m.operands ss o out k) : Runs m ops := by
  obtain ⟨hn, hclosed, hmem⟩ := linearize_ok hl hc horder
  have hall := placedOperations_ok.1 hops
  refine ⟨fun q hq => ?_, exists_placed hmem hall, fun test => countP_placed test hmem hn hall,
    ordered_of_closed hl hc hn hclosed hall, hworks⟩
  obtain ⟨j, -, hj⟩ := (mem_of_forall₂ hall).1 q hq
  exact ⟨j, hj⟩

/-! ## What the planner collected -/

variable {contexts : SortedMap BackendId Context} {d : PlanDraft}

theorem Visited.staged {os : Operands} {q : Operation × Placement} {stage : Stage}
    (hbackend : ∀ c, contexts.find? q.2.backend = some c →
      c.backend.IsDefault ∧ c.backend.id = q.2.backend)
    (h : Visited os contexts q stage) : Staged os q stage := by
  obtain ⟨op, p⟩ := q
  obtain ⟨harity, c, d₁, d₂, hc, hchecked, hstage⟩ := h
  obtain ⟨hdefault, hid⟩ := hbackend c hc
  obtain ⟨-, hname, -, hplace, -⟩ := hdefault.parts
  rw [hname, hplace, hid] at hstage
  by_cases hk : op.kind = .permute
  · cases ha : op.attributes with
    | permute a b =>
      obtain ⟨x, o, s, hx, ho, hxs, hos, hgen⟩ := Planner.permute_planned ha harity hchecked
      rw [hgen] at hstage
      cases hstage
      exact .permute ha hx ho hxs hos
    | _ =>
      rw [Operation.kind, ha] at hk
      cases hk
  · obtain ⟨ss, o, out, k, k', act, fl, hp⟩ := Planner.checkOperation_planned harity hk hchecked
    cases hplace : placeOf p.backend with
    | host =>
      rw [hplace, hp.host] at hstage
      cases hstage
      exact .host hp hk hplace
    | device =>
      rw [hplace, hp.device] at hstage
      cases hstage
      exact .device hp hk hplace

theorem Staged.works {os : Operands} {q : Operation × Placement} {stage : Stage}
    (h : Staged os q stage) : ∃ ss o out k, q.1.Works os ss o out k := by
  cases h with
  | host hp => exact ⟨_, _, _, _, hp.works⟩
  | device hp => exact ⟨_, _, _, _, hp.works⟩
  | permute ha hx ho hxs hos => exact ⟨_, _, _, _, works_of_permute ha hx ho hxs hos⟩

theorem mem_sites {id : BackendId} {i : OperandId} (h : (id, i) ∈ sites ops) :
    ∃ q ∈ ops, i ∈ q.1.inputs ++ q.1.outputs := by
  obtain ⟨q, hq, hs⟩ := List.mem_flatMap.1 h
  refine ⟨q, hq, ?_⟩
  rcases List.mem_append.1 hs with hs | hs
  · obtain ⟨j, hj, he⟩ := List.mem_map.1 hs
    cases he
    exact List.mem_append_left _ hj
  · obtain ⟨j, hj, he⟩ := List.mem_map.1 hs
    cases he
    exact List.mem_append_right _ hj

theorem tensorMarks_eq (hops : m.placedOperations order = .ok ops) :
    m.tensorMarks order = .ok (sites ops) := by
  rw [tensorMarks, hops]
  refine congrArg Except.ok (List.flatMap_congr fun q _ => ?_)
  exact tensorsOf_eq q.1 q.2

/-- Every constant that has a tensor was given an initializer. -/
theorem supplied_of_draft (hc : m.Checked) (hops : m.placedOperations order = .ok ops)
    (hd : Drafted m.operands contexts ops d) :
    Supplied m.operands (sites ops) d.initializers := by
  intro id i o hs ho hdata
  obtain ⟨q, hq, hi⟩ := mem_sites hs
  rcases List.mem_append.1 hi with hi | hi
  · exact hd.initialized q hq i hi o ho hdata
  · -- What an operation writes is no constant.
    obtain ⟨j, hop, -⟩ := placed_of_mem hops hq
    obtain ⟨hnone, -⟩ := hc.written (List.mem_of_getElem? hop) hi ho
    rw [hnone] at hdata
    cases hdata

/-- **What planning collected is enough to make the plan.** -/
theorem planning_of_draft (hl : m.Linked) (hc : m.Checked) (hconst : ConstantsSized m.operands)
    (horder : m.linearize = .ok order) (hops : m.placedOperations order = .ok ops)
    (hcs : Contexts (sites ops) contexts) (hd : Drafted m.operands contexts ops d) :
    Planning m ops d (contexts.map fun (_, c) => c.builder) := by
  have hstages : List.Forall₂ (Staged m.operands) ops d.stages :=
    hd.stages.imp fun q stage hq => hq.staged fun c hc => hcs.backend (SortedMap.find?_mem hc)
  refine ⟨runs_of_order hl hc horder hops fun q hq => ?_, hconst, hcs.marks, fun id i hs => ?_,
    hstages, hd.fits.suits, supplied_of_draft hc hops hd⟩
  · obtain ⟨stage, -, hstage⟩ := (mem_of_forall₂ hstages).2 q hq
    exact hstage.works
  · obtain ⟨q, hq, hi⟩ := mem_sites hs
    obtain ⟨info, hinfo⟩ := Option.isSome_iff_exists.1 (hd.constraint q hq i hi)
    obtain ⟨o, ho, rfl⟩ := hd.fits.constraint hinfo
    exact ⟨o, ho, hinfo⟩

/-! ## What the operations need -/

/-- The operations read or write an operand with so many elements. -/
def Model.Needs (m : Model) (n : Nat) : Prop :=
  ∃ op ∈ m.operations, ∃ i ∈ op.inputs ++ op.outputs,
    ∃ o, m.operands[i]? = some o ∧ n = o.shape.elements

/-- **A tensor is as large as an operand of the caller**, whether it is a copy of it or not. -/
theorem Model.Lowering.needs {ps : List Placement} {copies : Copies} {sm : Model}
    (h : Lowering m₀ m ps copies sm m') (hops : m'.placedOperations order = .ok ops) {n : Nat}
    (hn : Needed m'.operands (sites ops) n) : m₀.Needs n := by
  obtain ⟨⟨id, v⟩, hsite, o', ho', rfl⟩ := hn
  suffices ∃ op ∈ m.operations, ∃ i ∈ op.inputs ++ op.outputs, Root m copies v i by
    obtain ⟨op, hop, i, hi, hroot⟩ := this
    obtain ⟨o, o'', ho, ho'', hshape, -⟩ := h.alike hroot
    rw [ho', Option.some.injEq] at ho''
    exact ⟨op, h.finished.operations ▸ hop, i, hi, o, ho, by rw [ho'', hshape]⟩
  obtain ⟨⟨op, p⟩, hq, hv⟩ := mem_sites hsite
  obtain ⟨j, hop, -⟩ := placed_of_mem hops hq
  rw [h.lowered.operations] at hop
  rcases h.split.cases h.count hop with
    ⟨op₀, p₀, hop₀, -, -, rfl⟩ | ⟨k, i, a, b, -, rfl, hlookup, -⟩
  · have hmem := List.mem_of_getElem? hop₀
    rcases List.mem_append.1 hv with hv | hv
    · obtain ⟨i, hi, rfl⟩ := List.mem_map.1 hv
      exact ⟨op₀, hmem, i, List.mem_append_left _ hi, root_read (h.checked.input_lt hmem hi)⟩
    · exact ⟨op₀, hmem, v, List.mem_append_right _ hv, .inl ⟨rfl, h.checked.named hmem (by
        simp [Operation.operands, show v ∈ op₀.outputs from hv])⟩⟩
  · obtain ⟨-, l, ⟨op, hop, hi⟩, -⟩ := (h.split.copied hlookup).crosses
    have hmem := List.mem_of_getElem? hop
    refine ⟨op, hmem, i, List.mem_append_left _ hi, ?_⟩
    rcases List.mem_append.1 hv with hv | hv <;> obtain rfl := List.mem_singleton.1 hv
    · exact .inl ⟨rfl, h.checked.input_lt hmem hi⟩
    · exact .inr ⟨b, hlookup⟩

/-! ## Compilations -/

/-- What a compilation of `m₀` for a policy makes of the model, and the order it finds. -/
structure Compiles (m₀ : Model) (policy : Policy) (m' : Model)
    (ops : List (Operation × Placement)) : Prop where
  placed : ∃ r : Registry, r.AllDefault ∧ placeModel m₀ r policy = .ok m'
  ordered : ∃ order, m'.linearize = .ok order ∧ m'.placedOperations order = .ok ops

/-- A default backend is known by its name. -/
theorem lookup_layout {r : Registry} (hr : r.AllDefault) {id : BackendId} {b : Backend}
    (h : r.lookup id = .ok b) : b.layout = (placeOf id).layout ∧ b.refuses = [] := by
  obtain ⟨hmem, rfl⟩ := Registry.lookup_ok h
  exact ⟨(hr b hmem).parts.2.2.2.2.1, (hr b hmem).parts.2.2.2.2.2⟩

/-- The policy settles the backend of every operation. -/
theorem resolve_eq {r : Registry} (hr : r.AllDefault) {ps : List Placement}
    (h : policy.resolve r m = .ok ps) : ps = m.operations.map fun op =>
      ⟨policy.backendFor op.kind, (placeOf (policy.backendFor op.kind)).layout⟩ := by
  have hall := mapM_eq_ok.1 h
  generalize m.operations = operations at hall
  clear * - hall hr
  induction hall with
  | nil => rfl
  | @cons op p operations ps hop _ ih =>
    obtain ⟨b, hb, hp⟩ := bind_eq_ok.1 hop
    obtain ⟨hlayout, hrefuses⟩ := lookup_layout hr hb
    have hsupports : b.supports op.kind = true := by simp [Backend.supports, hrefuses]
    rw [hsupports] at hp
    cases hp
    rw [List.map_cons, ← ih, hlayout]

theorem placeModel_congr {r r' : Registry} (hr : r.AllDefault) (hr' : r'.AllDefault)
    (h : placeModel m₀ r policy = .ok m') (h' : placeModel m₀ r' policy = .ok m'') : m' = m'' := by
  obtain ⟨m, ps, hm, hps, hlower⟩ := placeModel_finished h
  obtain ⟨n, ps', hn, hps', hlower'⟩ := placeModel_finished h'
  rw [hm] at hn
  cases hn
  obtain rfl : ps = ps' := (resolve_eq hr hps).trans (resolve_eq hr' hps').symm
  rw [hlower] at hlower'
  cases hlower'
  rfl

/-- **The model and the policy settle what a plan runs.** -/
theorem Compiles.unique (h : Compiles m₀ policy m' ops) (h' : Compiles m₀ policy m'' ops') :
    m'' = m' ∧ ops' = ops := by
  obtain ⟨⟨r, hr, hplaced⟩, order, horder, hops⟩ := h
  obtain ⟨⟨r', hr', hplaced'⟩, order', horder', hops'⟩ := h'
  obtain rfl := placeModel_congr hr hr' hplaced hplaced'
  rw [horder] at horder'
  cases horder'
  rw [hops] at hops'
  cases hops'
  exact ⟨rfl, rfl⟩

theorem Compiles.needs (h : Compiles m₀ policy m' ops) (h₀ : m₀.Built) {n : Nat}
    (hn : Needed m'.operands (sites ops) n) : m₀.Needs n := by
  obtain ⟨⟨r, -, hplaced⟩, order, -, hops⟩ := h
  obtain ⟨m, ps, copies, s, -, hlowering⟩ := placeModel_ok h₀ hplaced
  exact hlowering.needs hops hn

theorem Compiles.lowering (h : Compiles m₀ policy m' ops) (h₀ : m₀.Built) :
    ∃ m ps copies s, Lowering m₀ m ps copies s m' := by
  obtain ⟨⟨r, -, hplaced⟩, -⟩ := h
  obtain ⟨m, ps, copies, s, -, hlowering⟩ := placeModel_ok h₀ hplaced
  exact ⟨m, ps, copies, s, hlowering⟩

/-- The operations of a compilation are those of the lowered model. -/
theorem Compiles.perm (h : Compiles m₀ policy m' ops) (h₀ : m₀.Built) :
    ops.Perm (m'.operations.zip m'.placements) := by
  obtain ⟨m, ps, copies, s, hlowering⟩ := h.lowering h₀
  obtain ⟨order, horder, hops⟩ := h.ordered
  obtain ⟨hn, -, hmem⟩ := linearize_ok hlowering.lowLinked hlowering.lowChecked horder
  exact placed_perm hmem hn (placedOperations_ok.1 hops)

/-- Every output of a lowered model is read or written by an operation, and so it needs a tensor. -/
theorem Model.Lowering.output_site {ps : List Placement} {copies : Copies} {sm : Model}
    (h : Lowering m₀ m ps copies sm m')
    (hall : ∀ {j : OperationId} {op : Operation}, m'.operations[j]? = some op →
      ∃ p, (op, p) ∈ ops ∧ m'.placements[j]? = some p) {i : OperandId} (hi : i ∈ m'.outputs) :
    ∃ id, (id, i) ∈ sites ops := by
  have ho := List.getElem?_eq_getElem (h.lowChecked.given (List.mem_append_right m'.inputs hi))
  rcases h.lowChecked.output hi ho with hw | ⟨-, hu⟩
  · obtain ⟨j, hj⟩ := Option.isSome_iff_exists.1 hw
    obtain ⟨op, hop, hmem⟩ := (h.lowLinked.writer ho j).1 hj
    obtain ⟨p, hq, -⟩ := hall hop
    exact ⟨_, List.mem_flatMap.2 ⟨_, hq, List.mem_append_right _ (List.mem_map.2 ⟨i, hmem, rfl⟩)⟩⟩
  · obtain ⟨j, hj⟩ := List.exists_mem_of_ne_nil _ hu
    obtain ⟨op, hop, hmem⟩ := (h.lowLinked.uses ho j).1 hj
    obtain ⟨p, hq, -⟩ := hall hop
    exact ⟨_, reads_sites hq hmem⟩

/-- The part of a compilation that decides whether the model is accepted. What is left is to make
the plan. -/
def accept (model : Model) (policy : Policy) :
    PlatformTask (Model × PlanDraft × List TensorBuilder) := do
  let model ← placeModel model (← get).registry policy
  let order ← model.linearize
  let marks ← model.tensorMarks order
  let contexts ← marks.foldlM markTensor []
  let draft ← draftPlan model contexts order
  return (model, draft, contexts.map fun (_, c) => c.builder)

theorem compile_eq (model : Model) (policy : Policy) : compile model policy = (do
    let (model, draft, builders) ← accept model policy
    Platform.onMachine (draft.finalize model builders)) := by
  simp only [compile, accept, bind_assoc, pure_bind]

/-- **What accepting a model leaves.** -/
theorem accept_ends (policy : Policy) (h₀ : m₀.Built) (hs : s.Clean) :
    Ends (outcome (accept m₀ policy) s)
      (fun a s' => Starts s s' ∧ ∃ ops, Compiles m₀ policy a.1 ops ∧
        Planning a.1 ops a.2.1 a.2.2)
      (Declines s) := by
  have hdeclines : ∀ {α : Type} {x : Except Error α}, Judges x → ∀ e, x = .error e →
      Declines s (.error e) s := fun hx e he => ⟨hx e he, hs, rfl⟩
  rw [accept, outcome_bind_of_ok (outcome_get s)]
  refine Ends.bind (Ends.lift (fun m' hplaced => ?_) (hdeclines (judges_placeModel (.inl h₀))))
  refine Ends.bind (Ends.lift (fun order horder => ?_) (hdeclines judges_linearize))
  refine Ends.bind (Ends.lift (fun marks hmarks => ?_) (hdeclines (judges_tensorMarks order)))
  refine Ends.bind ((markAll_ends hs marks).mono (fun contexts s' hcs => ?_) fun _ _ he => he)
  obtain ⟨hcs, hstarts⟩ := hcs
  refine Ends.bind (Ends.check (fun d hd => ?_) fun e he =>
    ⟨decides_draftPlan m' contexts order e he, hstarts⟩)
  obtain ⟨ops, hops, hdrafted⟩ := draftPlan_drafted hd
  rw [tensorMarks_eq hops] at hmarks
  cases hmarks
  obtain ⟨m, ps, copies, sm, -, hlowering⟩ := placeModel_ok h₀ hplaced
  exact ⟨hstarts, ops, ⟨⟨_, hs.registry, hplaced⟩, order, horder, hops⟩,
    planning_of_draft hlowering.lowLinked hlowering.lowChecked hlowering.lowConstants horder hops
      hcs hdrafted⟩

theorem Platform.onMachine_ends {α : Type} {t : Task α} {post : α → Platform → Prop}
    {err : Failure → Platform → Prop}
    (h : Ends (outcome t s.machine) (fun x m => post x { s with machine := m })
      (fun e m => err e { s with machine := m })) :
    Ends (outcome (Platform.onMachine t) s) post err := by
  have hrun : outcome (Platform.onMachine t) s
      = ((outcome t s.machine).1, { s with machine := (outcome t s.machine).2 }) := rfl
  rw [hrun]
  revert h
  obtain ⟨r, m⟩ := outcome t s.machine
  cases r <;> exact id

/-- **A compilation.** Where it fails, the device has back what it gave away, unless an operand has more
elements than a buffer can have words. -/
theorem compile_ends (policy : Policy) (h₀ : m₀.Built) (hs : s.Clean) :
    Ends (outcome (compile m₀ policy) s)
      (fun p s' => s'.Clean ∧ ∃ ops, Compiles m₀ policy p.model ops ∧
        Finished s.machine p.model ops p s'.machine)
      (fun e s' => e ≠ .outOfBounds ∧ s'.Clean ∧ Intact s.machine s'.machine ∧
        (e ≠ .oversized → s'.machine.device.allocated = s.machine.device.allocated)) := by
  rw [compile_eq]
  refine Ends.bind ((accept_ends policy h₀ hs).mono (fun a s' ha => ?_) fun e s' he => ?_)
  · obtain ⟨⟨hclean, hmachine⟩, ops, hcompiles, hplanning⟩ := ha
    refine Platform.onMachine_ends ((finalize_ends hplanning hclean.failure).mono
      (fun p m hp => ?_) fun e m he => ?_)
    · rw [hmachine] at hp
      exact ⟨⟨hclean.registry, hp.failure⟩, ops, by rwa [hp.model_eq], by rwa [hp.model_eq]⟩
    · rw [hmachine] at he
      exact ⟨he.inside, ⟨hclean.registry, he.failure⟩, he.intact, he.allocated⟩
  · obtain ⟨hverdict, hclean, hmachine⟩ := he
    rw [hmachine]
    exact ⟨hverdict.inside, hclean, (Laid.nil s.machine).toIntact, fun _ => rfl⟩

end HeteroNet
