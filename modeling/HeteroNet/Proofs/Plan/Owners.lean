import HeteroNet.Proofs.Model.Linearized
import HeteroNet.Proofs.Model.Owned
import HeteroNet.Proofs.Plan.Compiled
import HeteroNet.Proofs.Plan.Owned
import HeteroNet.Proofs.Session.Wired
import HeteroNet.Settings

/-
One owner for every computed operand (`one_owner`). What lowering records of an operand and what a
compilation marks for it are the same backends; if the operand is written, it is one backend, so the
plan has one tensor for it. That tensor is filled by the steps of the operation that writes the
operand, and it is the one from which a session reads an output.
-/

namespace HeteroNet

open Operation Model

variable {m₀ s : Model} {policy : Policy} {platform : Platform} {order : List OperationId}
  {ops : List (Operation × Placement)} {os : Operands} {op : Operation} {stage : Stage}
  {place : Place} {id : BackendId} {p : Plan} {i : OperandId}

/-! ## The output of a stage -/

theorem ofKernel_output {kernel : Activation → Kernel} {act : Activation}
    (h : Stage.ofKernel place id op kernel act = .ok stage) : op.output = .ok stage.output := by
  obtain ⟨o, ho, h⟩ := bind_eq_ok.1 h
  cases place <;> cases h <;> exact ho

/-- How the stage of an operation comes about. Only on the device is a fully connected layer not just
a kernel. -/
inductive Generated (place : Place) (id : BackendId) (op : Operation) (os : Operands) : Stage → Prop
  | kernel {kernel act stage} : (op.kind = .fullyConnected → place = .host) →
    Stage.ofKernel place id op kernel act = .ok stage → Generated place id op os stage
  | dense {dense : Geometry.Dense} {x s type kernel act o} : op.kind = .fullyConnected →
    place = .device → op.input 0 = .ok x → HasShape os x s →
    s.elements = dense.batch * dense.inputSize → op.output = .ok o →
    Generated place id op os (.device id kernel act op.inputs o
      (if s.rank = 4 then
        some ⟨.reshape s [dense.batch, dense.inputSize], [dense.batch, dense.inputSize], type⟩
      else none))
  | permute {a b x o} : op.attributes = .permute a b → op.output = .ok o →
    Generated place id op os (.permute x o a b)

theorem generate_generated (h : Stage.generate place id op os = .ok stage) :
    Generated place id op os stage := by
  have hkind : ∀ {a : Attributes}, op.attributes = a → a.kind ≠ .fullyConnected →
      (op.kind = .fullyConnected → place = .host) := fun ha hne hk =>
    absurd (by rwa [Operation.kind, ha] at hk) hne
  cases ha : op.attributes <;> simp only [Stage.generate, ha] at h
  case conv2d | maxPool2d | avgPool2d | add =>
    obtain ⟨_, -, h⟩ := bind_eq_ok.1 h
    exact .kernel (hkind ha (by simp [Attributes.kind])) h
  case concat =>
    obtain ⟨_, -, h⟩ := bind_eq_ok.1 h
    obtain ⟨_, -, h⟩ := bind_eq_ok.1 h
    exact .kernel (hkind ha (by simp [Attributes.kind])) h
  case fullyConnected =>
    obtain ⟨⟨dense, activation⟩, hdense, h⟩ := bind_eq_ok.1 h
    cases place with
    | host => exact .kernel (fun _ => rfl) h
    | device =>
      obtain ⟨x, -, s, hx, -, hs, -, helements⟩ := Geometry.fullyConnected_ok hdense
      obtain ⟨x', hx', h⟩ := bind_eq_ok.1 h
      obtain rfl : x = x' := Except.ok.inj (hx.symm.trans hx')
      obtain ⟨input, hinput, h⟩ := bind_eq_ok.1 h
      obtain ⟨input', hinput', rfl⟩ := hs
      rw [lift_eq_ok, Operands.get_eq_ok, hinput'] at hinput
      cases hinput
      obtain ⟨o, ho, h⟩ := bind_eq_ok.1 h
      cases h
      exact .dense (by rw [Operation.kind, ha]; rfl) rfl hx ⟨_, hinput', rfl⟩ helements ho
  case reshape | cast =>
    obtain ⟨_, -, h⟩ := bind_eq_ok.1 h
    obtain ⟨_, -, h⟩ := bind_eq_ok.1 h
    obtain ⟨_, -, h⟩ := bind_eq_ok.1 h
    obtain ⟨_, -, h⟩ := bind_eq_ok.1 h
    exact .kernel (hkind ha (by simp [Attributes.kind])) h
  case softmax =>
    obtain ⟨_, -, h⟩ := bind_eq_ok.1 h
    obtain ⟨_, -, h⟩ := bind_eq_ok.1 h
    obtain ⟨_, -, h⟩ := bind_eq_ok.1 h
    exact .kernel (hkind ha (by simp [Attributes.kind])) h
  case nop => exact .kernel (hkind ha (by simp [Attributes.kind])) h
  case permute =>
    obtain ⟨_, -, h⟩ := bind_eq_ok.1 h
    obtain ⟨o, ho, h⟩ := bind_eq_ok.1 h
    cases h
    exact .permute ha ho

/-- A stage writes what its operation writes. -/
theorem generate_output (h : Stage.generate place id op os = .ok stage) :
    op.output = .ok stage.output := by
  cases generate_generated h with
  | kernel _ h => exact ofKernel_output h
  | dense _ _ _ _ _ ho => exact ho
  | permute _ ho => exact ho

theorem Visited.output {contexts : SortedMap BackendId Context} {q : Operation × Placement}
    (h : Visited os contexts q stage) {i : OperandId} (hi : i ∈ q.1.outputs) :
    stage.output = i := by
  obtain ⟨harity, c, d, d', -, -, hstage⟩ := h
  obtain ⟨o, ho⟩ := Operation.outputs_of_checkArity harity
  have hout := Operation.output_eq_ok.1 (generate_output hstage)
  rw [ho] at hi hout
  rw [List.mem_singleton.1 hi]
  exact (Option.some.inj hout).symm

/-! ## Compilations that return -/

/-- The plan has the tensors that the operations `ops`, which are those of `order`, need; and the
last step of each fills a tensor of what the operation writes. -/
structure Plan.Supplies (p : Plan) (s : Model) (order : List OperationId)
    (ops : List (Operation × Placement)) : Prop where
  model_eq : p.model = s
  single : ∀ {id i}, (∀ id', (id', i) ∈ sites ops ↔ id' = id) → ∃ t, p.tensors i = [t]
  steps : ∃ groups, p.runnables = groups.flatten ∧ List.Forall₂ (fun j rs =>
    ∀ i, s.Writes j i → ∃ t ∈ p.tensors i, ∃ r, rs.getLast? = some r ∧ r.output = t.cell)
    order groups

/-- **A compilation that returns**, whatever backends are registered. -/
theorem compile_supplies (m₀ : Model) (policy : Policy) (platform : Platform) :
    Returns (outcome (compile m₀ policy) platform) fun p _ => ∃ s order ops,
      placeModel m₀ platform.registry policy = .ok s ∧ s.linearize = .ok order ∧
        s.placedOperations order = .ok ops ∧ p.Supplies s order ops := by
  rw [compile, outcome_bind_of_ok (outcome_get platform)]
  refine Ends.bind (Returns.lift fun s hs => ?_)
  refine Ends.bind (Returns.lift fun order horder => ?_)
  refine Ends.bind (Returns.lift fun marks hmarks => ?_)
  refine (markAll_marks marks).bind fun cs platform' hcs => ?_
  refine Ends.bind (Returns.check fun d hd => ?_)
  obtain ⟨ops, hops, hdrafted⟩ := draftPlan_drafted hd
  rw [tensorMarks_eq hops] at hmarks
  cases hmarks
  refine Platform.onMachine_ends (finalize_fills.mono fun p m hp => ?_)
  obtain ⟨bs, hmarked, hkeyed, rfl, hframes, groups, hgroups, hall⟩ := hp
  have htensors : ∀ i, p.tensors i = owners bs i := fun i => by
    rw [p.tensors_eq_owners (hkeyed.congr hframes), owners_congr hframes]
  refine ⟨p.model, order, ops, hs, horder, hops, rfl, fun {id i} honly => ?_, groups, hgroups, ?_⟩
  · have hcount := length_owners hkeyed i
    rw [hmarked, hcs.count honly, ← htensors] at hcount
    exact List.length_eq_one_iff.1 hcount
  · have hfills : List.Forall₂ (fun (q : Operation × Placement) rs =>
        ∀ i ∈ q.1.outputs, Fills bs i rs) ops groups :=
      forall₂_trans (fun q stage rs hstage h i hi => hstage.output hi ▸ h) hdrafted.stages hall
    refine forall₂_trans (fun j q rs hq h i hi => ?_) (placedOperations_ok.1 hops) hfills
    obtain ⟨op, hop, hi⟩ := hi
    rw [hop, Option.some.injEq] at hq
    obtain ⟨rfl, -⟩ := hq
    rw [htensors]
    exact h i hi

/-! ## One owner -/

/-- The operations of an order, each with its backend. -/
theorem placedOperations_total (horder : ∀ j ∈ order, j < s.operations.length)
    (hcount : s.placements.length = s.operations.length) :
    ∃ ops, s.placedOperations order = .ok ops := by
  obtain ⟨ops, hops⟩ := exists_forall₂ (l := order) (R := fun j (q : Operation × Placement) =>
    s.operations[j]? = some q.1 ∧ s.placements[j]? = some q.2) fun j hj =>
      ⟨(_, _), List.getElem?_eq_getElem (horder j hj),
        List.getElem?_eq_getElem (hcount ▸ horder j hj)⟩
  exact ⟨ops, placedOperations_ok.2 hops⟩

/-- What a session reads from an output that stands for operand `i` is the tensor `t`. -/
def Plan.PulledFrom (p : Plan) (i : OperandId) (t : Tensor) : Prop :=
  ∀ (s s' : Session) (m m' : Machine) (slot : SlotId) (b : Binding), s.plan = p →
    s.sinks[slot]? = some (some b) → b.operand = i →
    outcome (Session.pullOne slot) (s, m) = (.ok (), (s', m')) →
    ∃ b', outcome (b.pull t) m = (.ok b', m') ∧ s'.sinks[slot]? = some (some b')

theorem Plan.pulledFrom {t : Tensor} (h : p.tensors i = [t]) : p.PulledFrom i t := by
  rintro s s' m m' slot b rfl hb rfl hrun
  rw [Session.pullOne, outcome_bind_of_ok (outcome_get _)] at hrun
  dsimp only at hrun
  rw [hb] at hrun
  dsimp only at hrun
  rw [h] at hrun
  obtain ⟨b', ⟨s₁, m₁⟩, hpull, hset⟩ := outcome_bind_ok.1 hrun
  simp only [outcome_modify, Prod.mk.injEq, true_and] at hset
  obtain ⟨rfl, rfl⟩ := hset
  rw [Session.onMachine_eq, Prod.mk.injEq, Prod.mk.injEq] at hpull
  obtain ⟨hanswer, rfl, rfl⟩ := hpull
  exact ⟨b', Prod.ext hanswer rfl,
    List.getElem?_set_self (List.getElem?_eq_some_iff.1 hb).1⟩

/-- The steps of the plan are those of the operations of `order`. What an operation writes has one
tensor; the last step of the operation fills it, and sessions read the output from it. -/
def Plan.Delivers (p : Plan) (order : List OperationId) : Prop :=
  ∃ groups, p.runnables = groups.flatten ∧ List.Forall₂ (fun j rs =>
    ∀ i, p.model.Writes j i → ∃ t, p.tensors i = [t] ∧
      (∃ r, rs.getLast? = some r ∧ r.output = t.cell) ∧ p.PulledFrom i t) order groups

/-- Where every operand that is written is needed on one backend, the plan has one tensor for it. -/
theorem Plan.Supplies.delivers (h : p.Supplies s order ops)
    (howner : ∀ j i, s.Writes j i → ∃ a, ∀ b, (b, i) ∈ sites ops ↔ b = a) :
    p.model = s ∧ p.Delivers order := by
  obtain ⟨rfl, hsingle, groups, hgroups, hfills⟩ := h
  refine ⟨rfl, groups, hgroups, hfills.imp fun j rs hlast i hi => ?_⟩
  obtain ⟨a, ha⟩ := howner j i hi
  obtain ⟨t, ht⟩ := hsingle ha
  obtain ⟨u, hu, hlast⟩ := hlast i hi
  rw [ht] at hu
  obtain rfl := List.mem_singleton.1 hu
  exact ⟨u, ht, hlast, Plan.pulledFrom ht⟩

/-- **One owner.** The tensors that a compilation marks, in the order of the run, are those that
lowering recorded; an operand that is written has one backend, its writer's, so that a plan has one
tensor for it, the one that its writer fills and that sessions read; and any other operand has the
backends of the operations that read it. This holds for whatever backends are registered. -/
theorem one_owner (h₀ : m₀.Built) (hplain : ∀ op ∈ m₀.operations, op.kind ≠ .permute)
    (hs : placeModel m₀ platform.registry policy = .ok s) :
    ∃ order marks, s.linearize = .ok order ∧ s.tensorMarks order = .ok marks ∧
      (∀ b i, (b, i) ∈ marks ↔ b ∈ s.backendsOf i) ∧
      (∀ w i, s.Writes w i → ∃ b, On s.placements w b ∧ s.backendsOf i = [b]) ∧
      (∀ i, (∀ w, ¬s.Writes w i) →
        ∀ b, b ∈ s.backendsOf i ↔ ∃ j, s.Reads j i ∧ On s.placements j b) ∧
      ∀ p platform', outcome (compile m₀ policy) platform = (.ok p, platform') →
        p.model = s ∧ p.Delivers order := by
  obtain ⟨m, ps, hsame, hl, hc, -, hlower⟩ := placeModel_lower h₀ hs
  obtain ⟨copies, split, hlow⟩ := lower_lowering hsame h₀.sound.constants hl hc hlower
  have hcross := hlow.splitsCrossings hplain
  obtain ⟨hl', hc', hphase⟩ := lower_linked hlower
  obtain ⟨order, horder⟩ := linearize_total hc' hphase
  obtain ⟨-, -, hall⟩ := linearize_ok hl' hc' horder
  obtain ⟨ops, hops⟩ := placedOperations_total (fun j hj => (hall j).1 hj) hlow.count_placements
  have hmarks : ∀ b i, (b, i) ∈ sites ops ↔ b ∈ s.backendsOf i := fun b i =>
    (mem_sites_iff hall hops).trans (hcross.mem_backendsOf hlower hc').symm
  have hwritten : ∀ w i, s.Writes w i → ∃ b, On s.placements w b ∧ s.backendsOf i = [b] :=
    fun w i => hcross.backendsOf_written hlower hlow.count_placements
  refine ⟨order, sites ops, horder, tensorMarks_eq hops, hmarks, hwritten, fun i hnot b => ?_,
    fun p platform' hrun => ?_⟩
  · rw [hcross.mem_backendsOf hlower hc']
    exact hcross.touched_unwritten hnot
  · obtain ⟨s', order', ops', hs', horder', hops', hsupplies⟩ :=
      (compile_supplies m₀ policy platform).of_eq hrun
    rw [hs] at hs'
    cases hs'
    rw [horder] at horder'
    cases horder'
    rw [hops] at hops'
    cases hops'
    refine hsupplies.delivers fun w i hw => ?_
    obtain ⟨a, -, ha⟩ := hwritten w i hw
    exact ⟨a, fun b => by rw [hmarks, ha, List.mem_singleton]⟩

theorem fannedOut_built : fannedOut.Built := by
  have hbuilt : Model.Built _ :=
    .addOutput 4 (.addInput 0
      (.addOperation ⟨[2, 3], [4], .add 5⟩ (.addOperation ⟨[1], [3], .nop⟩
        (.addOperation ⟨[1, 1], [2], .add 5⟩ (.addOperation ⟨[0], [1], .nop⟩
          (.setValue 5 [0, 0, 0, 0] (.addOperand [] { element := .scalarInt32 }
            (.addOperand [1, 2] { element := .float32 } (.addOperand [1, 2] { element := .float32 }
              (.addOperand [1, 2] { element := .float32 } (.addOperand [1, 2] { element := .float32 }
                (.addOperand [1, 2] { element := .float32 } .empty))))))))))))
  refine Eq.subst (motive := Model.Built) ?_ hbuilt
  decide +kernel

/-- Copying on the host, adding on the device. -/
def fannedPolicy : Policy := ({} : Policy).withKind .nop "cpu"

/-- `fannedOut`, lowered for that policy. -/
@[irreducible] def fannedPlaced : Model :=
  (placeModel fannedOut ({} : Settings).platform.registry fannedPolicy).toOption.getD {}

@[irreducible] def fannedCompiled : Except Failure Plan × Platform :=
  outcome (compile fannedOut fannedPolicy) ({} : Settings).platform

@[irreducible] def fannedPlan : Plan := fannedCompiled.1.toOption.getD ⟨fannedOut, [], []⟩

/-- What the first operation writes on the host is read there and, at two places, on the device:
the host alone has a tensor for it. -/
theorem one_owner_fannedOut : ∃ order marks, fannedPlaced.linearize = .ok order ∧
    fannedPlaced.tensorMarks order = .ok marks ∧ (∀ b, (b, 1) ∈ marks ↔ b = "cpu") ∧
    outcome (compile fannedOut fannedPolicy) ({} : Settings).platform
      = (.ok fannedPlan, fannedCompiled.2) ∧ fannedPlan.Delivers order := by
  have hs : placeModel fannedOut ({} : Settings).platform.registry fannedPolicy
      = .ok fannedPlaced := by decide +kernel
  have hrun : outcome (compile fannedOut fannedPolicy) ({} : Settings).platform
      = (.ok fannedPlan, fannedCompiled.2) := by
    rw [← fannedCompiled]
    exact outcome_eq (by decide +kernel)
  have hhost : fannedPlaced.backendsOf 1 = ["cpu"] := by decide +kernel
  obtain ⟨order, marks, horder, hmarks, hsame, -, -, hplan⟩ :=
    one_owner fannedOut_built (by decide +kernel) hs
  refine ⟨order, marks, horder, hmarks, fun b => ?_, hrun, (hplan _ _ hrun).2⟩
  rw [hsame, hhost, List.mem_singleton]

end HeteroNet
