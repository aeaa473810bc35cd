import HeteroNet.Proofs.Plan.Compiled
import HeteroNet.Proofs.Plan.Owned

/-
Every operation of a plan passed the checks of the planner (`compile_visits`), those of the caller in
the form that lowering gave them. For operations that move data the checks settle the type: what
such an operation reads and what it writes have the same one (`Moves`).
-/

namespace HeteroNet

open Model Operation Planner

variable {m₀ m s m' : Model} {policy : Policy} {ps : List Placement} {copies : Copies}
  {os : Operands} {op : Operation} {ops : List (Operation × Placement)} {p : Plan}

/-! ## Types -/

namespace Planner

theorem sameType_ok {i o : OperandId} : sameType os i o = .ok () ↔
    ∃ a b, os[i]? = some a ∧ os[o]? = some b ∧ b.type.same a.type = true := by
  simp only [sameType, bind_eq_ok, Operands.get_eq_ok]
  constructor
  · rintro ⟨b, hb, a, ha, h⟩
    split at h
    · exact absurd h throw_ne_ok
    · rename_i hsame
      exact ⟨a, b, ha, hb, by simpa using hsame⟩
  · rintro ⟨a, b, ha, hb, hsame⟩
    exact ⟨b, hb, a, ha, by simp [hsame, pure, Except.pure]⟩

theorem copy_sameType (h : copy os op = .ok ()) :
    ∃ x o, op.input 0 = .ok x ∧ op.output = .ok o ∧ sameType os x o = .ok () := by
  simp only [copy, bind_eq_ok, lift_eq_ok] at h
  obtain ⟨x, hx, o, ho, _, -, hsame⟩ := h
  exact ⟨x, o, hx, ho, hsame⟩

theorem reshape_sameType {target : Option OperandId} (h : reshape os op target = .ok ()) :
    ∃ x o, op.input 0 = .ok x ∧ op.output = .ok o ∧ sameType os x o = .ok () := by
  simp only [reshape, bind_eq_ok, lift_eq_ok] at h
  obtain ⟨x, hx, o, ho, _, hsame, -⟩ := h
  exact ⟨x, o, hx, ho, hsame⟩

end Planner

/-- The operation reads one operand and writes one, of the same type of element. -/
def Operation.Moves (os : Operands) (op : Operation) : Prop :=
  ∃ x o a b, op.inputs = [x] ∧ op.outputs = [o] ∧ os[x]? = some a ∧ os[o]? = some b ∧
    a.element = b.element

theorem TypeInfo.same_element {a b : TypeInfo} (h : a.same b = true) : a.element = b.element := by
  simp only [same, Bool.and_eq_true, beq_iff_eq] at h
  exact h.1.1

theorem Visited.moves {contexts : SortedMap BackendId Context} {q : Operation × Placement}
    {stage : Stage} (h : Visited os contexts q stage)
    (hkind : q.1.kind = .nop ∨ q.1.kind = .reshape) : q.1.Moves os := by
  obtain ⟨op, p⟩ := q
  obtain ⟨harity, c, d, d', -, hchecked, -⟩ := h
  dsimp only at harity hchecked hkind ⊢
  obtain ⟨x, o, hx, ho, hsame⟩ :
      ∃ x o, op.input 0 = .ok x ∧ op.output = .ok o ∧ sameType os x o = .ok () := by
    cases ha : op.attributes with
    | nop =>
      simp only [checkOperation, ha, planning_lift] at hchecked
      exact copy_sameType hchecked.1
    | reshape target =>
      simp only [checkOperation, ha, planning_lift] at hchecked
      exact reshape_sameType hchecked.1
    | _ =>
      rw [Operation.kind, ha] at hkind
      simp [Attributes.kind] at hkind
  have hone : op.inputs.length = 1 :=
    length_of_admits_one (Operation.checkArity_ok.1 harity).1
      (by rcases hkind with hk | hk <;> rw [hk] <;> rfl)
  obtain ⟨a, b, ha, hb, htypes⟩ := sameType_ok.1 hsame
  exact ⟨x, o, a, b, inputs_eq_one hone hx, output_of_arity harity ho, ha, hb,
    (TypeInfo.same_element htypes).symm⟩

/-! ## The operations of a plan -/

/-- **Every operation of a plan was visited**, whatever backends are registered. -/
theorem compile_visits (m₀ : Model) (policy : Policy) (platform : Platform) :
    Returns (outcome (compile m₀ policy) platform) fun p _ => ∃ order ops contexts,
      placeModel m₀ platform.registry policy = .ok p.model ∧ p.model.linearize = .ok order ∧
        p.model.placedOperations order = .ok ops ∧
        ∀ q ∈ ops, ∃ stage, Visited p.model.operands contexts q stage := by
  rw [compile, outcome_bind_of_ok (outcome_get platform)]
  refine Ends.bind (Returns.lift fun s hs => ?_)
  refine Ends.bind (Returns.lift fun order horder => ?_)
  refine Ends.bind (Returns.lift fun marks _ => ?_)
  refine (Returns.any _).bind fun contexts platform' _ => ?_
  refine Ends.bind (Returns.check fun d hd => ?_)
  obtain ⟨ops, hops, hdrafted⟩ := draftPlan_drafted hd
  refine Platform.onMachine_ends (finalize_fills.mono fun p m hp => ?_)
  obtain ⟨-, -, -, rfl, -⟩ := hp
  refine ⟨order, ops, contexts, hs, horder, hops, fun q hq => ?_⟩
  obtain ⟨stage, -, hstage⟩ := (mem_of_forall₂ hdrafted.stages).2 q hq
  exact ⟨stage, hstage⟩

/-- An operation of the caller, as it runs on the backend it is placed on. -/
theorem Model.Lowering.run (h : Lowering m₀ m ps copies s m') (hruns : Runs m' ops)
    (hop : op ∈ m₀.operations) :
    ∃ p, ({ op with inputs := op.inputs.map (copies.read p.backend) }, p) ∈ ops := by
  rw [← h.finished.operations] at hop
  obtain ⟨j, hj⟩ := List.mem_iff_getElem?.1 hop
  obtain ⟨p, hp⟩ : ∃ p, ps[j]? = some p :=
    ⟨_, List.getElem?_eq_getElem (h.count ▸ (List.getElem?_eq_some_iff.1 hj).1)⟩
  obtain ⟨p', hq, hp'⟩ := hruns.all ((congrArg (·[j]?) h.lowered.operations).trans
    (h.split.original hj hp))
  rw [h.placements, h.split.placed hp] at hp'
  cases hp'
  exact ⟨p, hq⟩

/-- What the caller's operations read or write has tensors of the same size. -/
theorem Model.Lowering.needed (h : Lowering m₀ m ps copies s m') (hruns : Runs m' ops) {n : Nat}
    (hn : m₀.Needs n) : Needed m'.operands (sites ops) n := by
  obtain ⟨op, hop, i, hi, o, ho, rfl⟩ := hn
  obtain ⟨p, hq⟩ := h.run hruns hop
  have hrenamed := h.renamed (h.finished.operations ▸ hop) p.backend
  have hneeded : ∀ {id v}, (id, v) ∈ sites ops → m₀.operands.Alike m'.operands i v →
      Needed m'.operands (sites ops) o.shape.elements := by
    rintro id v hsite ⟨o', x, ho', hx, hshape, -⟩
    rw [ho, Option.some.injEq] at ho'
    exact ⟨_, hsite, x, hx, by rw [hshape, ho']⟩
  rcases List.mem_append.1 hi with hi | hi
  · exact hneeded (reads_sites hq (List.mem_map_of_mem hi)) (hrenamed.input i hi)
  · exact hneeded (List.mem_flatMap.2 ⟨_, hq, List.mem_append_right _ (List.mem_map_of_mem hi)⟩)
      (hrenamed.output i hi)

/-- An operation that moves data when it runs did so in the model of the caller. -/
theorem Model.Lowering.moves (h : Lowering m₀ m ps copies s m') (hop : op ∈ m₀.operations)
    {b : BackendId}
    (hmoves : Operation.Moves m'.operands { op with inputs := op.inputs.map (copies.read b) }) :
    op.Moves m₀.operands := by
  obtain ⟨x', o, a', c', hinputs, houtputs, ha', hc', helement⟩ := hmoves
  rw [← h.finished.operations] at hop
  obtain ⟨x, hx, rfl⟩ := List.map_eq_singleton_iff.1 hinputs
  have hrenamed := h.renamed hop b
  obtain ⟨a, a'', ha, ha'', -, htype⟩ := hrenamed.input x (by simp [hx])
  obtain ⟨c, c'', hc, hc'', -, htype'⟩ := hrenamed.output o (by rw [houtputs]; simp)
  rw [ha'] at ha''
  rw [hc'] at hc''
  cases ha''
  cases hc''
  refine ⟨x, o, a, c, hx, houtputs, ha, hc, ?_⟩
  rw [Operand.element, Operand.element, ← htype, ← htype']
  exact helement

/-- **What a plan runs passed its checks**, in the model that was lowered for the policy, and is no
larger than a buffer. -/
theorem compile_runs {platform platform' : Platform} (h₀ : m₀.Built) (hs : platform.Clean)
    (hrun : outcome (compile m₀ policy) platform = (.ok p, platform')) :
    ∃ m ps copies s ops contexts, m₀.finished = .ok m ∧
      policy.resolve platform.registry m = .ok ps ∧ Lowering m₀ m ps copies s p.model ∧
      Runs p.model ops ∧ (∀ n, Needed p.model.operands (sites ops) n → n ≤ Buffer.capacity) ∧
      ∀ q ∈ ops, ∃ stage, Visited p.model.operands contexts q stage := by
  obtain ⟨order, ops, contexts, hplaced, horder, hops, hvisited⟩ :=
    (compile_visits m₀ policy platform).of_eq hrun
  obtain ⟨m, ps, hm, hps, hlower⟩ := placeModel_finished hplaced
  obtain ⟨hsame, hl, hc, -⟩ := finished_ok h₀ hm
  obtain ⟨copies, s, hlowering⟩ := lower_lowering hsame h₀.sound.constants hl hc hlower
  have hends := compile_ends policy h₀ hs
  rw [hrun] at hends
  obtain ⟨-, ops', hcompiles, hfinished⟩ := hends
  obtain ⟨-, rfl⟩ := Compiles.unique ⟨⟨_, hs.registry, hplaced⟩, order, horder, hops⟩ hcompiles
  exact ⟨m, ps, copies, s, ops', contexts, hm, hps, hlowering, hfinished.made.runs, hfinished.fits,
    hvisited⟩

/-- **In a model that has a plan, what copies or reshapes keeps the type.** -/
theorem compile_moves {platform platform' : Platform} (h₀ : m₀.Built) (hs : platform.Clean)
    (hrun : outcome (compile m₀ policy) platform = (.ok p, platform'))
    (hop : op ∈ m₀.operations) (hkind : op.kind = .nop ∨ op.kind = .reshape) :
    op.Moves m₀.operands := by
  obtain ⟨m, ps, copies, s, ops, contexts, -, -, hlowering, hruns, -, hvisited⟩ :=
    compile_runs h₀ hs hrun
  obtain ⟨q, hq⟩ := hlowering.run hruns hop
  obtain ⟨stage, hstage⟩ := hvisited _ hq
  exact hlowering.moves hop (hstage.moves hkind)

end HeteroNet
