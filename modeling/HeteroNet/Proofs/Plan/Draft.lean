import HeteroNet.Compile
import HeteroNet.Proofs.Plan.Stages
import HeteroNet.Proofs.SortedMap

/-
What planning collects. Each operation of the list passed its checks and has its stage; each of its
operands has a tensor constraint, which is the operand's own shape and type; and each constant it
reads has an initializer, which fills tensors with the constant (`Drafted`).
-/

namespace HeteroNet

open Planner

/-- An initializer that fills tensors of operand `i` with its constant. -/
def Suits (os : Operands) (i : OperandId) (init : Initializer) : Prop :=
  ∃ o data, os[i]? = some o ∧ o.data = some data ∧
    (init = .copy data o.type ∨ ∃ f : Feature, o.shape = f.dims ∧ init = .weights data f)

namespace PlanDraft

/-- Everything recorded agrees with the operands. -/
structure Fits (os : Operands) (d : PlanDraft) : Prop where
  constraint : ∀ {i info}, d.constraints.find? i = some info →
    ∃ o, os[i]? = some o ∧ info = ⟨o.shape, o.type⟩
  suits : ∀ {i init}, (i, init) ∈ d.initializers → Suits os i init

/-- Nothing recorded is lost, and no stage is added. -/
structure Extends (d d' : PlanDraft) : Prop where
  constraint : ∀ {i}, (d.constraints.find? i).isSome → (d'.constraints.find? i).isSome
  initialized : ∀ {i init}, (i, init) ∈ d.initializers → ∃ init', (i, init') ∈ d'.initializers
  stages : d'.stages = d.stages

theorem Extends.refl {d : PlanDraft} : Extends d d := ⟨id, fun h => ⟨_, h⟩, rfl⟩

theorem Extends.trans {d₁ d₂ d₃ : PlanDraft} (h : Extends d₁ d₂) (h' : Extends d₂ d₃) :
    Extends d₁ d₃ where
  constraint hi := h'.constraint (h.constraint hi)
  initialized hi := by
    obtain ⟨_, hi⟩ := h.initialized hi
    exact h'.initialized hi
  stages := h'.stages.trans h.stages

theorem extends_addInitializer (d : PlanDraft) (i : OperandId) (init : Initializer) :
    Extends d (d.addInitializer i init) :=
  ⟨id, fun h => SortedMap.insert_mem_key _ h, rfl⟩

theorem Fits.addInitializer {os : Operands} {d : PlanDraft} (h : d.Fits os) {i : OperandId}
    {init : Initializer} (hs : Suits os i init) : (d.addInitializer i init).Fits os where
  constraint := h.constraint
  suits := by
    intro j init' hj
    rcases SortedMap.mem_insert hj with he | hj
    · cases he
      exact hs
    · exact h.suits hj

end PlanDraft

open PlanDraft

variable {os : Operands} {op : Operation} {d d' : PlanDraft}

/-! ## Initializers -/

/-- Constants among the operands of a list have initializers. -/
def Initialized (os : Operands) (d : PlanDraft) (i : OperandId) : Prop :=
  ∀ o, os[i]? = some o → o.data.isSome → ∃ init, (i, init) ∈ d.initializers

theorem Initialized.extend {i : OperandId} (h : Initialized os d i) (he : Extends d d') :
    Initialized os d' i := by
  intro o ho hd
  obtain ⟨init, hinit⟩ := h o ho hd
  exact he.initialized hinit

theorem constant_suits {i : OperandId} {init : Initializer}
    (h : Initializer.constant os i = .ok init) : Suits os i init := by
  simp only [Initializer.constant, Operands.constantData, bind_eq_ok, lift_eq_ok,
    Operands.get_eq_ok, pure_eq_ok] at h
  obtain ⟨⟨o, data⟩, ⟨o', ho, h⟩, rfl⟩ := h
  split at h
  · rename_i data' hd
    cases h
    exact ⟨o, data, ho, hd, .inl rfl⟩
  · cases h

theorem convWeights_suits {place : Place} {w : OperandId} {init : Initializer}
    (hw : op.input 1 = .ok w) (h : Initializer.convWeights place os op = .ok init) :
    Suits os w init := by
  simp only [Initializer.convWeights, hw] at h
  cases place with
  | host => exact constant_suits h
  | device =>
    simp only [bind_eq_ok, lift_eq_ok, Operands.weights_eq_ok, Operands.constantData,
      Operands.get_eq_ok, pure_eq_ok] at h
    obtain ⟨w', hw', f, hf, ⟨o, data⟩, ⟨o', ho, h⟩, rfl⟩ := h
    obtain rfl := Except.ok.inj hw'
    obtain ⟨o'', ho'', hshape⟩ := hf
    rw [ho] at ho''
    cases ho''
    split at h
    · rename_i data' hd
      cases h
      exact ⟨o, data, ho, hd, .inr ⟨f, hshape, rfl⟩⟩
    · cases h

theorem bias_suits {b : OperandId} {init : Initializer} (hb : op.input 2 = .ok b)
    (h : Initializer.bias os op = .ok init) : Suits os b init := by
  simp only [Initializer.bias, hb] at h
  exact constant_suits h

theorem denseWeights_suits {w : OperandId} {init : Initializer} (hw : op.input 1 = .ok w)
    (h : Initializer.denseWeights os op = .ok init) : Suits os w init := by
  simp only [Initializer.denseWeights, hw] at h
  exact constant_suits h

theorem initializeConstant_fits {i : OperandId} {init : Except Failure Initializer}
    (hs : ∀ init', init = .ok init' → Suits os i init')
    (h : (initializeConstant os i init).run d = .ok ((), d')) :
    (d.Fits os → d'.Fits os) ∧ Extends d d' ∧ Initialized os d' i := by
  obtain ⟨o, ho, ⟨hnone, rfl⟩ | ⟨data, init', hsome, hinit, rfl⟩⟩ := initializeConstant_ok h
  · refine ⟨id, .refl, fun o' ho' hd' => ?_⟩
    rw [ho] at ho'
    cases ho'
    rw [hnone] at hd'
    cases hd'
  · exact ⟨fun hd => hd.addInitializer (hs init' hinit), extends_addInitializer d i init',
      fun _ _ _ => ⟨init', SortedMap.insert_mem_self _ _ _⟩⟩

/-- Checking an operation gives initializers to its weights and its bias. -/
theorem checkOperation_fits {c : Context} (h : (checkOperation os c op).run d = .ok ((), d')) :
    (d.Fits os → d'.Fits os) ∧ Extends d d' ∧
      ∀ role ∈ weightRoles op.kind, ∀ i, op.inputs[role]? = some i → Initialized os d' i := by
  have hplain : ∀ {x : Except Failure Unit}, (liftM x : Planning Unit).run d = .ok ((), d') →
      weightRoles op.kind = [] → (d.Fits os → d'.Fits os) ∧ Extends d d' ∧
        ∀ role ∈ weightRoles op.kind, ∀ i, op.inputs[role]? = some i → Initialized os d' i := by
    intro x hx hroles
    obtain ⟨-, rfl⟩ := planning_lift.1 hx
    exact ⟨id, .refl, by simp [hroles]⟩
  have hroles : ∀ {w b : OperandId}, op.input 1 = .ok w → op.input 2 = .ok b →
      weightRoles op.kind = [1, 2] → Initialized os d' w → Initialized os d' b →
      ∀ role ∈ weightRoles op.kind, ∀ i, op.inputs[role]? = some i → Initialized os d' i := by
    intro w b hw hb hroles hiw hib role hrole i hi
    rw [Operation.input_eq_ok] at hw hb
    rw [hroles, List.mem_cons, List.mem_singleton] at hrole
    rcases hrole with rfl | rfl
    · rw [hw, Option.some.injEq] at hi
      exact hi ▸ hiw
    · rw [hb, Option.some.injEq] at hi
      exact hi ▸ hib
  have hkind : ∀ {a}, op.attributes = a → op.kind = a.kind := fun ha => by rw [Operation.kind, ha]
  cases ha : op.attributes with
  | conv2d p =>
    simp only [checkOperation, ha] at h
    obtain ⟨x, w, b, o, g, act, d₁, -, hw, hb, -, -, -, -, -, -, -, h₁, h₂⟩ := conv2d_ok h
    obtain ⟨hf₁, he₁, hi₁⟩ := initializeConstant_fits (fun _ => convWeights_suits hw) h₁
    obtain ⟨hf₂, he₂, hi₂⟩ := initializeConstant_fits (fun _ => bias_suits hb) h₂
    exact ⟨fun hd => hf₂ (hf₁ hd), he₁.trans he₂,
      hroles hw hb (by rw [hkind ha]; rfl) (hi₁.extend he₂) hi₂⟩
  | fullyConnected i =>
    simp only [checkOperation, ha] at h
    obtain ⟨x, w, b, o, s, dense, act, d₁, -, hw, hb, -, -, -, -, -, -, -, h₁, h₂⟩ :=
      fullyConnected_ok h
    obtain ⟨hf₁, he₁, hi₁⟩ := initializeConstant_fits (fun _ => denseWeights_suits hw) h₁
    obtain ⟨hf₂, he₂, hi₂⟩ := initializeConstant_fits (fun _ => bias_suits hb) h₂
    exact ⟨fun hd => hf₂ (hf₁ hd), he₁.trans he₂,
      hroles hw hb (by rw [hkind ha]; rfl) (hi₁.extend he₂) hi₂⟩
  | maxPool2d p | avgPool2d p | concat i | reshape i | softmax i | add i | cast | nop
  | permute a b =>
    simp only [checkOperation, ha] at h
    exact hplain h (by rw [hkind ha]; rfl)

/-! ## Constraints -/

theorem addConstraint_ok {i : OperandId} {info : TensorInfo}
    (h : d.addConstraint i info = .ok d') :
    d' = { d with constraints := d.constraints.insert i info } := by
  unfold addConstraint at h
  split at h
  · split at h
    · cases h
    · exact (Except.ok.inj h).symm
  · exact (Except.ok.inj h).symm

theorem addConstraint_fits {i : OperandId} {o : Operand} (ho : os[i]? = some o)
    (h : d.addConstraint i ⟨o.shape, o.type⟩ = .ok d') :
    (d.Fits os → d'.Fits os) ∧ Extends d d' ∧ (d'.constraints.find? i).isSome := by
  obtain rfl := addConstraint_ok h
  refine ⟨fun hd => ⟨fun {j info} hj => ?_, hd.suits⟩,
    ⟨fun {j} hj => ?_, fun hj => ⟨_, hj⟩, rfl⟩, by simp⟩
  · by_cases hji : j = i
    · subst hji
      rw [SortedMap.find?_insert_self, Option.some.injEq] at hj
      exact ⟨o, ho, hj.symm⟩
    · rw [SortedMap.find?_insert_other _ _ hji] at hj
      exact hd.constraint hj
  · by_cases hji : j = i
    · simp [hji]
    · rwa [SortedMap.find?_insert_other _ _ hji]

/-- A loop of planning steps. -/
theorem planning_forM {α : Type} {f : α → Planning PUnit} (I : List α → PlanDraft → Prop)
    (step : ∀ done a d d', I done d → (f a).run d = .ok (⟨⟩, d') → I (done ++ [a]) d') :
    ∀ {l : List α} (done : List α) {d d' : PlanDraft}, I done d → (l.forM f).run d = .ok (⟨⟩, d') →
      I (done ++ l) d'
  | [], done, d, d', hI, h => by
    rw [List.forM_eq_forM, List.forM_nil, planning_pure] at h
    obtain ⟨-, rfl⟩ := h
    rwa [List.append_nil]
  | a :: l, done, d, d', hI, h => by
    rw [List.forM_eq_forM, List.forM_cons, planning_bind] at h
    obtain ⟨_, d₁, h₁, h₂⟩ := h
    rw [← List.forM_eq_forM] at h₂
    simpa using planning_forM I step _ (step _ _ _ _ hI h₁) h₂

/-- Recording the tensor of one operand. -/
theorem constrain_ok {i : OperandId} (h : StateT.run (do
      let o ← os.get i
      set (← (← get).addConstraint i ⟨o.shape, o.type⟩) : Planning Unit) d = .ok ((), d')) :
    ∃ o, os[i]? = some o ∧ d.addConstraint i ⟨o.shape, o.type⟩ = .ok d' := by
  simp only [planning_bind, planning_check, Operands.get_eq_ok] at h
  obtain ⟨o, _, ⟨ho, rfl⟩, dg, _, hget, d₃, _, ⟨hc, rfl⟩, hset⟩ := h
  simp only [get, getThe, MonadStateOf.get, StateT.get, StateT.run, pure, Except.pure,
    Except.ok.injEq, Prod.mk.injEq] at hget
  obtain ⟨rfl, rfl⟩ := hget
  simp only [StateT.run_set, pure_eq_ok, Prod.mk.injEq, true_and] at hset
  exact ⟨o, ho, hset ▸ hc⟩

theorem addConstraints_fits (h : (addConstraints os op).run d = .ok ((), d')) :
    (d.Fits os → d'.Fits os) ∧ Extends d d' ∧
      ∀ i ∈ op.inputs ++ op.outputs, (d'.constraints.find? i).isSome := by
  refine planning_forM (fun done d₁ => (d.Fits os → d₁.Fits os) ∧ Extends d d₁ ∧
    ∀ i ∈ done, (d₁.constraints.find? i).isSome) (fun done i d₁ d₂ hI hi => ?_) []
    ⟨id, .refl, by simp⟩ h
  obtain ⟨hf, he, hall⟩ := hI
  obtain ⟨o, ho, hc⟩ := constrain_ok hi
  obtain ⟨hf', he', hi⟩ := addConstraint_fits ho hc
  refine ⟨fun hd => hf' (hf hd), he.trans he', fun j hj => ?_⟩
  rcases List.mem_append.1 hj with hj | hj
  · exact he'.constraint (hall j hj)
  · rw [List.mem_singleton] at hj
    exact hj ▸ hi

theorem addPlainConstants_fits (h : (addPlainConstants os op).run d = .ok ((), d')) :
    (d.Fits os → d'.Fits os) ∧ Extends d d' ∧ ∀ role i, op.inputs[role]? = some i →
      role ∉ weightRoles op.kind → Initialized os d' i := by
  have hI := planning_forM (fun done d₁ => (d.Fits os → d₁.Fits os) ∧ Extends d d₁ ∧
    ∀ p ∈ done, p.2 ∉ weightRoles op.kind → Initialized os d₁ p.1)
    (fun done p d₁ d₂ hI hp => ?_) [] ⟨id, .refl, by simp⟩ h
  · obtain ⟨hf, he, hall⟩ := hI
    refine ⟨hf, he, fun role i hi hrole => hall (i, role) ?_ hrole⟩
    simpa [List.mk_mem_zipIdx_iff_getElem?] using hi
  · obtain ⟨i, role⟩ := p
    obtain ⟨hf, he, hall⟩ := hI
    dsimp only at hp
    by_cases hrole : role ∈ weightRoles op.kind
    · simp only [List.contains_eq_mem, hrole, decide_true, Bool.not_true, Bool.false_eq_true,
        if_false, planning_pure, true_and] at hp
      subst hp
      refine ⟨hf, he, fun q hq hnot => ?_⟩
      rcases List.mem_append.1 hq with hq | hq
      · exact hall q hq hnot
      · rw [List.mem_singleton] at hq
        exact absurd (hq ▸ hrole) hnot
    · simp only [List.contains_eq_mem, hrole, decide_false, Bool.not_false, if_true] at hp
      obtain ⟨hf', he', hi⟩ := initializeConstant_fits (fun _ => constant_suits) hp
      refine ⟨fun hd => hf' (hf hd), he.trans he', fun q hq hnot => ?_⟩
      rcases List.mem_append.1 hq with hq | hq
      · exact (hall q hq hnot).extend he'
      · rw [List.mem_singleton] at hq
        exact hq ▸ hi

/-! ## Operations -/

/-- The operation passed its checks, and `s` is its stage. -/
structure Visited (os : Operands) (contexts : SortedMap BackendId Context)
    (placed : Operation × Placement) (s : Stage) : Prop where
  arity : placed.1.checkArity = .ok ()
  checked : ∃ c d d', contexts.find? placed.2.backend = some c ∧
    (checkOperation os c placed.1).run d = .ok ((), d') ∧
    Stage.generate c.backend.stages c.backend.stageName placed.1 os = .ok s

/-- What was collected for a list of operations. -/
structure Drafted (os : Operands) (contexts : SortedMap BackendId Context)
    (ops : List (Operation × Placement)) (d : PlanDraft) : Prop where
  fits : d.Fits os
  stages : List.Forall₂ (Visited os contexts) ops d.stages
  constraint : ∀ p ∈ ops, ∀ i ∈ p.1.inputs ++ p.1.outputs, (d.constraints.find? i).isSome
  initialized : ∀ p ∈ ops, ∀ i ∈ p.1.inputs, Initialized os d i

/-- Planning an operation appends its stage, and loses nothing. -/
structure Visits (os : Operands) (contexts : SortedMap BackendId Context)
    (q : Operation × Placement) (d d' : PlanDraft) : Prop where
  fits : d.Fits os → d'.Fits os
  stages : ∃ stage, Visited os contexts q stage ∧ d'.stages = d.stages ++ [stage]
  constraint : ∀ {i}, (d.constraints.find? i).isSome → (d'.constraints.find? i).isSome
  initialized : ∀ {i}, Initialized os d i → Initialized os d' i
  constrains : ∀ i ∈ q.1.inputs ++ q.1.outputs, (d'.constraints.find? i).isSome
  initializes : ∀ i ∈ q.1.inputs, Initialized os d' i

theorem visit_ok {contexts : SortedMap BackendId Context} {p : Placement}
    (h : (visit os contexts op p).run d = .ok ((), d')) : Visits os contexts (op, p) d d' := by
  unfold visit at h
  split at h
  · simp [throw, throwThe, MonadExceptOf.throw, StateT.run] at h
    cases h
  rename_i c hc
  simp only [planning_bind, planning_lift, planning_check] at h
  obtain ⟨_, _, ⟨harity, rfl⟩, _, d₁, h₁, _, d₂, h₂, _, d₃, h₃, s, _, ⟨hs, rfl⟩, h₄⟩ := h
  simp only [modify, modifyGet, MonadStateOf.modifyGet, StateT.modifyGet, StateT.run, pure,
    Except.pure, Except.ok.injEq, Prod.mk.injEq, true_and] at h₄
  subst h₄
  obtain ⟨hf₁, he₁, hi₁⟩ := checkOperation_fits h₁
  obtain ⟨hf₂, he₂, hc₂⟩ := addConstraints_fits h₂
  obtain ⟨hf₃, he₃, hi₃⟩ := addPlainConstants_fits h₃
  have he := (he₁.trans he₂).trans he₃
  refine ⟨fun hd => ?_, ⟨s, ⟨harity, c, d, d₁, hc, h₁, hs⟩, congrArg (· ++ [s]) he.stages⟩,
    he.constraint, fun hi => (hi.extend he :), fun i hi => he₃.constraint (hc₂ i hi), fun i hi => ?_⟩
  · obtain ⟨hconstraint, hsuits⟩ := hf₃ (hf₂ (hf₁ hd))
    exact ⟨hconstraint, hsuits⟩
  · change Initialized os d₃ i
    obtain ⟨role, hrole⟩ := List.mem_iff_getElem?.1 hi
    by_cases hw : role ∈ weightRoles op.kind
    · exact (hi₁ role hw i hrole).extend (he₂.trans he₃)
    · exact hi₃ role i hrole hw

theorem visit_drafted {contexts : SortedMap BackendId Context} {ops : List (Operation × Placement)}
    {p : Placement} (hd : Drafted os contexts ops d)
    (h : (visit os contexts op p).run d = .ok ((), d')) :
    Drafted os contexts (ops ++ [(op, p)]) d' := by
  have hv := visit_ok h
  refine ⟨hv.fits hd.fits, ?_, fun q hq i hi => ?_, fun q hq i hi => ?_⟩
  · obtain ⟨stage, hvisited, hstages⟩ := hv.stages
    rw [hstages]
    exact List.rel_append hd.stages (.cons hvisited .nil)
  · rcases List.mem_append.1 hq with hq | hq
    · exact hv.constraint (hd.constraint q hq i hi)
    · rw [List.mem_singleton] at hq
      subst hq
      exact hv.constrains i hi
  · rcases List.mem_append.1 hq with hq | hq
    · exact hv.initialized (hd.initialized q hq i hi)
    · rw [List.mem_singleton] at hq
      subst hq
      exact hv.initializes i hi

theorem Drafted.empty {contexts : SortedMap BackendId Context} : Drafted os contexts [] {} where
  fits := ⟨fun hi => (by cases hi), fun hi => (by cases hi)⟩
  stages := .nil
  constraint _ hp := by cases hp
  initialized _ hp := by cases hp

/-- **The plan of a list of operations.** -/
theorem draftPlan_drafted {m : Model} {contexts : SortedMap BackendId Context}
    {order : List OperationId} (h : draftPlan m contexts order = .ok d) :
    ∃ ops, m.placedOperations order = .ok ops ∧ Drafted m.operands contexts ops d := by
  simp only [draftPlan, bind_eq_ok, lift_eq_ok] at h
  obtain ⟨ops, hops, ⟨⟨⟩, d₁⟩, hrun, h⟩ := h
  obtain rfl := pure_eq_ok.1 h
  exact ⟨ops, hops, planning_forM (fun done d => Drafted m.operands contexts done d)
    (fun _ _ _ _ hI hp => visit_drafted hI hp) [] .empty hrun⟩

/-! ## Making the plan -/

variable {model : Model} {builders bs : List TensorBuilder} {m : Machine}

/-- Filling in the constants is the last step to a plan. -/
def PlanDraft.complete (d : PlanDraft) (p : Plan) : Assemble Plan := do
  Assembly.onMachine (p.fillConstants d.initializers)
  Assembly.onMachine p.synchronize
  return p

/-- A plan is assembled in three steps: memory, stages, constants. -/
theorem assemble_of_allocate {r : Except Failure Unit} {bs₁ : List TensorBuilder} {m₁ : Machine}
    {post : Plan → Assembly → Prop} {err : Failure → Assembly → Prop}
    (hrun : Plan.allocateAll bs m = (r, bs₁, m₁))
    (hrefused : ∀ e, r = .error e → err e { builders := bs₁, machine := m₁ })
    (hstages : r = .ok () →
      Ends (outcome (d.stages.forM Stage.apply) { builders := bs₁, machine := m₁ })
        (fun _ a => Ends (outcome
          (d.complete { model, builders := a.builders, runnables := a.runnables }) a) post err)
        err) :
    Ends (outcome (d.assemble model) { builders := bs, machine := m }) post err := by
  unfold PlanDraft.assemble
  rw [outcome_bind_of_ok (outcome_get _)]
  dsimp only
  rw [hrun]
  dsimp only
  rw [outcome_bind_of_ok (outcome_set _ _)]
  refine Ends.bind (Ends.check (fun _ hr => ?_) hrefused)
  refine Ends.bind ((hstages hr).mono (fun _ a ha => ?_) fun _ _ he => he)
  rwa [outcome_bind_of_ok (outcome_get a)]

/-- Drafts with the same stages assemble alike if they complete plans alike. -/
theorem assemble_congr {r : Except Failure Unit} {bs₁ : List TensorBuilder} {m₁ : Machine}
    {bound : Assembly → Prop} {err : Failure → Assembly → Prop}
    (hrun : Plan.allocateAll bs m = (r, bs₁, m₁)) (hstages : d'.stages = d.stages)
    (hbound : r = .ok () →
      Ends (outcome (d.stages.forM Stage.apply) { builders := bs₁, machine := m₁ })
        (fun _ a => bound a) err)
    (hcomplete : r = .ok () → ∀ p a, bound a → p.builders = a.builders →
      outcome (d'.complete p) a = outcome (d.complete p) a) :
    outcome (d'.assemble model) { builders := bs, machine := m }
      = outcome (d.assemble model) { builders := bs, machine := m } := by
  unfold PlanDraft.assemble
  rw [outcome_bind_of_ok (outcome_get _), outcome_bind_of_ok (outcome_get _)]
  dsimp only
  rw [hrun, hstages]
  dsimp only
  rw [outcome_bind_of_ok (outcome_set _ _), outcome_bind_of_ok (outcome_set _ _)]
  cases r with
  | error e => rfl
  | ok u =>
    rw [outcome_bind_of_ok (outcome_check _ _), outcome_bind_of_ok (outcome_check _ _)]
    refine (hbound rfl).bind_congr fun _ a ha => ?_
    rw [outcome_bind_of_ok (outcome_get a), outcome_bind_of_ok (outcome_get a)]
    exact hcomplete rfl _ a ha rfl

/-- A plan is made from builders that were prepared. If that fails their memory is given back. -/
theorem finalize_of_prepare {prepared : List TensorBuilder → Machine → Prop}
    {post : Plan → Machine → Prop} {err : Failure → Machine → Prop}
    (hprepare : Ends (outcome (builders.mapM (·.prepare d.constraints)) m) prepared err)
    (hassemble : ∀ bs m, prepared bs m →
      Ends (outcome (d.assemble model) { builders := bs, machine := m })
        (fun p a => post p a.machine) fun e a => err e (Plan.releaseAll a.builders a.machine)) :
    Ends (outcome (d.finalize model builders) m) post err := by
  refine Ends.bind (hprepare.mono (fun bs m h => ?_) fun _ _ he => he)
  rw [outcome_bind_of_ok (outcome_get m)]
  have hends := hassemble bs m h
  unfold outcome at hends
  revert hends
  obtain ⟨r, a⟩ := StateT.run (ExceptT.run (d.assemble model)) { builders := bs, machine := m }
  cases r <;> exact id

/-- Drafts with the same constraints make the same plan if they assemble alike. -/
theorem finalize_congr {prepared : List TensorBuilder → Machine → Prop}
    (hconstraints : d'.constraints = d.constraints)
    (hprepare : Returns (outcome (builders.mapM (·.prepare d.constraints)) m) prepared)
    (hassemble : ∀ bs m, prepared bs m →
      outcome (d'.assemble model) { builders := bs, machine := m }
        = outcome (d.assemble model) { builders := bs, machine := m }) :
    outcome (d'.finalize model builders) m = outcome (d.finalize model builders) m := by
  rw [PlanDraft.finalize, PlanDraft.finalize, hconstraints]
  refine hprepare.bind_congr fun bs m h => ?_
  have houtcome := hassemble bs m h
  unfold outcome at houtcome
  rw [outcome_bind_of_ok (outcome_get m), outcome_bind_of_ok (outcome_get m), houtcome]

end HeteroNet
