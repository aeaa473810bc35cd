import HeteroNet.Proofs.Plan.Owners

/-
Which operations a backend is handed. The operations of the caller are only given to backends that
take their kind, since resolution fails where one does not (`unresolved`). The operations that
lowering adds come after resolution: nothing asks the backend that gets one whether it takes it. So a
backend is handed kinds that it refuses exactly where an operand is read across on a backend that
refuses to permute (`handed_supported`).
-/

namespace HeteroNet

open Operation Model

variable {policy : Policy} {s s' : Platform} {r r' : Registry} {id : BackendId} {b : Backend}

/-! ## Started backends -/

/-- The backend as it was registered. -/
def Backend.unstarted (b : Backend) : Backend := { b with started := false, starts := 0 }

theorem Backend.start_unstarted (b : Backend) (m : Machine) :
    (b.start m).2.1.unstarted = b.unstarted := by
  unfold start
  split
  · rfl
  · obtain ⟨r, m'⟩ := b.runStartup.on m
    cases r <;> rfl

/-- The registries differ at most in which backends have been started. -/
def Registry.Alike (r r' : Registry) : Prop :=
  ∀ id, (r'.lookup id).map Backend.unstarted = (r.lookup id).map Backend.unstarted

theorem Registry.Alike.lookup (h : r.Alike r') (hb : r'.lookup id = .ok b) :
    ∃ b₀, r.lookup id = .ok b₀ ∧ b.unstarted = b₀.unstarted := by
  have hid := h id
  rw [hb] at hid
  cases hb₀ : r.lookup id with
  | error e =>
    rw [hb₀] at hid
    cases hid
  | ok b₀ =>
    rw [hb₀] at hid
    exact ⟨b₀, rfl, Except.ok.inj hid⟩

/-- Replacing a backend where it stands. -/
theorem Registry.find?_replace (r : Registry) (b : Backend) (id : BackendId) :
    (r.map fun old => if old.id == b.id then b else old).find? (·.id == id)
      = (r.find? (·.id == id)).map fun old => if old.id == b.id then b else old := by
  rw [List.find?_map]
  congr 2
  funext old
  simp only [Function.comp_apply]
  split
  · rename_i he
    rw [eq_of_beq he]
  · rfl

/-- Registering a backend again that was started changes nothing else. -/
theorem Registry.add_alike {b₀ : Backend} (h : r.lookup id = .ok b₀)
    (hb : b.unstarted = b₀.unstarted) : r.Alike (r.add b) := by
  have hid : b.id = b₀.id := congrArg (·.id) hb
  have hfind : r.find? (·.id == id) = some b₀ := by
    unfold Registry.lookup at h
    split at h
    · rename_i b₁ hb₁
      cases h
      exact hb₁
    · cases h
  have hb₀ : b₀.id = id := eq_of_beq (List.find?_some hfind :)
  have hany : r.any (·.id == b.id) = true := by
    rw [List.any_eq_true]
    exact ⟨b₀, List.mem_of_find?_eq_some hfind, by rw [hid]; exact beq_self_eq_true _⟩
  intro id'
  rw [Registry.add, if_pos hany, Registry.lookup, Registry.find?_replace, Registry.lookup]
  cases hold : r.find? (·.id == id') with
  | none => rfl
  | some old =>
    simp only [Option.map_some]
    split
    · rename_i he
      -- The backend found first under this name is the one that was started.
      have hsame : id' = id := by
        rw [← eq_of_beq (List.find?_some hold :), eq_of_beq he, hid, hb₀]
      subst hsame
      rw [hfind, Option.some.injEq] at hold
      subst hold
      exact congrArg Except.ok hb
    · rfl

theorem Registry.Alike.trans {r'' : Registry} (h : r.Alike r') (h' : r'.Alike r'') :
    r.Alike r'' := fun id => (h' id).trans (h id)

theorem start_alike (s : Platform) (id : BackendId) :
    Returns (outcome (Platform.start id) s) fun b s' => s.registry.Alike s'.registry ∧
      ∃ b₀, s.registry.lookup id = .ok b₀ ∧ b.unstarted = b₀.unstarted := by
  rw [Platform.start, outcome_bind_of_ok (outcome_get s)]
  refine Ends.bind (Returns.lift fun b₀ hb₀ => ?_)
  have hstart := b₀.start_unstarted s.machine
  revert hstart
  obtain ⟨answer, b, m⟩ := b₀.start s.machine
  intro hstart
  cases answer with
  | error e => exact trivial
  | ok u => exact ⟨Registry.add_alike hb₀ hstart, b₀, hb₀, hstart⟩

/-! ## Contexts -/

/-- The contexts are those of registered backends, each under its name. -/
def Registered (r : Registry) (cs : SortedMap BackendId Context) : Prop :=
  ∀ id c, (id, c) ∈ cs → ∃ b, r.lookup id = .ok b ∧ c.backend.unstarted = b.unstarted

theorem Registered.insert {cs : SortedMap BackendId Context} (h : Registered r cs) {c : Context}
    (hc : ∃ b, r.lookup id = .ok b ∧ c.backend.unstarted = b.unstarted) :
    Registered r (cs.insert id c) := by
  intro id' c' hmem
  rcases SortedMap.mem_insert hmem with he | hmem
  · cases he
    exact hc
  · exact h id' c' hmem

theorem markTensor_registered {cs : SortedMap BackendId Context} (h : Registered r cs)
    (hr : r.Alike s.registry) (site : Site) :
    Returns (outcome (markTensor cs site) s) fun cs' s' =>
      Registered r cs' ∧ r.Alike s'.registry := by
  obtain ⟨id, i⟩ := site
  have hrest : ∀ {c : Context} {s' : Platform},
      (∃ b, r.lookup id = .ok b ∧ c.backend.unstarted = b.unstarted) → r.Alike s'.registry →
      Returns (outcome (do
        let builder ← c.builder.mark i
        return cs.insert id { c with builder } : PlatformTask (SortedMap BackendId Context)) s')
        fun cs' s'' => Registered r cs' ∧ r.Alike s''.registry := fun hc hs' =>
    Ends.bind (Returns.check fun builder _ => ⟨h.insert hc, hs'⟩)
  unfold markTensor
  dsimp only
  cases hfind : cs.find? id with
  | some c => exact hrest (h id c (SortedMap.find?_mem hfind)) hr
  | none =>
    refine Ends.bind (Ends.bind ((start_alike s id).mono fun b s' hb => ?_))
    obtain ⟨hs', b₀, hb₀, hb⟩ := hb
    obtain ⟨b₁, hb₁, hb'⟩ := hr.lookup hb₀
    have hnew : ∃ b₁, r.lookup id = .ok b₁ ∧ (Context.new b).backend.unstarted = b₁.unstarted :=
      ⟨b₁, hb₁, hb.trans hb'⟩
    exact hrest hnew (hr.trans hs')

theorem markAll_registered (s : Platform) (marks : List Site) :
    Returns (outcome (marks.foldlM markTensor []) s) fun cs _ => Registered s.registry cs :=
  (Ends.foldlM (fun _ cs (s' : Platform) => Registered s.registry cs ∧ s.registry.Alike s'.registry)
    (fun _ site _ _ _ _ hI => markTensor_registered hI.1 hI.2 site)
    ⟨fun _ _ hmem => (by cases hmem), fun _ => rfl⟩).mono (fun _ _ hcs => hcs.1) fun _ _ _ => trivial

/-! ## What planning is handed -/

/-- A compilation until it plans: the lowered model, its operations in order, each with its backend,
and the contexts of the backends. -/
def prepareModel (model : Model) (policy : Policy) :
    PlatformTask (Model × List (Operation × Placement) × SortedMap BackendId Context) := do
  let model ← placeModel model (← get).registry policy
  let order ← model.linearize
  let ops ← model.placedOperations order
  let contexts ← (sites ops).foldlM markTensor []
  return (model, ops, contexts)

/-- The rest of a compilation: planning visits each operation, which hands it to the backend of its
context, and the plan is finalized. -/
def planPrepared (lowered : Model) (ops : List (Operation × Placement))
    (contexts : SortedMap BackendId Context) : PlatformTask Plan := do
  let ((), draft) ← (ops.forM fun (op, p) => Planner.visit lowered.operands contexts op p).run {}
  Platform.onMachine (draft.finalize lowered (contexts.map fun (_, c) => c.builder))

/-- **Planning visits what was prepared.** -/
theorem compile_eq_planPrepared (model : Model) (policy : Policy) : compile model policy = (do
    let (lowered, ops, contexts) ← prepareModel model policy
    planPrepared lowered ops contexts) := by
  have hrest : ∀ (m : Model) (order : List OperationId), (do
      let marks ← m.tensorMarks order
      let contexts ← marks.foldlM markTensor []
      let draft ← draftPlan m contexts order
      Platform.onMachine (draft.finalize m (contexts.map fun (_, c) => c.builder)) :
        PlatformTask Plan) = (do
      let ops ← m.placedOperations order
      let contexts ← (sites ops).foldlM markTensor []
      planPrepared m ops contexts) := by
    intro m order
    cases hops : m.placedOperations order with
    | error e =>
      rw [tensorMarks, hops]
      rfl
    | ok ops =>
      have hdraft : ∀ contexts, draftPlan m contexts order = (do
          let ((), draft) ←
            (ops.forM fun (op, p) => Planner.visit m.operands contexts op p).run {}
          return draft) := fun contexts => by
        rw [draftPlan, hops]
        rfl
      have hlift : ∀ {α β : Type} (x : Except Failure α) (f : α → β),
          (liftM (do let a ← x; return f a : Except Failure β) : PlatformTask β)
            = (do let a ← (liftM x : PlatformTask α); return f a) := fun x f => by
        cases x <;> rfl
      simp only [tensorMarks_eq hops, hdraft, hlift, planPrepared, bind_assoc, pure_bind]
      rfl
  simp only [compile, prepareModel, bind_assoc, pure_bind, hrest]

theorem prepareModel_ok {model lowered : Model} {ops : List (Operation × Placement)}
    {contexts : SortedMap BackendId Context}
    (h : outcome (prepareModel model policy) s = (.ok (lowered, ops, contexts), s')) :
    ∃ order, placeModel model s.registry policy = .ok lowered ∧ lowered.linearize = .ok order ∧
      lowered.placedOperations order = .ok ops ∧ Marking (sites ops) contexts ∧
      Registered s.registry contexts := by
  have hreturns : Returns (outcome (prepareModel model policy) s) fun a _ => ∃ order,
      placeModel model s.registry policy = .ok a.1 ∧ a.1.linearize = .ok order ∧
        a.1.placedOperations order = .ok a.2.1 ∧ Marking (sites a.2.1) a.2.2 ∧
        Registered s.registry a.2.2 := by
    rw [prepareModel, outcome_bind_of_ok (outcome_get s)]
    refine Ends.bind (Returns.lift fun lowered hplaced => ?_)
    refine Ends.bind (Returns.lift fun order horder => ?_)
    refine Ends.bind (Returns.lift fun ops hops => ?_)
    refine Returns.bind (((markAll_marks (sites ops)).and (markAll_registered s (sites ops))).mono
      (fun _ _ hcs => hcs) fun _ _ _ => trivial) fun cs _ hcs => ?_
    exact ⟨order, hplaced, horder, hops, hcs⟩
  exact hreturns.of_eq h

/-! ## Resolution -/

/-- The backend that the policy names for the operation is registered and takes it. -/
def Policy.Takes (policy : Policy) (r : Registry) (op : Operation) : Prop :=
  ∃ b, r.lookup (policy.backendFor op.kind) = .ok b ∧ b.supports op.kind = true

/-- Where resolution succeeds, every operation is on a backend that takes it. -/
theorem resolve_takes {m : Model} {ps : List Placement} (h : policy.resolve r m = .ok ps) :
    List.Forall₂ (fun op p => p.backend = policy.backendFor op.kind ∧ policy.Takes r op)
      m.operations ps := by
  refine (mapM_eq_ok.1 h).imp fun op p hp => ?_
  obtain ⟨b, hb, hp⟩ := bind_eq_ok.1 hp
  cases hsupports : b.supports op.kind with
  | false =>
    rw [hsupports] at hp
    cases hp
  | true =>
    rw [hsupports] at hp
    cases hp
    exact ⟨rfl, b, hb, hsupports⟩

/-- The first operation that its backend refuses is the one that is not resolved. -/
theorem resolve_refused {m : Model} {op : Operation} {pre post : List Operation}
    (hops : m.operations = pre ++ op :: post) (hpre : ∀ q ∈ pre, policy.Takes r q)
    (hb : r.lookup (policy.backendFor op.kind) = .ok b) (hrefused : b.supports op.kind = false) :
    policy.resolve r m = .error (.resolution (.unresolvedOperation op.kind)) := by
  rw [Policy.resolve, hops]
  clear hops
  dsimp only
  induction pre with
  | nil =>
    rw [List.nil_append, List.mapM_cons, hb]
    simp only [bind, Except.bind, hrefused]
    rfl
  | cons q pre ih =>
    obtain ⟨c, hc, htakes⟩ := hpre q (by simp)
    rw [List.cons_append, List.mapM_cons, hc, ih fun q hq => hpre q (List.mem_cons_of_mem _ hq)]
    simp only [bind, Except.bind, htakes]
    rfl

/-- **An operation that its backend refuses ends the compilation.** -/
theorem unresolved {model m : Model} {op : Operation} {pre post : List Operation}
    (hm : model.finished = .ok m) (hops : m.operations = pre ++ op :: post)
    (hpre : ∀ q ∈ pre, policy.Takes s.registry q)
    (hb : s.registry.lookup (policy.backendFor op.kind) = .ok b)
    (hrefused : b.supports op.kind = false) : outcome (compile model policy) s
      = (.error (.error (.resolution (.unresolvedOperation op.kind))), s) := by
  have hplace : placeModel model s.registry policy
      = .error (.resolution (.unresolvedOperation op.kind)) := by
    rw [placeModel_eq, hm]
    change (policy.resolve s.registry m >>= _) = _
    rw [resolve_refused hops hpre hb hrefused]
    rfl
  rw [compile, outcome_bind_of_ok (outcome_get s), outcome_bind, hplace]
  rfl

/-! ## Operations that are handed over -/

/-- Lowering added the operation, which copies an operand for a backend. -/
def Model.Added (m : Model) (op : Operation) (id : BackendId) : Prop :=
  ∃ i v a, op = ⟨[i], [v], .permute a id⟩ ∧ m.operands.length ≤ v

/-- An operation of a lowered model is one that its backend takes, or copies an operand that is read
across. -/
theorem Model.Lowering.handed {m₀ m sm m' : Model} {ps : List Placement} {copies : Copies}
    (hlow : Lowering m₀ m ps copies sm m') (hps : policy.resolve r m = .ok ps) {j : OperationId}
    {op : Operation} {p : Placement} (hop : m'.operations[j]? = some op)
    (hp : m'.placements[j]? = some p) :
    (p.backend = policy.backendFor op.kind ∧ policy.Takes r op) ∨
      (m₀.Added op p.backend ∧ op.kind = .permute ∧ ∃ i, m.Crosses ps i p.backend) := by
  rw [hlow.lowered.operations] at hop
  rw [hlow.placements] at hp
  rcases hlow.split.cases hlow.count hop with
    ⟨op₀, p₀, hop₀, hp₀, hp', rfl⟩ | ⟨k, i, a, b, -, rfl, hv, -, -, hon⟩
  · rw [hp, Option.some.injEq] at hp'
    subst hp'
    obtain ⟨hj, rfl⟩ := List.getElem?_eq_some_iff.1 hop₀
    obtain ⟨hj', rfl⟩ := List.getElem?_eq_some_iff.1 hp₀
    exact .inl ((resolve_takes hps).get hj hj')
  · obtain ⟨p', hp', rfl⟩ := hon
    rw [hp, Option.some.injEq] at hp'
    subst hp'
    refine .inr ⟨⟨i, _, a, rfl, ?_⟩, rfl, i, (hlow.split.copied hv).crosses⟩
    rw [← hlow.length_eq]
    exact Nat.le_add_right _ _

/-- Every operand that is read across on a backend is copied by an operation placed there. -/
theorem Model.Lowering.copier {m₀ m sm m' : Model} {ps : List Placement} {copies : Copies}
    (hlow : Lowering m₀ m ps copies sm m') {i : OperandId} {id : BackendId}
    (hcross : m.Crosses ps i id) :
    ∃ (j : OperationId) (v : OperandId) (a : BackendId) (p : Placement),
      m'.operations[j]? = some ⟨[i], [v], .permute a id⟩ ∧
      m'.placements[j]? = some p ∧ p.backend = id := by
  obtain ⟨v, hv⟩ := hlow.split.crossed hcross
  obtain ⟨k, a, rfl, hop, -, -, p, hp, hid⟩ := hlow.split.copy_eq hv
  rw [← hlow.lowered.operations] at hop
  rw [← hlow.placements] at hp
  exact ⟨_, _, a, p, hop, hp, hid⟩

/-- A context stands for its backend as that was registered. -/
theorem Registered.supports {cs : SortedMap BackendId Context} (h : Registered r cs) {c : Context}
    (hc : cs.find? id = some c) :
    ∃ b, r.lookup id = .ok b ∧ ∀ k, c.backend.supports k = b.supports k := by
  obtain ⟨b, hb, hsame⟩ := h id c (SortedMap.find?_mem hc)
  have hrefuses : c.backend.refuses = b.refuses := congrArg (·.refuses) hsame
  exact ⟨b, hb, fun k => by rw [Backend.supports, Backend.supports, hrefuses]⟩

/-- A compilation of `m₀` has come to planning: `m` is the finished model, placed as `ps` says,
`lowered` is what lowering made of it, and `ops` and `contexts` are handed over. -/
structure Handover (policy : Policy) (r : Registry) (m₀ m : Model) (ps : List Placement)
    (lowered : Model) (ops : List (Operation × Placement))
    (contexts : SortedMap BackendId Context) : Prop where
  resolved : policy.resolve r m = .ok ps
  lowering : ∃ copies sm, Lowering m₀ m ps copies sm lowered
  /-- Every operation of the lowered model is handed over, and no other. -/
  mem : ∀ op p, (op, p) ∈ ops ↔
    ∃ j : OperationId, lowered.operations[j]? = some op ∧ lowered.placements[j]? = some p
  marking : Marking (sites ops) contexts
  registered : Registered r contexts

theorem prepareModel_handover {m₀ lowered : Model} {ops : List (Operation × Placement)}
    {contexts : SortedMap BackendId Context} (hbuilt : m₀.Built)
    (h : outcome (prepareModel m₀ policy) s = (.ok (lowered, ops, contexts), s')) :
    ∃ m ps, m₀.finished = .ok m ∧ Handover policy s.registry m₀ m ps lowered ops contexts := by
  obtain ⟨order, hplaced, horder, hops, hmarking, hregistered⟩ := prepareModel_ok h
  obtain ⟨m, ps, hm, hps, hlower⟩ := placeModel_finished hplaced
  obtain ⟨hsame, hl, hc, -⟩ := finished_ok hbuilt hm
  obtain ⟨copies, sm, hlow⟩ := lower_lowering hsame hbuilt.sound.constants hl hc hlower
  obtain ⟨-, -, hall⟩ := linearize_ok hlow.lowLinked hlow.lowChecked horder
  obtain ⟨hright, hleft⟩ := mem_of_forall₂ (placedOperations_ok.1 hops)
  refine ⟨m, ps, hm, hps, ⟨copies, sm, hlow⟩, fun op p => ⟨fun hq => ?_, fun hj => ?_⟩, hmarking,
    hregistered⟩
  · obtain ⟨j, -, hop, hp⟩ := hright _ hq
    exact ⟨j, hop, hp⟩
  · obtain ⟨j, hop, hp⟩ := hj
    obtain ⟨⟨op', p'⟩, hq, hop', hp'⟩ :=
      hleft j ((hall j).2 (List.getElem?_eq_some_iff.1 hop).1)
    rw [hop, Option.some.injEq] at hop'
    rw [hp, Option.some.injEq] at hp'
    subst hop' hp'
    exact hq

section

variable {m₀ m lowered : Model} {ps : List Placement} {ops : List (Operation × Placement)}
  {contexts : SortedMap BackendId Context}

/-- What is handed over is of a kind that the backend takes, or a copy that lowering added. -/
theorem Handover.kinds (h : Handover policy r m₀ m ps lowered ops contexts) {op : Operation}
    {p : Placement} {c : Context} (hq : (op, p) ∈ ops)
    (hfind : contexts.find? p.backend = some c) : c.backend.supports op.kind = true ∨
      (m₀.Added op p.backend ∧ op.kind = .permute ∧ ∃ i, m.Crosses ps i p.backend) := by
  obtain ⟨copies, sm, hlow⟩ := h.lowering
  obtain ⟨j, hop, hp⟩ := (h.mem op p).1 hq
  refine (hlow.handed h.resolved hop hp).imp_left fun htakes => ?_
  obtain ⟨hbackend, b, hb, htakes⟩ := htakes
  obtain ⟨b', hb', hsupports⟩ := h.registered.supports hfind
  rw [← hbackend, hb'] at hb
  cases hb
  rw [hsupports, htakes]

/-- For an operand that is read across, the backend that reads it is handed a copy. -/
theorem Handover.copier (h : Handover policy r m₀ m ps lowered ops contexts) {i : OperandId}
    {id : BackendId} (hcross : m.Crosses ps i id) : ∃ op p c, (op, p) ∈ ops ∧
      contexts.find? p.backend = some c ∧ op.kind = .permute ∧ p.backend = id := by
  obtain ⟨copies, sm, hlow⟩ := h.lowering
  obtain ⟨j, v, a, p, hop, hp, hid⟩ := hlow.copier hcross
  subst hid
  have hq : ((⟨[i], [v], .permute a p.backend⟩ : Operation), p) ∈ ops :=
    (h.mem _ p).2 ⟨j, hop, hp⟩
  obtain ⟨c, hmem⟩ := h.marking.all (i := v)
    (List.mem_flatMap.2 ⟨_, hq, List.mem_append_right _ (List.mem_singleton_self _)⟩)
  have hfind : contexts.find? p.backend = some c := h.marking.ascending.find?.2 hmem
  exact ⟨_, p, c, hq, hfind, rfl, rfl⟩

/-- Only copies can be handed to a backend that refuses them. -/
theorem Handover.all_supported_iff (h : Handover policy r m₀ m ps lowered ops contexts) :
    (∀ op p c, (op, p) ∈ ops → contexts.find? p.backend = some c →
        c.backend.supports op.kind = true) ↔
      ∀ i id b, m.Crosses ps i id → r.lookup id = .ok b → b.supports .permute = true := by
  constructor
  · intro htakes i id b hcross hb
    obtain ⟨op, p, c, hq, hfind, hkind, rfl⟩ := h.copier hcross
    obtain ⟨b', hb', hsupports⟩ := h.registered.supports hfind
    rw [hb] at hb'
    cases hb'
    rw [← hsupports, ← hkind]
    exact htakes op p c hq hfind
  · intro htakes op p c hq hfind
    rcases h.kinds hq hfind with hsupports | ⟨-, hkind, i, hcross⟩
    · exact hsupports
    · obtain ⟨b, hb, hsupports⟩ := h.registered.supports hfind
      rw [hkind, hsupports]
      exact htakes i p.backend b hcross hb

end

/-- **What backends are handed.** If the backend of an operation refuses its kind, a compilation
fails with that operation unresolved. If it comes to planning, every operation that planning hands to
a backend is of a kind that the backend takes, or it is one that lowering added; and all are of such
kinds if and only if no operand is read across on a backend that refuses to permute. -/
theorem handed_supported (calls : List Call) (policy : Policy) (s : Platform) :
    (∀ m pre op post b, (ofCalls calls).finished = .ok m → m.operations = pre ++ op :: post →
      (∀ q ∈ pre, policy.Takes s.registry q) →
      s.registry.lookup (policy.backendFor op.kind) = .ok b → b.supports op.kind = false →
      outcome (compile (ofCalls calls) policy) s
        = (.error (.error (.resolution (.unresolvedOperation op.kind))), s)) ∧
    ∀ lowered ops contexts s',
      outcome (prepareModel (ofCalls calls) policy) s = (.ok (lowered, ops, contexts), s') →
      outcome (compile (ofCalls calls) policy) s
        = outcome (planPrepared lowered ops contexts) s' ∧
      (∀ op p c, (op, p) ∈ ops → contexts.find? p.backend = some c →
        c.backend.supports op.kind = true ∨ (ofCalls calls).Added op p.backend) ∧
      ∃ m ps, (ofCalls calls).finished = .ok m ∧ policy.resolve s.registry m = .ok ps ∧
        ((∀ op p c, (op, p) ∈ ops → contexts.find? p.backend = some c →
            c.backend.supports op.kind = true) ↔
          ∀ i id b, m.Crosses ps i id → s.registry.lookup id = .ok b →
            b.supports .permute = true) := by
  refine ⟨fun m pre op post b hm hops hpre hb hrefused => unresolved hm hops hpre hb hrefused, ?_⟩
  intro lowered ops contexts s' hrun
  obtain ⟨order, hplaced, -⟩ := prepareModel_ok hrun
  have hbuilt : (ofCalls calls).Built := (built_or_lowered calls).resolve_right
    fun hlowered => placeModel_lowered hlowered lowered hplaced
  obtain ⟨m, ps, hm, hhandover⟩ := prepareModel_handover hbuilt hrun
  have hcompile : outcome (compile (ofCalls calls) policy) s
      = outcome (planPrepared lowered ops contexts) s' := by
    rw [compile_eq_planPrepared, outcome_bind_of_ok hrun]
  exact ⟨hcompile, fun op p c hq hfind => (hhandover.kinds hq hfind).imp_right And.left, m, ps, hm,
    hhandover.resolved, hhandover.all_supported_iff⟩

/-- The device, and a backend on the host that does not permute. -/
def unpermuting : Platform :=
  { registry := [Backend.device, { Backend.host with
      id := "ref", refuses := [.permute], stageName := "ref", tensorName := "ref" }] }

/-- A row that is copied, as `kind` says, and then reshaped. -/
def handedCalls (kind : Attributes) : List Call :=
  let row : Call := .addOperand [1, 2] { element := .float32 }
  [row, row, row, .addOperation ⟨[0], [1], kind⟩, .addOperation ⟨[1], [2], .reshape none⟩,
    .addInput 0, .addOutput 2]

/-- Reshaping on the host, everything else on the device. -/
def handedPolicy : Policy := ({} : Policy).withKind .reshape "ref"

/-- The finished model, whose first operation the caller wrote as a copy between backends. -/
@[irreducible] def handedFinished : Model :=
  (ofCalls (handedCalls (.permute "gpu" "ref"))).finished.toOption.getD {}

/-- What the caller writes is refused. What lowering adds for the operation that reshapes is handed
over. -/
theorem handed_supported_unpermuting :
    outcome (compile (ofCalls (handedCalls (.permute "gpu" "ref"))) { all := "ref" }) unpermuting
        = (.error (.error (.resolution (.unresolvedOperation .permute))), unpermuting) ∧
      ∃ lowered ops contexts s', outcome (prepareModel (ofCalls (handedCalls .nop)) handedPolicy)
          unpermuting = (.ok (lowered, ops, contexts), s') ∧
        ∀ op p c, (op, p) ∈ ops → contexts.find? p.backend = some c →
          c.backend.supports op.kind = true ∨
            (ofCalls (handedCalls .nop)).Added op p.backend := by
  have hm : (ofCalls (handedCalls (.permute "gpu" "ref"))).finished = .ok handedFinished := by
    decide +kernel
  have hops : handedFinished.operations
      = [] ++ ⟨[0], [1], .permute "gpu" "ref"⟩ :: [⟨[1], [2], .reshape none⟩] := by decide +kernel
  refine ⟨(handed_supported _ { all := "ref" } unpermuting).1 handedFinished [] _ _ _ hm hops
    (by simp) rfl rfl, ?_⟩
  have hprepared : (fun _ => ()) <$>
      (outcome (prepareModel (ofCalls (handedCalls .nop)) handedPolicy) unpermuting).1 = .ok () := by
    decide +kernel
  obtain ⟨⟨lowered, ops, contexts⟩, hrun, -⟩ := map_eq_ok.1 hprepared
  exact ⟨lowered, ops, contexts, _, outcome_eq hrun,
    ((handed_supported _ _ _).2 _ _ _ _ (outcome_eq hrun)).2.1⟩

/-- The compilation succeeds, and the backend that does not permute is handed an operation that
permutes. -/
theorem hands_refused_kind : ∃ lowered ops contexts s' op p c plan s'',
    outcome (prepareModel (ofCalls (handedCalls .nop)) handedPolicy) unpermuting
        = (.ok (lowered, ops, contexts), s') ∧
      (op, p) ∈ ops ∧ contexts.find? p.backend = some c ∧ c.backend.supports op.kind = false ∧
      outcome (compile (ofCalls (handedCalls .nop)) handedPolicy) unpermuting
        = (.ok plan, s'') := by
  have hhanded : (fun a => a.2.1.any fun q => (a.2.2.find? q.2.backend).any fun c =>
      !c.backend.supports q.1.kind) <$>
        (outcome (prepareModel (ofCalls (handedCalls .nop)) handedPolicy) unpermuting).1
      = .ok true := by decide +kernel
  have hcompiled : (fun _ => ()) <$>
      (outcome (compile (ofCalls (handedCalls .nop)) handedPolicy) unpermuting).1 = .ok () := by
    decide +kernel
  obtain ⟨⟨lowered, ops, contexts⟩, hrun, hany⟩ := map_eq_ok.1 hhanded
  obtain ⟨plan, hplan, -⟩ := map_eq_ok.1 hcompiled
  obtain ⟨⟨op, p⟩, hq, hc⟩ := List.any_eq_true.1 hany
  obtain ⟨c, hfind, hrefused⟩ : ∃ c, contexts.find? p.backend = some c ∧
      (!c.backend.supports op.kind) = true := by
    simpa [Option.any_eq_true] using hc
  exact ⟨lowered, ops, contexts, _, op, p, c, plan, _, outcome_eq hrun, hq, hfind,
    by simpa using hrefused, outcome_eq hplan⟩

end HeteroNet
