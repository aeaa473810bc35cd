import HeteroNet.Proofs.Plan.Compiled

/-
Why a compilation fails, on the default backends and with nothing left to report on the device: the
graph is refused, or no backend takes an operation, or the device runs out of memory; and it breaks
off where no buffer can be as large as an operand. The passes agree with each other. What a stage binds was marked on the backend where the stage looks for it,
has the operand's own shape for its constraint, and has its memory before any stage is applied.
-/

namespace HeteroNet

open Operation Model

variable {m₀ m : Machine} {s s' : Platform} {model : Model} {policy : Policy} {d : PlanDraft}
  {builders bs bs' : List TensorBuilder} {ops : List (Operation × Placement)}

/-- The operands that a stage binds, each on the backend whose tensor it takes. -/
def Stage.binds : Stage → List Site
  | .host backend _ ins out => (ins ++ [out]).map (backend, ·)
  | .device backend _ _ ins out _ => (ins ++ [out]).map (backend, ·)
  | .permute input output source target => [(source, input), (target, output)]

/-- The tensor is marked on its backend, and constrained to be as its operand. -/
structure Expected (model : Model) (d : PlanDraft) (builders : List TensorBuilder) (site : Site) :
    Prop where
  marked : ∃ b ∈ builders, b.backend = site.1 ∧ site.2 ∈ b.marked
  constrained : ∃ o, model.operands[site.2]? = some o ∧
    d.constraints.find? site.2 = some ⟨o.shape, o.type⟩

/-- The tensor was prepared on its backend, and has memory. -/
def Held (bs : List TensorBuilder) (m : Machine) (site : Site) : Prop :=
  ∃ b ∈ bs, b.backend = site.1 ∧ b.phase = .allocated ∧
    ∃ t, b.tensors.find? site.2 = some t ∧ (m.memory.cell t.cell).reserved = true

/-- The call broke off at an operand that has more elements than a buffer can have words. -/
def Oversized (model : Model) (e : Failure) : Prop :=
  e = .oversized ∧ ∃ n, model.Needs n ∧ Buffer.capacity < n

/-- There is no memory for an operand, on the device or at all. -/
theorem Lacking.cause {needs : Nat → Prop} {e : Failure} (h : Lacking m needs e)
    (hneeds : ∀ n, needs n → model.Needs n) : OutOfMemory e ∨ Oversized model e :=
  (h.mono hneeds).imp And.left id

/-- A stage binds what its operation reads and writes. -/
theorem Staged.binds {os : Operands} {q : Operation × Placement} {stage : Stage}
    (h : Staged os q stage) : stage.binds = reads q ++ writes q := by
  have hplain : ∀ {op : Operation} (p : Placement) {o : OperandId}, op.kind ≠ .permute →
      op.outputs = [o] →
      (op.inputs ++ [o]).map (p.backend, ·) = reads (op, p) ++ writes (op, p) := by
    intro op p o hk ho
    rw [reads, writes, source_of_kind hk, target_of_kind hk, ho, List.map_append]
  cases h with
  | @host _ p _ _ _ _ _ _ _ hp hk => exact hplain p hk hp.outputs
  | @device _ p _ _ _ _ _ _ _ hp hk => exact hplain p hk hp.outputs
  | permute ha hx ho =>
    rw [reads, writes, hx, ho, source, target, ha]
    rfl

theorem Planning.binds (h : Planning model ops d builders) {stage : Stage} (hs : stage ∈ d.stages)
    {site : Site} (hsite : site ∈ stage.binds) : site ∈ sites ops := by
  obtain ⟨q, hq, hstaged⟩ := (mem_of_forall₂ h.stages).1 stage hs
  exact List.mem_flatMap.2 ⟨q, hq, hstaged.binds ▸ hsite⟩

theorem Planning.expected (h : Planning model ops d builders) {site : Site}
    (hsite : site ∈ sites ops) : Expected model d builders site where
  marked := by
    obtain ⟨b, hb, hid⟩ := List.mem_map.1 (h.marks.backend hsite)
    exact ⟨b, hb, hid, (h.marks.marked b hb _).2 (hid ▸ hsite)⟩
  constrained := h.constraints site.1 site.2 hsite

/-- Once all builders have their memory, every tensor of the table is held. -/
theorem Assembling.held {a : Assembly} {os : Operands} {needs : List Site}
    (h : Assembling m₀ bs a) (htable : Table os needs bs) {site : Site} (hsite : site ∈ needs) :
    Held a.builders a.machine site := by
  obtain ⟨t, ht⟩ := (h.table htable).exists_tensorAt hsite
  have hblank := h.tensorAt_blank ht
  obtain ⟨b, hfind, ht⟩ := Option.bind_eq_some_iff.1 ht
  have hb := List.mem_of_find?_eq_some hfind
  have hid : b.backend = site.1 := eq_of_beq (List.find?_some hfind :)
  exact ⟨b, hb, hid, h.phases b hb, t, ht, hblank.reserved⟩

/-- Preparing and allocating what was marked. Only memory can be missing. -/
theorem Planning.held (h : Planning model ops d builders) (m : Machine) :
    ∃ bs m₁, outcome (builders.mapM (·.prepare d.constraints)) m = (.ok bs, m₁) ∧
      ∀ answer bs' m₂, Plan.allocateAll bs m₁ = (answer, bs', m₂) →
        (∃ e, answer = .error e ∧ Lacking m (Needed model.operands (sites ops)) e) ∨
          (answer = .ok () ∧ ∀ site ∈ sites ops, Held bs' m₂ site) := by
  obtain ⟨bs, m₁, hprepare, hprepared, hlaid, hfree⟩ := (prepareAll_laid h.marks.fresh
    (fun b hb i hi => h.constraints b.backend i ((h.marks.marked b hb i).1 hi)) m).exists_ok
  refine ⟨bs, m₁, hprepare, fun answer bs' m₂ hrun => ?_⟩
  obtain ⟨answer', bs'', m₂', hrun', -, hends⟩ := allocateAll_ends hprepared hlaid hfree
  rw [hrun] at hrun'
  cases hrun'
  cases answer with
  | error e =>
    exact .inl ⟨e, rfl, hends.cause.mono fun n ⟨t, ht, hn⟩ =>
      hn ▸ (h.marks.table hprepared).needed ht⟩
  | ok u => exact .inr ⟨rfl, fun site hsite => hends.held (h.marks.table hprepared) hsite⟩

/-! ## Compilations -/

/-- A model that its caller has lowered is refused. -/
theorem accept_lowered (hs : s.Clean) (h : model.phase = .lowered) :
    Ends (outcome (accept model policy) s) (fun _ _ => False) (Declines s) := by
  rw [accept, outcome_bind_of_ok (outcome_get s)]
  exact Ends.bind (Ends.lift (fun m' hplaced => absurd hplaced (placeModel_lowered h m'))
    fun e he => ⟨judges_placeModel (.inr h) e he, hs, rfl⟩)

/-- What a compilation has when it accepts a model, whatever the model. -/
theorem accept_planning (hs : s.Clean) (calls : List Call) (policy : Policy) :
    Ends (outcome (accept (ofCalls calls) policy) s)
      (fun a s' => Starts s s' ∧ ∃ ops, Planning a.1 ops a.2.1 a.2.2 ∧
        ∀ n, Needed a.1.operands (sites ops) n → (ofCalls calls).Needs n) (Declines s) := by
  rcases built_or_lowered calls with hbuilt | hlowered
  · refine (accept_ends policy hbuilt hs).mono (fun a s' ha => ?_) fun _ _ he => he
    obtain ⟨hstarts, ops, hcompiles, hplanning⟩ := ha
    exact ⟨hstarts, ops, hplanning, fun n hn => hcompiles.needs hbuilt hn⟩
  · exact (accept_lowered hs hlowered).mono (fun _ _ ha => ha.elim) fun _ _ he => he

/-- Whatever the model, a compilation fails with a verdict or for want of memory. -/
theorem compile_fails (hs : s.Clean) (hfault : s.machine.device.fault = none) (calls : List Call)
    (policy : Policy) : Ends (outcome (compile (ofCalls calls) policy) s) (fun _ _ => True)
      (fun e _ => e.IsVerdict ∨ OutOfMemory e ∨ Oversized (ofCalls calls) e) := by
  rw [compile_eq]
  refine Ends.bind ((accept_planning hs calls policy).mono (fun a s' ha => ?_)
    fun e _ he => .inl he.1)
  obtain ⟨⟨hclean, hmachine⟩, ops, hplanning, hneeds⟩ := ha
  refine Platform.onMachine_ends ((finalize_ends hplanning hclean.failure).mono
    (fun _ _ _ => trivial) fun e m he => .inr ((he.cause.resolve_right ?_).cause hneeds))
  rintro ⟨text, ⟨label, reason, hpending, -⟩, -⟩
  rw [hmachine, hfault] at hpending
  cases hpending

/-- **The passes of a compilation agree.** Whatever calls made the model and whatever the policy, a
compilation on the default backends that fails does so with an error about the graph or about the
choice of backends, or because the device is out of memory, or breaks off at an operand that no buffer
can be as large as. Every operand that a stage binds was marked on the stage's backend and constrained
to be what it is declared to be; preparing the builders succeeds, and allocating them either ends for
want of memory, so that no stage is applied, or leaves every such operand with memory on that
backend. -/
theorem compile_refuses (hs : s.Clean) (hfault : s.machine.device.fault = none)
    (calls : List Call) (policy : Policy) :
    (∀ e s', outcome (compile (ofCalls calls) policy) s = (.error e, s') →
      (∃ g, e = .error (.graph g)) ∨ (∃ r, e = .error (.resolution r)) ∨ OutOfMemory e ∨
        Oversized (ofCalls calls) e) ∧
    ∀ lowered d builders s',
      outcome (accept (ofCalls calls) policy) s = (.ok (lowered, d, builders), s') →
      (∀ stage ∈ d.stages, ∀ site ∈ stage.binds, Expected lowered d builders site) ∧
      ∃ bs m, outcome (builders.mapM (·.prepare d.constraints)) s'.machine = (.ok bs, m) ∧
        ∀ answer bs' m', Plan.allocateAll bs m = (answer, bs', m') →
          (∃ e, answer = .error e ∧ (OutOfMemory e ∨ Oversized (ofCalls calls) e)) ∨
            (answer = .ok () ∧
              ∀ stage ∈ d.stages, ∀ site ∈ stage.binds, Held bs' m' site) := by
  refine ⟨fun e s' hrun => ?_, fun lowered d builders s' haccept => ?_⟩
  · have hends := compile_fails hs hfault calls policy
    rw [hrun] at hends
    rcases hends with hverdict | hmemory
    · cases e with
      | outOfBounds => exact hverdict.elim
      | oversized => exact hverdict.elim
      | error e =>
        cases e with
        | graph g => exact .inl ⟨g, rfl⟩
        | resolution r => exact .inr (.inl ⟨r, rfl⟩)
        | _ => exact hverdict.elim
    · exact .inr (.inr hmemory)
  · have hends := accept_planning hs calls policy
    rw [haccept] at hends
    obtain ⟨-, ops, hplanning, hneeds⟩ := hends
    refine ⟨fun stage hstage site hsite => hplanning.expected (hplanning.binds hstage hsite), ?_⟩
    obtain ⟨bs, m, hprepare, hallocate⟩ := hplanning.held s'.machine
    refine ⟨bs, m, hprepare, fun answer bs' m' hrun => ?_⟩
    refine (hallocate answer bs' m' hrun).imp (fun ⟨e, he, hlacking⟩ => ⟨e, he, ?_⟩)
      fun ⟨hok, hheld⟩ => ⟨hok, fun stage hstage site hsite => ?_⟩
    · exact hlacking.cause hneeds
    · exact hheld site (hplanning.binds hstage hsite)

/-- Four bytes are left where a row of two floats is copied to the device, as the caller wrote it,
and copied again there. -/
def crampedCalls : List Call :=
  let row : Call := .addOperand [1, 2] { element := .float32 }
  [row, row, row, .addOperation ⟨[0], [1], .permute "cpu" "gpu"⟩, .addOperation ⟨[1], [2], .nop⟩,
    .addInput 0, .addOutput 2]

def cramped : Platform :=
  { registry := [Backend.device, Backend.host], machine := { device := { limit := some 12 } } }

theorem cramped_clean : cramped.Clean where
  registry b hb := by
    simp only [cramped, List.mem_cons, List.not_mem_nil, or_false] at hb
    rcases hb with rfl | rfl
    · exact .inr rfl
    · exact .inl rfl
  failure := rfl

/-- Three tensors are bound by the two stages, and the second on the device gets no memory. -/
theorem compile_refuses_cramped :
    (outcome (compile (ofCalls crampedCalls) {}) cramped).1
        = .error (.error (.allocation (.outOfMemory 8 4))) ∧
      ∃ lowered d builders s',
        outcome (accept (ofCalls crampedCalls) {}) cramped = (.ok (lowered, d, builders), s') ∧
        d.stages.map Stage.binds = [[("cpu", 0), ("gpu", 1)], [("gpu", 1), ("gpu", 2)]] ∧
        ∀ stage ∈ d.stages, ∀ site ∈ stage.binds, Expected lowered d builders site := by
  have hrefuses := compile_refuses cramped_clean rfl crampedCalls {}
  refine ⟨by decide +kernel, ?_⟩
  have hbinds : (fun a => a.2.1.stages.map Stage.binds) <$>
      (outcome (accept (ofCalls crampedCalls) {}) cramped).1
        = .ok [[("cpu", 0), ("gpu", 1)], [("gpu", 1), ("gpu", 2)]] := by decide +kernel
  obtain ⟨⟨lowered, d, builders⟩, haccept, hbinds⟩ := map_eq_ok.1 hbinds
  exact ⟨lowered, d, builders, _, outcome_eq haccept, hbinds,
    (hrefuses.2 lowered d builders _ (outcome_eq haccept)).1⟩

end HeteroNet
