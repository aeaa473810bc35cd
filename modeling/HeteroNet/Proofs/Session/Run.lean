import HeteroNet.Proofs.Plan.Executed
import HeteroNet.Proofs.Session.Pushed

/-
Runs of a session. A run of a session with all slots bound either succeeds, and then every command
it submitted has completed and each output buffer starts with the words that the inputs settle
(`Session.Ran`); or an injected fault was pending, the run reports it, and the device has no
failure left to report. Only a buffer that holds less than its tensor would make a run reach outside
(`Session.run_short`).
-/

namespace HeteroNet

open Operation Model

/-! ## The first tensor of an operand -/

/-- The backend of the first tensor of an operand. -/
def FirstSite (sites : List Site) (i : OperandId) (id : BackendId) : Prop :=
  (id, i) ∈ sites ∧ ∀ id', (id', i) ∈ sites → ¬ id' < id

theorem FirstSite.unique {sites : List Site} {i : OperandId} {id id' : BackendId}
    (h : FirstSite sites i id) (h' : FirstSite sites i id') : id' = id :=
  String.le_antisymm (String.not_lt.1 (h'.2 _ h.1)) (String.not_lt.1 (h.2 _ h'.1))

section

variable {os : Operands} {sites : List Site} {p : Plan} {i : OperandId}

theorem Table.firstSite (h : Table os sites p.builders) {t : Tensor} {rest : List Tensor}
    (ht : p.tensors i = t :: rest) :
    ∃ id, FirstSite sites i id ∧ tensorAt p.builders (id, i) = some t := by
  rw [h.tensors_eq rfl, List.filterMap_eq_cons_iff] at ht
  obtain ⟨before, id, after, hnames, hbefore, hid, -⟩ := ht
  refine ⟨id, ⟨(h.tensorAt_known hid).1, fun id' hs hlt => ?_⟩, hid⟩
  have hsorted := h.names
  have hmem := h.backend hs
  rw [hnames] at hsorted hmem
  obtain ⟨-, hsorted, -⟩ := List.pairwise_append.1 hsorted
  rcases List.mem_append.1 hmem with hmem | hmem
  · obtain ⟨t', ht'⟩ := h.exists_tensorAt hs
    rw [hbefore _ hmem] at ht'
    cases ht'
  · rcases List.mem_cons.1 hmem with rfl | hmem
    · exact Std.lt_irrefl hlt
    · exact Std.not_gt_of_lt hlt (List.rel_of_pairwise_cons hsorted hmem)

theorem Table.tensors_ne_nil (h : Table os sites p.builders) {id : BackendId}
    (hs : (id, i) ∈ sites) : ∃ t rest, p.tensors i = t :: rest := by
  obtain ⟨t, ht⟩ := h.exists_tensorAt hs
  exact List.exists_cons_of_ne_nil (List.ne_nil_of_mem ((h.mem_tensors rfl).2 ⟨id, ht⟩))

end

namespace Session

/-- The buffers of the inputs. -/
def inputs (s : Session) : List Bytes := s.sources.filterMap (·.map Binding.buffer)

/-- The number of commands that a run submits. -/
def commands (p : Plan) : Nat :=
  commandsFor (p.model.inputs.flatMap p.tensors) + commandsOf p.runnables

/-- What a run does to a bound output. -/
def Pulled (V : Words) (sites : List Site) (b b' : Option Binding) : Prop :=
  ∀ c, b = some c → ∃ id, FirstSite sites c.operand id ∧ b' = some (c.overwrite (V (id, c.operand)))

/-- A run succeeded. -/
structure Ran (p : Plan) (ops : List (Operation × Placement)) (s : Session) (m : Machine)
    (s' : Session) (m' : Machine) : Prop where
  bound : s.requireBound = .ok ()
  plan : s'.plan = s.plan
  sources : s'.sources = s.sources
  state : s'.state = .ran
  memory : Memory.Rewritten (p.Touched ops) m.memory m'.memory
  healthy : ∃ E, Healthy m E (commands p) m'
  count : s'.sinks.length = s.sinks.length
  sinks : ∀ (slot : SlotId) b, s.sinks[slot]? = some b →
    ∃ b', s'.sinks[slot]? = some b' ∧
      Pulled (p.model.final ops (p.model.given s.inputs)) (sites ops) b b'

variable {m₀ : Model} {policy : Policy} {p : Plan} {ops : List (Operation × Placement)}
  {s : Session} {m m₁ : Machine} {E : CellId → Buffer} {n : Nat} {V : Words}

/-! ## Bindings -/

theorem exists_bindings : ∀ {bs : List (Option Binding)}, (∀ b ∈ bs, b.isSome) →
    ∃ cs : List Binding, bs = cs.map some
  | [], _ => ⟨[], rfl⟩
  | none :: _, h => absurd (h none (by simp)) (by simp)
  | some c :: bs, h => by
    obtain ⟨cs, rfl⟩ := exists_bindings fun b hb => h b (List.mem_cons_of_mem _ hb)
    exact ⟨c :: cs, rfl⟩

theorem slots_bindings {os : Operands} {is : List OperandId} {cs : List Binding}
    (h : Slots os is (cs.map some)) : List.Forall₂ (fun i b => Binding.Of os i b) is cs :=
  (List.forall₂_map_right_iff.1 h).imp fun _ b hb => hb b rfl

/-- The buffers of a session with all inputs bound. -/
theorem inputs_bindings {cs : List Binding} (h : s.sources = cs.map some) :
    s.inputs = cs.map Binding.buffer := by
  rw [inputs, h, List.filterMap_map]
  exact congrFun List.filterMap_eq_map cs

theorem pushAll_eq {cs : List Binding} (hp : s.plan = p) (h : s.sources = cs.map some) :
    s.pushAll = cs.forM fun b => (p.tensors b.operand).forM b.push := by
  rw [pushAll, h, hp, List.forM_eq_forM, List.forM_map]
  rfl

/-! ## Pulling the outputs -/

/-- Pulling an output reads the words of its first tensor. It cannot fail once the steps of the plan
have run: it submits no command, and no failure is left. -/
theorem pull_eq {t : Tensor} (b : Binding) {W : CellId → Prop} {i : OperandId}
    {id : BackendId} (hready : AllReady p.builders m₁.memory)
    (ht : tensorAt p.builders (id, i) = some t) (hE : Holds p.builders E V)
    (hmem : Memory.Rewritten W m₁.memory m.memory) (h : Healthy m₁ E n m) :
    outcome (b.pull t) m = (.ok (b.overwrite (V (id, i))), m) := by
  have hread := (t.readLogical_ends (D := False) (hready.tensorAt ht)
    ⟨hmem, .inl h⟩).mono (fun _ _ hx => hx) fun _ _ he => he.1
  obtain ⟨x, m', hrun, rfl, -, hx⟩ := hread.exists_ok
  rw [Binding.pull, outcome_bind_of_ok hrun, (hx h).left_unique (hE _ _ ht)]
  rfl

/-- The state of a run whose first `k` outputs are pulled. -/
structure Pulling (p : Plan) (ops : List (Operation × Placement)) (V : Words) (s : Session)
    (m : Machine) (k : Nat) (x : Session × Machine) : Prop where
  plan : x.1.plan = p
  sources : x.1.sources = s.sources
  machine : x.2 = m
  count : x.1.sinks.length = s.sinks.length
  done : ∀ slot < k, ∀ b, s.sinks[slot]? = some b →
    ∃ b', x.1.sinks[slot]? = some b' ∧ Pulled V (sites ops) b b'
  rest : ∀ slot, k ≤ slot → x.1.sinks[slot]? = s.sinks[slot]?

theorem Pulling.next {k : Nat} {x : Session × Machine} {b : Option Binding}
    (h : Pulling p ops V s m k x) (hk : s.sinks[k]? = some b) {b' : Option Binding}
    (hb : Pulled V (sites ops) b b') :
    Pulling p ops V s m (k + 1) ({ x.1 with sinks := x.1.sinks.set k b' }, x.2) where
  plan := h.plan
  sources := h.sources
  machine := h.machine
  count := by rw [List.length_set, h.count]
  done slot hslot c hc := by
    have hlt : k < x.1.sinks.length := h.count ▸ (List.getElem?_eq_some_iff.1 hk).1
    by_cases he : slot = k
    · subst he
      rw [hk, Option.some.injEq] at hc
      subst hc
      exact ⟨b', List.getElem?_set_self hlt, hb⟩
    · obtain ⟨c', hc', hpulled⟩ := h.done slot (by omega) c hc
      refine ⟨c', ?_, hpulled⟩
      change (x.1.sinks.set k b')[slot]? = some c'
      rw [List.getElem?_set_ne (Ne.symm he), hc']
  rest slot hslot := by
    change (x.1.sinks.set k b')[slot]? = _
    rw [List.getElem?_set_ne (by omega), h.rest slot (by omega)]

theorem pullOne_ends {W : CellId → Prop} {k : Nat} {x : Session × Machine}
    (hc : p.Compiled m₀ policy ops) (hready : AllReady p.builders m₁.memory)
    (hE : Holds p.builders E V) (hmem : Memory.Rewritten W m₁.memory m.memory)
    (hh : Healthy m₁ E n m) (hw : s.Wired p) (hk : k < s.sinks.length)
    (h : Pulling p ops V s m k x) :
    Ends (outcome (pullOne k) x) (fun _ y => Pulling p ops V s m (k + 1) y)
      (fun _ _ => False) := by
  obtain ⟨sx, mx⟩ := x
  obtain rfl : mx = m := h.machine
  have hslot : sx.sinks[k]? = some s.sinks[k] := by
    rw [h.rest k (Nat.le_refl k), List.getElem?_eq_getElem hk]
  have hold : s.sinks[k]? = some s.sinks[k] := List.getElem?_eq_getElem hk
  rw [pullOne, outcome_bind_of_ok (outcome_get _)]
  dsimp only
  rw [hslot]
  cases hb : s.sinks[k] with
  | none =>
    -- A slot that is not bound stays so.
    rw [hb] at hold hslot
    have hnone : Pulled V (sites ops) none none := fun c hc => by cases hc
    have hnext := h.next hold hnone
    have hsame : sx.sinks.set k none = sx.sinks := by
      obtain ⟨hlt, heq⟩ := List.getElem?_eq_some_iff.1 hslot
      rw [← heq]
      exact List.set_getElem_self hlt
    simp only [hsame] at hnext
    exact hnext
  | some b =>
    rw [hb] at hold
    obtain ⟨i, hi, hof⟩ := hw.sinks.getElem? hold
    obtain ⟨id, hsite⟩ := hc.output_site (List.mem_of_getElem? hi)
    obtain ⟨t, rest, htensors⟩ := hc.made.table.tensors_ne_nil hsite
    obtain ⟨id', hfirst, ht⟩ := hc.made.table.firstSite htensors
    have hplan : sx.plan = p := h.plan
    dsimp only
    rw [hplan, hof.operand, htensors]
    have hpull := pull_eq b hready ht hE hmem hh
    have hrun : outcome (onMachine (b.pull t)) (sx, mx)
        = (.ok (b.overwrite (V (id', i))), (sx, mx)) := by
      rw [onMachine_eq, hpull]
    dsimp only
    rw [outcome_bind_of_ok hrun]
    refine h.next hold fun c hc => ?_
    cases hc
    exact ⟨id', hof.operand.symm ▸ hfirst, by rw [hof.operand]⟩

/-- What a range splits off is the number of those before it. -/
theorem range_split {k a : Nat} {done rest : List Nat} (h : List.range k = done ++ a :: rest) :
    a = done.length ∧ a < k := by
  have ha : (List.range k)[done.length]? = some a := by
    rw [h, List.getElem?_append_right (Nat.le_refl _), Nat.sub_self]
    rfl
  obtain ⟨hlt, ha⟩ := List.getElem?_eq_some_iff.1 ha
  rw [List.getElem_range] at ha
  rw [List.length_range] at hlt
  exact ⟨ha.symm, ha ▸ hlt⟩

theorem pullAll_ends {W : CellId → Prop}
    (hc : p.Compiled m₀ policy ops) (hready : AllReady p.builders m₁.memory)
    (hE : Holds p.builders E V) (hmem : Memory.Rewritten W m₁.memory m.memory)
    (hh : Healthy m₁ E n m) (hw : s.Wired p) :
    Ends (outcome ((List.range s.sinks.length).forM pullOne) (s, m))
      (fun _ y => Pulling p ops V s m s.sinks.length y) (fun _ _ => False) := by
  have hloop : Ends (outcome ((List.range s.sinks.length).forM pullOne) (s, m))
      (fun _ y => Pulling p ops V s m (List.range s.sinks.length).length y)
      (fun _ _ => False) := Ends.forM
    (fun done y => Pulling p ops V s m done.length y) (fun done k rest y hl h => by
      obtain ⟨rfl, hk⟩ := range_split hl
      rw [List.length_append]
      exact pullOne_ends hc hready hE hmem hh hw hk h)
    ⟨hw.plan, rfl, rfl, rfl, fun slot hslot => absurd hslot (Nat.not_lt_zero slot), fun _ _ => rfl⟩
  simpa using hloop

/-! ## The run -/

/-- **A run** of a session on a compiled plan. One that fails leaves the session as it was, outputs
included. -/
theorem run_ends (hc : p.Compiled m₀ policy ops) (hk : p.Kept ops m.memory) (hw : s.Wired p)
    (hf : m.device.failure = none) :
    Ends (outcome Session.run (s, m)) (fun _ x => Ran p ops s m x.1 x.2)
      (fun e x => (∃ e', s.requireBound = .error e' ∧ e = .error e' ∧ x = (s, m)) ∨
        (Stopped (p.Touched ops) m e x.2 ∧ x.1 = s)) := by
  rw [run, outcome_bind_of_ok (outcome_get _)]
  refine Ends.bind (Ends.lift (fun _ hbound => ?_) fun e he => .inl ⟨e, he, rfl, rfl⟩)
  obtain ⟨hsources, -⟩ := requireBound_ok.1 hbound
  obtain ⟨cs, hcs⟩ := exists_bindings hsources
  have hbindings := slots_bindings (hcs ▸ hw.sources)
  have hgiven : p.model.given s.inputs = givenOf p.model p.model.inputs cs := by
    rw [Model.given, inputs_bindings hcs]
  obtain ⟨V, hfit, hholds, hV⟩ := hk.exists_words hc
  -- Pushing the inputs
  obtain ⟨m₁, E, hpush, hgoing, hsized, hpushed⟩ := pushAll_going
    (W := p.Touched ops) (D := ∃ b ∈ p.builders, b.place = .device) hc.made.table hc.made.apart
    hk.ready (fun b hb hp => ⟨b, hb, hp⟩) hbindings
    (fun i hi id t ht => .inr ⟨id, i, t, hi, ht, rfl⟩) (.start hf)
  rw [← pushAll_eq hw.plan hcs] at hpush
  refine Ends.bind ?_
  rw [onMachine_eq, hpush]
  -- Running the steps
  have hexecute := hc.made.execute_ends hk.ready (push_fit (givenOf_sized hbindings) hfit)
    (hpushed V hholds) (hsized fun _ => rfl) hgoing
  refine Ends.bind ?_
  rw [onMachine_eq, hw.plan]
  revert hexecute
  obtain ⟨r, m₂⟩ := outcome p.execute m₁
  cases r with
  | error e => exact fun hstop => .inr ⟨hstop, rfl⟩
  | ok u =>
    rintro ⟨hmem, E', hhealthy, hE'⟩
    rw [hc.final_eq hV fun i hi => (givenOf_isSome hbindings).2 hi, ← hgiven] at hE'
    -- Pulling the outputs
    refine Ends.bind ((pullAll_ends hc hk.ready hE' hmem hhealthy hw).mono (fun _ x hx => ?_)
      fun _ _ hfalse => hfalse.elim)
    obtain ⟨sx, mx⟩ := x
    obtain rfl : mx = m₂ := hx.machine
    refine ⟨hbound, hx.plan.trans hw.plan.symm, hx.sources, rfl, hmem, ⟨E', ?_⟩, hx.count,
      fun slot b hslot =>
      hx.done slot (List.getElem?_eq_some_iff.1 hslot).1 b hslot⟩
    rw [Nat.zero_add] at hhealthy
    exact hhealthy

section

variable {b : Binding} {sources : List (Option Binding)} {t : Tensor} {ts : List Tensor} {f : Feature}

/-- A first buffer that holds too little for a feature map on the device is read outside of it. No
session that was made on a compiled plan has one (`Binding.Of.size_values`). -/
theorem pushAll_short (hsource : s.sources = some b :: sources)
    (htensor : s.plan.tensors b.operand = t :: ts) (hplace : t.place = .device)
    (hshape : t.info.shape = f.dims) (hshort : b.values.length < f.elements) (m : Machine) :
    outcome s.pushAll m = (.error .outOfBounds, m) := by
  have hwrite : outcome (b.push t) m = (.error .outOfBounds, m) :=
    t.writeLogical_short hplace hshape (by simpa using hshort) m
  rw [pushAll, hsource, List.forM_eq_forM, List.forM_cons]
  refine outcome_bind_error.2 (.inl ?_)
  dsimp only
  rw [htensor, List.forM_eq_forM, List.forM_cons]
  exact outcome_bind_error.2 (.inl hwrite)

/-- **A run whose first buffer holds too little** ends there, whatever the machine. -/
theorem run_short (hbound : s.requireBound = .ok ()) (hsource : s.sources = some b :: sources)
    (htensor : s.plan.tensors b.operand = t :: ts) (hplace : t.place = .device)
    (hshape : t.info.shape = f.dims) (hshort : b.values.length < f.elements) (m : Machine) :
    outcome Session.run (s, m) = (.error .outOfBounds, (s, m)) := by
  rw [run, outcome_bind_of_ok (outcome_get _)]
  dsimp only
  rw [outcome_bind_of_ok (outcome_lift_of_ok hbound _)]
  refine outcome_bind_error.2 (.inl ?_)
  rw [onMachine_eq, pushAll_short hsource htensor hplace hshape hshort]

end

end Session

end HeteroNet
