import HeteroNet.Proofs.Plan.Raised
import HeteroNet.Proofs.Plan.Supported

/-
Every way out of a compilation, whatever calls made the model, whatever backends are registered, and
whatever the state of the device. A compilation gives a plan that has what sessions need; or it fails
with an error of compiling a model; or with one of three errors that are none (`Outside`), which come
from starting a backend, from the wait after the constants were sent, and from a backend whose parts do
not fit together. With the default backends there are none unless something is pending on the device
(`Outside.pending`).
-/

namespace HeteroNet

open Operation Model

/-- All parts of the backend go by its name, and its tensors lie where its stages need them. -/
def Backend.Uniform (b : Backend) : Prop :=
  b.tensors = b.stages ∧ b.stageName = b.id ∧ b.tensorName = b.id

instance (b : Backend) : Decidable b.Uniform :=
  inferInstanceAs (Decidable (b.tensors = b.stages ∧ b.stageName = b.id ∧ b.tensorName = b.id))

/-- Some registered backend is put together from parts that do not fit. -/
def Registry.Mixed (r : Registry) : Prop := ∃ id b, r.lookup id = .ok b ∧ ¬b.Uniform

/-- What a compilation can fail with, other than errors of compiling a model. -/
inductive Outside (s : Platform) : Error → Prop
  /-- A backend cannot be started. -/
  | start {id : BackendId} {b : Backend} {err : Error} : s.registry.lookup id = .ok b →
    (b.start s.machine).1 = .error (.error err) → Outside s err
  /-- The device had a failure to report, or a fault that was pending struck a command. -/
  | reported {text : String} : s.machine.device.failure = some text ∨ Injected s.machine text →
    Outside s (.execution (.backend Machine.deviceName text))
  /-- A tensor does not lie where a stage needs it. -/
  | misplaced {text : String} : s.registry.Mixed → Outside s (.internal text)

/-- What a compilation can fail with. -/
def Error.Compiling (s : Platform) (err : Error) : Prop := err.Early ∨ Outside s err

variable {s s₀ s' : Platform} {r : Registry} {id : BackendId} {b : Backend} {m : Machine}
  {cs : SortedMap BackendId Context} {c : Context} {policy : Policy}

theorem Error.IsVerdict.early {err : Error} (h : err.IsVerdict) : err.Early := by
  cases err with
  | graph | resolution => rfl
  | _ => exact h.elim

theorem Failure.IsVerdict.compiling {e : Failure} (h : e.IsVerdict) :
    e.Among (Error.Compiling s) := by
  rintro err rfl
  exact .inl (Error.IsVerdict.early h)

theorem Error.Making.compiling {err : Error} (h : err.Making s.registry.Mixed s.machine) :
    err.Compiling s := by
  obtain (hearly | ⟨hmixed, text, rfl⟩) | ⟨text, htext, rfl⟩ := h
  · exact .inl hearly
  · exact .inr (.misplaced hmixed)
  · exact .inr (.reported htext)

/-! ## Starting a backend -/

/-- A startup that fails does so with an error of running, and one that succeeds leaves the machine as
it is. -/
theorem Backend.runStartup_exits (b : Backend) (m : Machine) :
    Ends (outcome b.runStartup m) (fun _ m' => m' = m)
      (fun e _ => e.Among Error.Late) := by
  unfold Backend.runStartup
  split
  · exact rfl
  · rw [Machine.synchronize, outcome_bind_of_ok (outcome_get m)]
    cases m.device.failure with
    | none => exact rfl
    | some text => exact Failure.among_error rfl
  · split
    · exact Failure.among_error rfl
    · exact rfl

theorem Backend.start_exits (b : Backend) (m : Machine) :
    ((b.start m).1 = .ok () → (b.start m).2.2 = m) ∧
      ∀ e, (b.start m).1 = .error e → e.Among Error.Late := by
  have hrun := b.runStartup_exits m
  unfold Backend.start
  split
  · exact ⟨fun _ => rfl, fun _ h => by cases h⟩
  · rw [Task.on_eq]
    revert hrun
    obtain ⟨answer, m'⟩ := outcome b.runStartup m
    intro hrun
    cases answer with
    | ok u => exact ⟨fun _ => hrun, fun _ h => by cases h⟩
    | error e =>
      refine ⟨fun h => (by cases h), fun _ h => ?_⟩
      cases h
      exact hrun

theorem Outside.not_early {err : Error} (h : Outside s err) : err.isCompileTime = false := by
  cases h with
  | @start id b _ _ hstart => exact ((b.start_exits s.machine).2 _ hstart err rfl).not_early
  | reported => rfl
  | misplaced => rfl

/-- With the default backends the exceptions come from the device alone: it has a failure to report, or
a fault is pending. -/
theorem Outside.pending {err : Error} (h : Outside s err) (hdefault : s.registry.AllDefault) :
    s.machine.device.failure ≠ none ∨ s.machine.device.fault ≠ none := by
  have hmem : ∀ {id b}, s.registry.lookup id = .ok b → b.IsDefault :=
    fun hb => hdefault _ (Registry.lookup_ok hb).1
  cases h with
  | @start id b _ hb hstart =>
    refine .inl fun hnone => ?_
    obtain ⟨b', hok, -⟩ := (hmem hb).start_ok hnone
    rw [hok] at hstart
    cases hstart
  | reported hpending =>
    rcases hpending with hfailure | ⟨_, _, hfault, -⟩
    · exact .inl (hfailure ▸ Option.some_ne_none _)
    · exact .inr (hfault ▸ Option.some_ne_none _)
  | misplaced hmixed =>
    obtain ⟨id, b, hb, hmixed⟩ := hmixed
    obtain ⟨htensor, hstage, htensors, hstages, -⟩ := (hmem hb).parts
    exact absurd ⟨htensors.trans hstages.symm, hstage, htensor⟩ hmixed

/-- Registering a backend changes nothing under another name. -/
theorem Registry.lookup_add (r : Registry) (h : id ≠ b.id) : (r.add b).lookup id = r.lookup id := by
  have hfind : (r.add b).find? (·.id == id) = r.find? (·.id == id) := by
    unfold Registry.add
    split
    · rw [Registry.find?_replace]
      cases hold : r.find? (·.id == id) with
      | none => rfl
      | some old =>
        have hid : old.id = id := eq_of_beq (List.find?_some hold :)
        rw [Option.map_some, if_neg (by simpa [hid] using h)]
    · rw [List.find?_append, List.find?_cons_of_neg (by simpa using Ne.symm h), List.find?_nil,
        Option.or_none]
  rw [Registry.lookup, Registry.lookup, hfind]

theorem start_raises (hm : s.machine = s₀.machine)
    (hid : s.registry.lookup id = s₀.registry.lookup id) :
    Ends (outcome (Platform.start id) s)
      (fun b s' => s'.machine = s₀.machine ∧
        (∃ b₀, s₀.registry.lookup id = .ok b₀ ∧ b.unstarted = b₀.unstarted) ∧
        ∀ id', id' ≠ id → s'.registry.lookup id' = s.registry.lookup id')
      (fun e _ => e.Among (Error.Compiling s₀)) := by
  rw [Platform.start, outcome_bind_of_ok (outcome_get s)]
  refine Ends.bind (Ends.lift (fun b₀ hb₀ => ?_) fun e he =>
    Failure.IsVerdict.compiling (judges_lookup e he))
  have hname : b₀.id = id := (Registry.lookup_ok hb₀).2
  have hlookup := hid.symm.trans hb₀
  have hsame := b₀.start_unstarted s.machine
  have hok := (b₀.start_exits s.machine).1
  have herror : ∀ err, (b₀.start s.machine).1 = .error (.error err) → Outside s₀ err :=
    fun err he => .start hlookup (hm ▸ he)
  revert hsame hok herror
  obtain ⟨answer, b, m⟩ := b₀.start s.machine
  intro hsame hok herror
  cases answer with
  | error e =>
    rintro err rfl
    exact .inr (herror err rfl)
  | ok u =>
    refine ⟨(hok rfl).trans hm, ⟨b₀, hlookup, hsame⟩, fun id' hne => Registry.lookup_add _ ?_⟩
    have hid' : b.id = b₀.id := congrArg (·.id) hsame
    rwa [hid', hname]

/-! ## Contexts -/

/-- A context of the backend, in which tensors were marked and nothing else was done. -/
structure Context.Of (c : Context) (b : Backend) : Prop where
  backend : c.backend.unstarted = b.unstarted
  named : c.builder.backend = b.tensorName
  placed : c.builder.place = b.tensors
  marked : Marked c.builder

/-- While tensors are marked on `s₀`: the machine is as it was, so are the backends that have no
context yet, and each context is one of a registered backend. -/
structure Opened (s₀ : Platform) (cs : SortedMap BackendId Context) (s : Platform) : Prop where
  machine : s.machine = s₀.machine
  closed : ∀ id, cs.find? id = none → s.registry.lookup id = s₀.registry.lookup id
  context : ∀ {id c}, (id, c) ∈ cs → ∃ b, s₀.registry.lookup id = .ok b ∧ c.Of b

theorem Context.Of.mark (h : c.Of b) (i : OperandId) :
    ∃ builder, c.builder.mark i = .ok builder ∧ Context.Of { c with builder } b := by
  obtain ⟨builder, hmark, hname, hplace, -, hmarked⟩ := h.marked.mark i
  exact ⟨builder, hmark, h.backend, hname.trans h.named, hplace.trans h.placed, hmarked⟩

theorem markTensor_raises (h : Opened s₀ cs s) (site : Site) :
    Ends (outcome (markTensor cs site) s) (Opened s₀)
      fun e _ => e.Among (Error.Compiling s₀) := by
  obtain ⟨id, i⟩ := site
  have hrest : ∀ {c : Context} {b s'}, s₀.registry.lookup id = .ok b → c.Of b → s'.machine = s₀.machine →
      (∀ id', id' ≠ id → s'.registry.lookup id' = s.registry.lookup id') →
      Ends (outcome (do
        let builder ← c.builder.mark i
        return cs.insert id { c with builder } : PlatformTask (SortedMap BackendId Context)) s')
        (Opened s₀) fun e _ => e.Among (Error.Compiling s₀) := by
    intro c b s' hb hc hmachine hothers
    obtain ⟨builder, hmark, hof⟩ := hc.mark i
    refine Ends.bind ?_
    rw [outcome_check, hmark]
    refine ⟨hmachine, fun id' hnone => ?_, fun {id' c'} hmem => ?_⟩
    · have hne : id' ≠ id := by
        rintro rfl
        rw [SortedMap.find?_insert_self] at hnone
        cases hnone
      rw [SortedMap.find?_insert_other _ _ hne] at hnone
      exact (hothers id' hne).trans (h.closed id' hnone)
    · rcases SortedMap.mem_insert hmem with he | hmem
      · cases he
        exact ⟨b, hb, hof⟩
      · exact h.context hmem
  unfold markTensor
  dsimp only
  cases hfind : cs.find? id with
  | some c =>
    obtain ⟨b, hb, hc⟩ := h.context (SortedMap.find?_mem hfind)
    exact hrest hb hc h.machine fun _ _ => rfl
  | none =>
    refine Ends.bind (Ends.bind ((start_raises h.machine (h.closed id hfind)).mono
      (fun b s' hb => ?_) fun _ _ he => he))
    obtain ⟨hmachine, ⟨b₀, hb₀, hsame⟩, hothers⟩ := hb
    have hof : (Context.new b).Of b₀ :=
      ⟨hsame, congrArg (·.tensorName) hsame, congrArg (·.tensors) hsame, rfl, rfl, rfl⟩
    exact hrest hb₀ hof hmachine hothers

theorem markAll_raises (s : Platform) (marks : List Site) :
    Ends (outcome (marks.foldlM markTensor []) s) (Opened s)
      fun e _ => e.Among (Error.Compiling s) :=
  Ends.foldlM (fun _ cs s' => Opened s cs s') (fun _ site _ _ _ _ h => markTensor_raises h site)
    ⟨rfl, fun _ _ => rfl, fun hmem => by cases hmem⟩

/-! ## Compilations -/

/-- The stage of an operation needs tensors on the side that the backend was asked for. -/
theorem generate_seat {place : Place} {op : Operation} {os : Operands} {stage : Stage}
    (h : Stage.generate place id op os = .ok stage) :
    stage.seat? = some (id, place) ∨ stage.seat? = none := by
  cases generate_generated h with
  | kernel _ h =>
    obtain ⟨o, -, h⟩ := bind_eq_ok.1 h
    cases place <;> cases h <;> exact .inl rfl
  | dense _ hplace => exact .inl (hplace ▸ rfl)
  | permute => exact .inr rfl

/-- Unless some backend is mixed, the builders that a stage takes tensors from keep them where it
needs them. -/
theorem Opened.seats {os : Operands} {ops : List (Operation × Placement)} {d : PlanDraft}
    (h : Opened s₀ cs s) (hd : Drafted os cs ops d) : ∀ stage ∈ d.stages, ∀ id place,
      stage.seat? = some (id, place) → ∀ b ∈ cs.map fun (_, c) => c.builder, b.backend = id →
      b.place = place ∨ s₀.registry.Mixed := by
  intro stage hstage id place hseat builder hbuilder hid
  obtain ⟨⟨id₁, c₁⟩, hmem₁, rfl⟩ := List.mem_map.1 hbuilder
  obtain ⟨b₁, hb₁, hof₁⟩ := h.context hmem₁
  obtain ⟨q, -, -, c, _, _, hfind, -, hgenerate⟩ := (mem_of_forall₂ hd.stages).1 stage hstage
  obtain ⟨b, hb, hof⟩ := h.context (SortedMap.find?_mem hfind)
  by_cases huniform : b.Uniform ∧ b₁.Uniform
  · obtain ⟨⟨hside, hstages, -⟩, -, -, htensors⟩ := huniform
    have hstagename : c.backend.stageName = b.stageName := congrArg (·.stageName) hof.backend
    have hplace : c.backend.stages = b.stages := congrArg (·.stages) hof.backend
    rcases generate_seat hgenerate with hgenerated | hnone
    · rw [hgenerated, Option.some.injEq, Prod.mk.injEq] at hseat
      obtain ⟨rfl, rfl⟩ := hseat
      -- Both are the backend of the one name.
      have hname : b₁.id = b.id := by
        rw [← htensors, ← hof₁.named, hid, hstagename, hstages]
      rw [(Registry.lookup_ok hb₁).2, (Registry.lookup_ok hb).2] at hname
      rw [hname, hb] at hb₁
      cases hb₁
      exact .inl (hof₁.placed.trans (hside.trans hplace.symm))
    · rw [hnone] at hseat
      cases hseat
  · rcases not_and_or.1 huniform with hmixed | hmixed
    · exact .inr ⟨_, b, hb, hmixed⟩
    · exact .inr ⟨_, b₁, hb₁, hmixed⟩

/-- What was drafted for a lowered model is enough to make the plan. -/
theorem plannable {m₀ m sm m' : Model} {ps : List Placement} {copies : Copies}
    {order : List OperationId} {ops : List (Operation × Placement)} {d : PlanDraft}
    (hlow : Lowering m₀ m ps copies sm m') (horder : m'.linearize = .ok order)
    (hops : m'.placedOperations order = .ok ops) (hmarking : Marking (sites ops) cs)
    (hopened : Opened s₀ cs s) (hd : Drafted m'.operands cs ops d) :
    Plannable s₀.registry.Mixed m' d (cs.map fun (_, c) => c.builder) where
  marked b hb := by
    obtain ⟨⟨id, c⟩, hmem, rfl⟩ := List.mem_map.1 hb
    obtain ⟨b, -, hof⟩ := hopened.context hmem
    exact hof.marked
  constraints b hb i hi := by
    obtain ⟨⟨id, c⟩, hmem, rfl⟩ := List.mem_map.1 hb
    obtain ⟨q, hq, hi⟩ := mem_sites ((hmarking.marked hmem i).1 hi)
    obtain ⟨info, hinfo⟩ := Option.isSome_iff_exists.1 (hd.constraint q hq i hi)
    obtain ⟨o, ho, rfl⟩ := hd.fits.constraint hinfo
    exact ⟨o, ho, hinfo⟩
  sized := hlow.lowConstants
  suits := hd.fits.suits
  seats := hopened.seats hd
  known _ := hlow.lowChecked.given
  pulled i hi := by
    obtain ⟨-, -, hall⟩ := linearize_ok hlow.lowLinked hlow.lowChecked horder
    obtain ⟨id, hsite⟩ :=
      hlow.output_site (fun hop => exists_placed hall (placedOperations_ok.1 hops) hop) hi
    obtain ⟨c, hmem⟩ := hmarking.all hsite
    exact ⟨c.builder, List.mem_map.2 ⟨_, hmem, rfl⟩, (hmarking.marked hmem i).2 hsite⟩

/-- **What accepting a model leaves**, whatever the backends. -/
theorem accept_raises (calls : List Call) (policy : Policy) (s : Platform) :
    Ends (outcome (accept (ofCalls calls) policy) s)
      (fun a s' => s'.machine = s.machine ∧ Plannable s.registry.Mixed a.1 a.2.1 a.2.2 ∧
        ∀ b ∈ a.2.2, ∀ i ∈ b.marked, Initialized a.1.operands a.2.1 i)
      fun e _ => e.Among (Error.Compiling s) := by
  have hdecides : ∀ {α : Type} {x : Except Error α}, Judges x → ∀ e, x = .error e →
      (Failure.error e).Among (Error.Compiling s) :=
    fun hx e he => Failure.IsVerdict.compiling (hx e he)
  rw [accept, outcome_bind_of_ok (outcome_get s)]
  refine Ends.bind (Ends.lift (fun m' hplaced => ?_)
    (hdecides (judges_placeModel (built_or_lowered calls))))
  refine Ends.bind (Ends.lift (fun order horder => ?_) (hdecides judges_linearize))
  refine Ends.bind (Ends.lift (fun marks hmarks => ?_) (hdecides (judges_tensorMarks order)))
  refine Ends.bind (((markAll_raises s marks).and (markAll_marks marks)).mono
    (fun cs s' hcs => ?_) fun _ _ he => he.1)
  obtain ⟨hopened, hmarking⟩ := hcs
  refine Ends.bind (Ends.check (fun d hd => ?_) fun e he =>
    (decides_draftPlan m' cs order e he).compiling)
  obtain ⟨ops, hops, hdrafted⟩ := draftPlan_drafted hd
  rw [tensorMarks_eq hops] at hmarks
  cases hmarks
  rcases built_or_lowered calls with hbuilt | hlowered
  · obtain ⟨m, ps, copies, sm, -, hlow⟩ := placeModel_ok hbuilt hplaced
    refine ⟨hopened.machine, plannable hlow horder hops hmarking hopened hdrafted,
      fun b hb i hi => ?_⟩
    obtain ⟨⟨id, c⟩, hmem, rfl⟩ := List.mem_map.1 hb
    exact fun o => supplied_of_draft hlow.lowChecked hops hdrafted id i o
      ((hmarking.marked hmem i).1 hi)
  · exact absurd hplaced (placeModel_lowered hlowered m')

/-- **Every way out of a compilation.** -/
theorem compile_raises (calls : List Call) (policy : Policy) (s : Platform) :
    Ends (outcome (compile (ofCalls calls) policy) s) (fun p s' => p.Equipped s'.machine)
      fun e _ => e.Among (Error.Compiling s) := by
  rw [compile_eq]
  refine Ends.bind ((accept_raises calls policy s).mono (fun a s' ha => ?_) fun _ _ he => he)
  obtain ⟨hmachine, hplannable, -⟩ := ha
  refine Platform.onMachine_ends ((finalize_raises hplannable s'.machine).mono
    (fun _ _ hp => hp) fun e m he => ?_)
  rw [hmachine] at he
  exact he.mono fun _ => Error.Making.compiling

end HeteroNet
