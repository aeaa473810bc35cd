import HeteroNet.Proofs.Machine.Queue
import HeteroNet.Proofs.Plan.Finalized
import HeteroNet.Proofs.Plan.Owned
import HeteroNet.Proofs.World.Lasting

/-
What making a plan can fail with, whatever backends it is made for and whatever state the device is
in. Preparing, allocating and the lookups of the stages fail with errors of compiling a model, but for
one: a tensor may lie on the side where the stage cannot use it (`Mixed`). Filling the constants never
fails by itself, but it sends commands, so that the wait at its end reports what the device had to
report already, or the fault that was pending (`Error.Making`).

A plan that is made has what sessions need (`Plan.Equipped`).
-/

namespace HeteroNet

open Model

/-- If the call failed with an error, it is one of these. -/
def Failure.Among (P : Error → Prop) (e : Failure) : Prop := ∀ err, e = .error err → P err

theorem Failure.Among.mono {P Q : Error → Prop} {e : Failure} (h : e.Among P)
    (hPQ : ∀ err, P err → Q err) : e.Among Q := fun err he => hPQ err (h err he)

theorem Failure.among_error {P : Error → Prop} {err : Error} (h : P err) :
    (Failure.error err).Among P := fun _ he => by
  cases he
  exact h

namespace Error

/-- An error of compiling a model. -/
def Early (err : Error) : Prop := err.isCompileTime = true

/-- An error of running a plan. -/
def Late (err : Error) : Prop := err.isRecoverable = true

theorem Early.not_late {err : Error} (h : err.Early) : err.isRecoverable = false := by
  cases err with
  | execution => cases h
  | _ => rfl

theorem Late.not_early {err : Error} (h : err.Late) : err.isCompileTime = false := by
  cases err with
  | execution => rfl
  | _ => cases h

/-- What binding the stages to tensors can fail with. -/
def Binding (Mixed : Prop) (err : Error) : Prop :=
  err.Early ∨ Mixed ∧ ∃ text, err = .internal text

/-- What making a plan can fail with. -/
def Making (Mixed : Prop) (m₀ : Machine) (err : Error) : Prop :=
  err.Binding Mixed ∨ ∃ text, (m₀.device.failure = some text ∨ Injected m₀ text) ∧
    err = .execution (.backend Machine.deviceName text)

end Error

theorem Lacking.early {m₀ : Machine} {needs : Nat → Prop} {e : Failure} (h : Lacking m₀ needs e) :
    e.Among Error.Early := by
  rcases h with ⟨⟨requested, available, rfl⟩, -⟩ | ⟨rfl, -⟩
  · exact Failure.among_error rfl
  · exact nofun

/-- The tensors of operands. -/
def operandTensors (bs : List TensorBuilder) : List Tensor := (entries bs).map Prod.snd

variable {Mixed : Prop} {m₀ m₁ m m' : Machine} {bs bs₀ : List TensorBuilder} {a : Assembly}
  {id : BackendId} {i : OperandId} {os : Operands} {t : Tensor}

theorem mem_operandTensors : t ∈ operandTensors bs ↔ ∃ b ∈ bs, ∃ i, (i, t) ∈ b.tensors := by
  constructor
  · intro ht
    obtain ⟨e, he, rfl⟩ := List.mem_map.1 ht
    obtain ⟨b, hb, he⟩ := List.mem_flatMap.1 he
    obtain ⟨⟨i, t⟩, hmem, rfl⟩ := List.mem_map.1 he
    exact ⟨b, hb, i, hmem⟩
  · rintro ⟨b, hb, i, ht⟩
    exact List.mem_map.2
      ⟨((b.backend, i), t), List.mem_flatMap.2 ⟨b, hb, List.mem_map.2 ⟨_, ht, rfl⟩⟩, rfl⟩

/-! ## Stages -/

/-- The side where a stage needs the tensors of its backend. -/
def Stage.seat? : Stage → Option (BackendId × Place)
  | .host backend .. => some (backend, .host)
  | .device backend .. => some (backend, .device)
  | .permute .. => none

/-- Builders of that name keep their tensors there. -/
def Seated (Mixed : Prop) (bs : List TensorBuilder) (id : BackendId) (place : Place) : Prop :=
  ∀ b ∈ bs, b.backend = id → b.place = place ∨ Mixed

/-- Tensors lie where their builders keep them. -/
def Housed (bs : List TensorBuilder) : Prop :=
  ∀ b ∈ bs, ∀ {i t}, (i, t) ∈ b.tensors → t.place = b.place

/-- While stages are bound: builders only get scratch tensors, memory only grows, and what is copied
between backends are tensors of operands. -/
structure Staging (bs₀ : List TensorBuilder) (m₁ : Machine) (a : Assembly) : Prop where
  frames : a.builders.map TensorBuilder.frame = bs₀.map TensorBuilder.frame
  grown : Grown m₁ a.machine
  permutes : ∀ {label s t}, .permute label s t ∈ a.runnables →
    s ∈ operandTensors bs₀ ∧ t ∈ operandTensors bs₀

theorem Grown.refl (m : Machine) : Grown m m := (Laid.nil m).toGrown

theorem Grown.trans (h : Grown m₀ m) (h' : Grown m m') : Grown m₀ m' where
  length := h.length.trans h'.length
  old c hc := (h'.old c (Nat.lt_of_lt_of_le hc h.length)).trans (h.old c hc)
  whole c hc := by
    by_cases hlt : c < m.memory.length
    · rw [h'.old c hlt]
      exact h.whole c hc
    · exact h'.whole c (Nat.not_lt.1 hlt)
  failure := h'.failure.trans h.failure
  fault := h'.fault.trans h.fault
  limit := h'.limit.trans h.limit

/-- Before any stage is bound. -/
theorem Staging.start {bs₁ : List TensorBuilder}
    (h : Assembling m₀ bs₀ { builders := bs₁, machine := m₁ }) :
    Staging bs₀ m₁ { builders := bs₁, machine := m₁ } :=
  ⟨h.frames, .refl m₁, fun hmem => by cases hmem⟩

theorem Staging.append (h : Staging bs₀ m₁ a) {rs : List Runnable} {r : Runnable}
    (hrs : rs = a.runnables ++ [r])
    (hr : ∀ {label s t}, r = .permute label s t →
      s ∈ operandTensors bs₀ ∧ t ∈ operandTensors bs₀) :
    Staging bs₀ m₁ { a with runnables := rs } := by
  subst hrs
  refine ⟨h.frames, h.grown, fun {label s t} hmem => ?_⟩
  rcases List.mem_append.1 hmem with hmem | hmem
  · exact h.permutes hmem
  · exact hr (List.mem_singleton.1 hmem).symm

namespace Assembly

/-- A stage finds the tensor of an operand, or the operand is not bound. -/
theorem tensor_raises (h : Staging bs₀ m₁ a) (id : BackendId) (i : OperandId) :
    Ends (outcome (tensor id i) a)
      (fun t a' => a' = a ∧ ∃ b ∈ bs₀, b.backend = id ∧ (i, t) ∈ b.tensors)
      (fun e _ => e.Among Error.Early) := by
  rw [tensor, outcome_bind_of_ok (outcome_get a)]
  have hunbound : Failure.Among Error.Early (.error (.allocation (.unboundOperand id i))) :=
    Failure.among_error rfl
  split
  · rename_i b hfind
    obtain ⟨b₀, hb₀, hid, -, -, htensors⟩ :=
      exists_frame h.frames (List.mem_of_find?_eq_some hfind)
    have hname : b.backend = id := eq_of_beq (List.find?_some hfind :)
    unfold TensorBuilder.tensor
    split
    · rename_i t ht
      exact ⟨rfl, b₀, hb₀, hid ▸ hname, htensors ▸ SortedMap.find?_mem ht⟩
    · exact hname ▸ hunbound
  · exact hunbound

theorem hostCell_raises (h : Staging bs₀ m₁ a) (hhoused : Housed bs₀)
    (hseat : Seated Mixed bs₀ id .host) (i : OperandId) :
    Ends (outcome (hostCell id i) a) (fun _ a' => a' = a) fun e _ => e.Among (Error.Binding Mixed) := by
  refine Ends.bind ((tensor_raises h id i).mono (fun t a' ht => ?_)
    fun _ _ he => he.mono fun _ => .inl)
  obtain ⟨rfl, b, hb, hid, hmem⟩ := ht
  dsimp only
  split
  · rename_i hplace
    refine Failure.among_error (.inr ⟨(hseat b hb hid).resolve_left fun hhost => ?_, _, rfl⟩)
    exact hplace ((hhoused b hb hmem).trans hhost)
  · exact rfl

theorem deviceCellOf_raises (ht : t.place = .device ∨ Mixed) :
    Ends (outcome (deviceCellOf t) a) (fun _ a' => a' = a)
      fun e _ => e.Among (Error.Binding Mixed) := by
  unfold deviceCellOf
  split
  · rename_i hplace
    exact Failure.among_error (.inr ⟨ht.resolve_left hplace, _, rfl⟩)
  · refine Ends.bind (onMachine_ends ?_)
    rw [outcome_requireReserved]
    split
    · exact Failure.among_error (.inl rfl)
    · exact rfl

theorem deviceCell_raises (h : Staging bs₀ m₁ a) (hhoused : Housed bs₀)
    (hseat : Seated Mixed bs₀ id .device) (i : OperandId) :
    Ends (outcome (deviceCell id i) a) (fun _ a' => a' = a)
      fun e _ => e.Among (Error.Binding Mixed) := by
  refine Ends.bind ((tensor_raises h id i).mono (fun t a' ht => ?_)
    fun _ _ he => he.mono fun _ => .inl)
  obtain ⟨rfl, b, hb, hid, hmem⟩ := ht
  exact deviceCellOf_raises ((hseat b hb hid).imp_left (hhoused b hb hmem).trans)

/-- Looking up one cell after another. -/
theorem mapM_raises {f : OperandId → Assemble CellId} {P : Error → Prop}
    (hf : ∀ i, Ends (outcome (f i) a) (fun _ a' => a' = a) fun e _ => e.Among P)
    (is : List OperandId) :
    Ends (outcome (is.mapM f) a) (fun _ a' => a' = a) fun e _ => e.Among P :=
  Ends.mapM (fun _ _ a' => a' = a) (fun _ _ i _ _ _ ha => ha ▸ hf i) rfl

theorem addScratch_raises (b : TensorBuilder) (info : TensorInfo) (m : Machine) :
    Ends (outcome (b.addScratch info) m)
      (fun r m' => r.1.frame = b.frame ∧ r.2.place = b.place ∧ Grown m m')
      (fun e _ => e.Among Error.Early) := by
  by_cases hphase : b.phase = .allocated
  · refine (addScratch_laid hphase info (.nil m)).mono (fun r m' hr => ?_)
      fun e m' he => he.1.early
    exact ⟨hr.1, hr.2.2.2.1, hr.2.2.2.2.2.1.toGrown⟩
  · unfold TensorBuilder.addScratch
    rw [if_pos hphase]
    exact Failure.among_error rfl

theorem addScratchTo_raises (id : BackendId) (info : TensorInfo) :
    ∀ (bs : List TensorBuilder) (m : Machine), Ends (outcome (addScratchTo id info bs) m)
      (fun r m' => r.1.map TensorBuilder.frame = bs.map TensorBuilder.frame ∧
        (∃ b ∈ bs, b.backend = id ∧ r.2.place = b.place) ∧ Grown m m')
      (fun e _ => e.Among Error.Early)
  | [], _ => Failure.among_error rfl
  | b :: bs, m => by
    unfold addScratchTo
    split
    · rename_i hid
      refine Ends.bind ((addScratch_raises b info m).mono (fun r m' hr => ?_) fun _ _ he => he)
      obtain ⟨hframe, hplace, hgrown⟩ := hr
      exact ⟨congrArg₂ List.cons hframe rfl, ⟨b, by simp, eq_of_beq hid, hplace⟩, hgrown⟩
    · refine Ends.bind ((addScratchTo_raises id info bs m).mono (fun r m' hr => ?_)
        fun _ _ he => he)
      obtain ⟨hframes, ⟨b', hb', hid, hplace⟩, hgrown⟩ := hr
      exact ⟨congrArg₂ List.cons rfl hframes, ⟨b', List.mem_cons_of_mem _ hb', hid, hplace⟩, hgrown⟩

theorem scratch_raises (h : Staging bs₀ m₁ a) (hseat : Seated Mixed bs₀ id .device)
    (info : TensorInfo) : Ends (outcome (scratch id info) a)
      (fun t a' => Staging bs₀ m₁ a' ∧ (t.place = .device ∨ Mixed))
      (fun e _ => e.Among Error.Early) := by
  rw [scratch, outcome_bind_of_ok (outcome_get a)]
  refine Ends.bind (onMachine_ends ((addScratchTo_raises id info a.builders a.machine).mono
    (fun r m' hr => ?_) fun _ _ he => he))
  obtain ⟨hframes, ⟨b, hb, hid, hplace⟩, hgrown⟩ := hr
  obtain ⟨b₀, hb₀, hid₀, hplace₀, -⟩ := exists_frame h.frames hb
  refine ⟨⟨hframes.trans h.frames, h.grown.trans hgrown, h.permutes⟩, ?_⟩
  exact (hseat b₀ hb₀ (hid₀ ▸ hid)).imp_left (hplace.trans hplace₀).trans

end Assembly

open Assembly in
/-- **Binding one stage.** -/
theorem apply_raises (h : Staging bs₀ m₁ a) (hhoused : Housed bs₀) {s : Stage}
    (hseat : ∀ id place, s.seat? = some (id, place) → Seated Mixed bs₀ id place) :
    Ends (outcome s.apply a) (fun _ a' => Staging bs₀ m₁ a')
      fun e _ => e.Among (Error.Binding Mixed) := by
  cases s with
  | host backend k ins out =>
    have hside := hseat _ _ rfl
    refine Ends.bind ((mapM_raises (hostCell_raises h hhoused hside) ins).mono ?_ fun _ _ he => he)
    rintro cells _ rfl
    refine Ends.bind ((hostCell_raises h hhoused hside out).mono ?_ fun _ _ he => he)
    rintro cell _ rfl
    exact h.append rfl fun he => by cases he
  | device backend k act ins out fl =>
    have hside := hseat _ _ rfl
    have hdevice : ∀ {a label k ins out}, Staging bs₀ m₁ a →
        Ends (outcome (Assembly.append (.device label k ins out)) a)
          (fun _ a' => Staging bs₀ m₁ a') fun e _ => e.Among (Error.Binding Mixed) :=
      fun h => h.append rfl fun he => by cases he
    have hflatten : ∀ cells, Ends (outcome (Stage.applyFlatten backend fl ins cells) a)
        (fun _ a' => Staging bs₀ m₁ a') fun e _ => e.Among (Error.Binding Mixed) := by
      intro cells
      unfold Stage.applyFlatten
      split
      · refine Ends.bind ((scratch_raises h hside _).mono (fun t a₁ h₁ => ?_)
          fun _ _ he => he.mono fun _ => .inl)
        refine Ends.bind ((deviceCellOf_raises h₁.2).mono ?_ fun _ _ he => he)
        rintro c _ rfl
        exact Ends.bind ((hdevice h₁.1).mono (fun _ _ h₂ => h₂) fun _ _ he => he)
      · exact h
    refine Ends.bind ((deviceCell_raises h hhoused hside out).mono ?_ fun _ _ he => he)
    rintro cell _ rfl
    refine Ends.bind ((mapM_raises (deviceCell_raises h hhoused hside) ins).mono ?_ fun _ _ he => he)
    rintro cells _ rfl
    refine Ends.bind ((hflatten cells).mono (fun cells' a₁ h₁ => ?_) fun _ _ he => he)
    refine Ends.bind ((hdevice h₁).mono (fun _ a₂ h₂ => ?_) fun _ _ he => he)
    split
    · exact hdevice h₂
    · exact h₂
  | permute x o source target =>
    refine Ends.bind ((tensor_raises h source x).mono ?_ fun _ _ he => he.mono fun _ => .inl)
    rintro src _ ⟨rfl, b, hb, -, hsrc⟩
    refine Ends.bind ((tensor_raises h target o).mono ?_ fun _ _ he => he.mono fun _ => .inl)
    rintro dst _ ⟨rfl, b', hb', -, hdst⟩
    refine h.append rfl fun he => ?_
    cases he
    exact ⟨mem_operandTensors.2 ⟨b, hb, x, hsrc⟩, mem_operandTensors.2 ⟨b', hb', o, hdst⟩⟩

theorem applyAll_raises (h : Staging bs₀ m₁ a) (hhoused : Housed bs₀) {stages : List Stage}
    (hseats : ∀ s ∈ stages, ∀ id place, s.seat? = some (id, place) → Seated Mixed bs₀ id place) :
    Ends (outcome (stages.forM Stage.apply) a) (fun _ a' => Staging bs₀ m₁ a')
      fun e _ => e.Among (Error.Binding Mixed) :=
  Ends.forM (fun _ a' => Staging bs₀ m₁ a')
    (fun _ s _ _ hl h' => apply_raises h' hhoused (hseats s (by simp [hl]))) h

/-! ## Constants -/

/-- While constants are filled from `m₀` on: words are replaced, and the device has nothing to report
but what it had to, or the fault that was pending. -/
structure Uploading (m₀ m : Machine) : Prop where
  memory : Memory.Rewritten (fun _ => True) m₀.memory m.memory
  latch : (m.device.failure = m₀.device.failure ∧ m.device.fault = m₀.device.fault) ∨
    ∃ text, m.device.failure = some text ∧ Injected m₀ text

namespace Uploading

theorem start (m : Machine) : Uploading m m := ⟨.refl, .inl ⟨rfl, rfl⟩⟩

/-- What the device has to report. -/
theorem reported (h : Uploading m₀ m) {text : String} (hf : m.device.failure = some text) :
    m₀.device.failure = some text ∨ Injected m₀ text := by
  rcases h.latch with ⟨hfailure, -⟩ | ⟨text', hf', hinjected⟩
  · exact .inl (hfailure.symm.trans hf)
  · rw [hf, Option.some.injEq] at hf'
    exact .inr (hf' ▸ hinjected)

/-- A command that would succeed is run, is skipped, or meets the fault. -/
theorem submit (h : Uploading m₀ m) {c : Command}
    (hrun : ∃ mem, c.run m.memory = (mem, .ok ()) ∧
      Memory.Rewritten (fun _ => True) m.memory mem) : Uploading m₀ (m.process c) := by
  obtain ⟨mem, hrun, hmem⟩ := hrun
  unfold Machine.process
  split
  · rename_i text _ hfailure _
    exact ⟨h.memory, h.latch⟩
  · rename_i reason hfailure hfault
    refine ⟨h.memory, .inr ⟨_, rfl, c.label, reason, ?_, rfl⟩⟩
    rcases h.latch with ⟨-, hsame⟩ | ⟨text, hf, -⟩
    · rw [← hsame, hfault]
    · rw [hfailure] at hf
      cases hf
  · rw [hrun]
    exact ⟨h.memory.trans hmem, h.latch⟩

/-- Writing a tensor that has memory, with as many words as it has, does not fail. -/
theorem write (h : Uploading m₀ m) (ht : t.Ready m₀.memory) {words : Buffer}
    (hw : words.size = t.info.elements) :
    ∃ m', outcome (t.write words) m = (.ok (), m') ∧ Uploading m₀ m' := by
  have hready := ht.rewritten h.memory
  have hstore := hready.store (W := fun _ => True) trivial hw
  refine ⟨_, Tensor.write_ready hready hw, ?_⟩
  cases t.place with
  | host => exact ⟨h.memory.trans hstore, h.latch⟩
  | device => exact h.submit ⟨_, hready.upload words, hstore⟩

end Uploading

/-- **Filling the constants does not fail by itself.** -/
theorem fillConstants_uploading {p : Plan} {inits : SortedMap OperandId Initializer}
    (hc : ConstantsSized os) (hsuits : ∀ {i init}, (i, init) ∈ inits → Suits os i init)
    (htensors : ∀ {i t}, t ∈ p.tensors i → t.Ready m₀.memory ∧
      ∃ o, os[i]? = some o ∧ t.info = ⟨o.shape, o.type⟩) :
    ∃ m, outcome (p.fillConstants inits) m₀ = (.ok (), m) ∧ Uploading m₀ m := by
  have hall : Ends (outcome (p.fillConstants inits) m₀) (fun _ m => Uploading m₀ m)
      fun _ _ => False := by
    unfold Plan.fillConstants
    refine Ends.forM (fun _ m => Uploading m₀ m) (fun _ e _ m hl h => ?_) (.start m₀)
    obtain ⟨i, init⟩ := e
    refine Ends.forM (fun _ m => Uploading m₀ m) (fun _ t _ m hl' h => ?_) h
    obtain ⟨hready, o, ho, hinfo⟩ := htensors (i := i) (t := t) (by simp [hl'])
    have hinit : Suits os i init := hsuits (by simp [hl])
    obtain ⟨y, hy, hfill⟩ := fill_writes (s := ("", i)) hc ho hinfo hinit
    obtain ⟨m', hwrite, hm'⟩ := h.write hready hy.size
    rw [hfill, hwrite]
    exact hm'
  obtain ⟨⟨⟩, m, hrun, hm⟩ := hall.exists_ok
  exact ⟨m, hrun, hm⟩

/-! ## Plans -/

/-- What sessions need of a plan: its tensors have memory, its copies between backends are of tensors
of operands, and every input and output is an operand, with a tensor if it is an output. -/
structure Plan.Equipped (p : Plan) (m : Machine) : Prop where
  reserved : ∀ t ∈ operandTensors p.builders, (m.memory.cell t.cell).reserved = true
  permutes : ∀ {label s t}, .permute label s t ∈ p.runnables →
    s ∈ operandTensors p.builders ∧ t ∈ operandTensors p.builders
  known : ∀ i ∈ p.model.inputs ++ p.model.outputs, i < p.model.operands.length
  pulled : ∀ i ∈ p.model.outputs, p.tensors i ≠ []

/-- What the planner has to supply for a plan to be made. -/
structure Plannable (Mixed : Prop) (model : Model) (d : PlanDraft) (builders : List TensorBuilder) :
    Prop where
  marked : ∀ b ∈ builders, Marked b
  constraints : ∀ b ∈ builders, ∀ i ∈ b.marked, ∃ o, model.operands[i]? = some o ∧
    d.constraints.find? i = some ⟨o.shape, o.type⟩
  sized : ConstantsSized model.operands
  suits : ∀ {i init}, (i, init) ∈ d.initializers → Suits model.operands i init
  seats : ∀ s ∈ d.stages, ∀ id place, s.seat? = some (id, place) →
    ∀ b ∈ builders, b.backend = id → b.place = place ∨ Mixed
  known : ∀ i ∈ model.inputs ++ model.outputs, i < model.operands.length
  pulled : ∀ i ∈ model.outputs, ∃ b ∈ builders, i ∈ b.marked

variable {model : Model} {d : PlanDraft} {builders : List TensorBuilder}

theorem Injected.congr {text : String} (h : Injected m text)
    (hfault : m.device.fault = m₀.device.fault) : Injected m₀ text := by
  obtain ⟨label, reason, hpending, htext⟩ := h
  exact ⟨label, reason, hfault.symm.trans hpending, htext⟩

/-- Preparing leaves builders where they keep their tensors. -/
theorem housed_of_prepared (hp : List.Forall₂ (Prepared os) builders bs) : Housed bs := by
  intro b hb i t ht
  obtain ⟨b₀, -, hb₀⟩ := (mem_of_forall₂ hp).1 b hb
  exact (hb₀.known ht).1.trans hb₀.place.symm

theorem keyed_of_prepared (hp : List.Forall₂ (Prepared os) builders bs) : Keyed bs := by
  intro b hb
  obtain ⟨b₀, -, hb₀⟩ := (mem_of_forall₂ hp).1 b hb
  exact hb₀.keys.trans hb₀.marked.symm

theorem Plannable.seated (h : Plannable Mixed model d builders)
    (hp : List.Forall₂ (Prepared os) builders bs) :
    ∀ s ∈ d.stages, ∀ id place, s.seat? = some (id, place) → Seated Mixed bs id place := by
  intro s hs id place hseat b hb hid
  obtain ⟨b₀, hmem, hb₀⟩ := (mem_of_forall₂ hp).1 b hb
  rw [hb₀.place]
  exact h.seats s hs id place hseat b₀ hmem (hb₀.backend.symm.trans hid)

/-- An operand that was marked has a tensor. -/
theorem owners_ne_nil (hk : Keyed bs) {b : TensorBuilder} (hb : b ∈ bs) (hi : i ∈ b.marked) :
    owners bs i ≠ [] := by
  rw [← hk b hb, ← SortedMap.find?_isSome_iff, Option.isSome_iff_exists] at hi
  obtain ⟨t, ht⟩ := hi
  exact List.ne_nil_of_mem (List.mem_filterMap.2 ⟨b, hb, ht⟩)

/-- The tensors of operands, after the stages were bound. -/
theorem Staging.ready (h : Staging bs₀ m₁ a) (hp : List.Forall₂ (Prepared os) builders bs₀)
    {bs₁ : List TensorBuilder} (hassembling : Assembling m₀ bs₀ { builders := bs₁, machine := m₁ })
    {b : TensorBuilder} (hb : b ∈ bs₀) (ht : (i, t) ∈ b.tensors) :
    t.Ready a.machine.memory ∧ ∃ o, os[i]? = some o ∧ t.info = ⟨o.shape, o.type⟩ := by
  obtain ⟨b₀, -, hb₀⟩ := (mem_of_forall₂ hp).1 b hb
  have hmem : t ∈ tensorsOf bs₁ := by
    refine List.mem_append_left _ ?_
    rw [entries_congr hassembling.frames]
    exact mem_operandTensors.2 ⟨b, hb, i, ht⟩
  have hbound := hassembling.laid.bound t hmem
  have hready := (hassembling.blank t hmem).ready hbound
    (hassembling.laid.whole _ (hassembling.laid.new t hmem))
  have hsame := h.grown.old _ hbound
  refine ⟨⟨Nat.lt_of_lt_of_le hbound h.grown.length, ?_, ?_, ?_⟩, (hb₀.known ht).2⟩
  · exact (congrArg Cell.reserved hsame).trans hready.reserved
  · exact (congrArg Cell.damaged hsame).trans hready.whole
  · rw [Memory.contents, hsame]
    exact hready.size

/-- The tensors of an operand, once stages were bound to builders that were prepared. -/
theorem tensors_of_prepared (hp : List.Forall₂ (Prepared os) builders bs) {p : Plan}
    (hframes : p.builders.map TensorBuilder.frame = bs.map TensorBuilder.frame) (i : OperandId) :
    p.tensors i = owners bs i := by
  rw [p.tensors_eq_owners ((keyed_of_prepared hp).congr hframes), owners_congr hframes]

/-- A plan has what sessions need if its tensors have memory. -/
theorem Plannable.equipped (h : Plannable Mixed model d builders)
    (hp : List.Forall₂ (Prepared os) builders bs) (hstaging : Staging bs m₁ a) {p : Plan}
    (hmodel : p.model = model) (hbuilders : p.builders = a.builders)
    (hrunnables : p.runnables = a.runnables)
    (hreserved : ∀ b ∈ bs, ∀ {i t}, (i, t) ∈ b.tensors → (m.memory.cell t.cell).reserved = true) :
    p.Equipped m := by
  have hframes : p.builders.map TensorBuilder.frame = bs.map TensorBuilder.frame :=
    hbuilders ▸ hstaging.frames
  have hoperands : operandTensors p.builders = operandTensors bs :=
    congrArg (List.map Prod.snd) (entries_congr hframes)
  refine ⟨fun t ht => ?_, fun {label s t} hr => ?_, hmodel ▸ h.known, fun i hi => ?_⟩
  · rw [hoperands] at ht
    obtain ⟨b, hb, i, hmem⟩ := mem_operandTensors.1 ht
    exact hreserved b hb hmem
  · rw [hoperands]
    exact hstaging.permutes (hrunnables ▸ hr)
  · obtain ⟨b, hb, hi⟩ := h.pulled i (hmodel ▸ hi)
    obtain ⟨b', hb', hprepared⟩ := (mem_of_forall₂ hp).2 b hb
    rw [tensors_of_prepared hp hframes]
    exact owners_ne_nil (keyed_of_prepared hp) hb' (hprepared.marked ▸ hi)

/-- The tensors of operands, where the plan completed has those of the builders that were prepared. -/
theorem Staging.tensors_ready (hp : List.Forall₂ (Prepared os) builders bs) {bs₁ : List TensorBuilder}
    (hassembling : Assembling m₀ bs { builders := bs₁, machine := m₁ }) (hstaging : Staging bs m₁ a)
    {p : Plan} (hbuilders : p.builders = a.builders) (ht : t ∈ p.tensors i) :
    t.Ready a.machine.memory ∧ ∃ o, os[i]? = some o ∧ t.info = ⟨o.shape, o.type⟩ := by
  rw [tensors_of_prepared hp (hbuilders ▸ hstaging.frames)] at ht
  obtain ⟨b, hb, ht⟩ := List.mem_filterMap.1 ht
  exact hstaging.ready hp hassembling hb (SortedMap.find?_mem ht)

/-- Filling the constants of a plan whose stages are bound. -/
theorem complete_raises (h : Plannable Mixed model d builders)
    (hp : List.Forall₂ (Prepared model.operands) builders bs) {bs₁ : List TensorBuilder}
    (hassembling : Assembling m₀ bs { builders := bs₁, machine := m₁ }) (hstaging : Staging bs m₁ a)
    {p : Plan} (hmodel : p.model = model) (hbuilders : p.builders = a.builders)
    (hrunnables : p.runnables = a.runnables) :
    Ends (outcome (d.complete p) a)
      (fun p a' => p.Equipped a'.machine) (fun e _ => e.Among (Error.Making Mixed m₀)) := by
  obtain ⟨m, hfill, hm⟩ := fillConstants_uploading (p := p) h.sized h.suits
    (hstaging.tensors_ready hp hassembling hbuilders)
  refine complete_ends hfill ((Plan.synchronizeAll_reports p.builders m).mono ?_ fun e _ he => ?_)
  · rintro _ _ rfl
    refine h.equipped hp hstaging hmodel hbuilders hrunnables fun b hb i t hmem => ?_
    exact (hm.memory.reserved _).trans (hstaging.ready hp hassembling hb hmem).1.reserved
  · obtain ⟨text, hf, rfl⟩ := he
    refine Failure.among_error (.inr ⟨text, (hm.reported hf).imp (fun hold => ?_) fun hnew => ?_, rfl⟩)
    · rw [← hassembling.laid.failure, ← hstaging.grown.failure]
      exact hold
    · exact hnew.congr (hstaging.grown.fault.trans hassembling.laid.fault)

/-- Making a plan up to its constants. What is left then decides how it ends. -/
theorem finalize_of_complete (h : Plannable Mixed model d builders) (m₀ : Machine)
    {post : Plan → Machine → Prop} {err : Failure → Prop}
    (hbinding : ∀ {e : Failure}, e.Among (Error.Binding Mixed) → err e)
    (hcomplete : ∀ {bs bs₁ m₁ a}, List.Forall₂ (Prepared model.operands) builders bs →
      Assembling m₀ bs { builders := bs₁, machine := m₁ } → Staging bs m₁ a →
      Ends (outcome (d.complete { model, builders := a.builders, runnables := a.runnables }) a)
        (fun p a' => post p a'.machine) fun e _ => err e) :
    Ends (outcome (d.finalize model builders) m₀) post fun e _ => err e := by
  refine finalize_of_prepare ((prepareAll_laid h.marked h.constraints m₀).mono
    (fun _ _ hm => hm) fun _ _ he => he.elim) fun bs m hm => ?_
  obtain ⟨hprepared, hlaid, hfree⟩ := hm
  obtain ⟨r, bs₁, m₁, hrun, -, hends⟩ := allocateAll_ends hprepared hlaid hfree
  refine assemble_of_allocate hrun (fun e he => ?_) fun hr => ?_
  · subst he
    exact hbinding (hends.cause.early.mono fun _ => .inl)
  · subst hr
    exact (applyAll_raises (.start hends) (housed_of_prepared hprepared)
      (h.seated hprepared)).mono (fun _ _ ha => hcomplete hprepared hends ha) fun _ _ he =>
      hbinding he

/-- **Making a plan.** -/
theorem finalize_raises (h : Plannable Mixed model d builders) (m₀ : Machine) :
    Ends (outcome (d.finalize model builders) m₀) (fun p m => p.Equipped m)
      (fun e _ => e.Among (Error.Making Mixed m₀)) :=
  finalize_of_complete h m₀ (fun he => he.mono fun _ => .inl)
    fun hp hassembling hstaging => complete_raises h hp hassembling hstaging rfl rfl rfl

end HeteroNet
