import HeteroNet.Proofs.Plan.Exits

/-
Which errors come from which calls. A compilation fails with errors of compiling a model, and with a
few that are none: those of starting a backend, and of the wait for the constants, are errors of
running, though there is no plan to run (`Outside`). A call on a session fails with errors of running
only, whatever became of the machine on which its plan was made (`errors_by_phase`).

For sessions the argument is that nothing which could go wrong otherwise is left to chance once a plan
is made (`Plan.Equipped`): its tensors have memory, its inputs and outputs are operands, and each output
has a tensor.
-/

namespace HeteroNet

open Operation Model
open Machine (Lasting)

section

variable {σ α β : Type} {I : σ → Prop}

/-- From where `I` holds, the call leads to where it holds, or it fails with an error of running. -/
def Safe (I : σ → Prop) (t : ExceptT Failure (StateM σ) α) : Prop :=
  ∀ s, I s → Ends (outcome t s) (fun _ s' => I s') fun e _ => e.Among Error.Late

namespace Safe

theorem pure (a : α) : Safe I (Pure.pure a : ExceptT Failure (StateM σ) α) := fun _ h => h

theorem throw {e : Failure} (he : e.Among Error.Late) :
    Safe I (MonadExcept.throw e : ExceptT Failure (StateM σ) α) := fun _ _ => he

theorem get : Safe I (MonadState.get : ExceptT Failure (StateM σ) σ) := fun _ h => h

theorem bind {x : ExceptT Failure (StateM σ) α} {f : α → ExceptT Failure (StateM σ) β}
    (hx : Safe I x) (hf : ∀ a, Safe I (f a)) : Safe I (x >>= f) := fun s hs =>
  Ends.bind ((hx s hs).mono (fun a s' hs' => hf a s' hs') fun _ _ he => he)

theorem forM {f : α → ExceptT Failure (StateM σ) PUnit} {l : List α} (hf : ∀ a ∈ l, Safe I (f a)) :
    Safe I (l.forM f) := fun _ hs =>
  Ends.forM (fun _ s => I s) (fun _ a _ s hl h => hf a (by simp [hl]) s h) hs

end Safe

end

theorem Failure.outOfBounds_late : Failure.outOfBounds.Among Error.Late := fun _ h => by cases h

theorem Failure.late {e : ExecutionError} : (Failure.error (.execution e)).Among Error.Late :=
  Failure.among_error rfl

variable {p : Plan} {m : Machine} {t : Tensor} {i : OperandId} {words : Buffer}

/-! ## Calls on the tensors of a plan -/

theorem Plan.Equipped.lasting (h : p.Equipped m) {m' : Machine} (hm : Lasting m m') :
    p.Equipped m' :=
  ⟨fun t ht => hm _ (h.reserved t ht), h.permutes, h.known, h.pulled⟩

/-- What matters of a call that takes no memory is what it fails with. -/
theorem Safe.of_keeps {α : Type} {t : Task α} (hk : Keeps Lasting t)
    (h : ∀ m, p.Equipped m →
      Ends (outcome t m) (fun _ _ => True) fun e _ => e.Among Error.Late) : Safe p.Equipped t :=
  fun m hm => ((h m hm).and (hk.ends (refl_of Lasting m))).mono
    (fun _ _ h => hm.lasting h.2) fun _ _ h => h.1

theorem submit_safe {c : Command} (hc : c.Keeping) : Safe p.Equipped (Machine.submit c) :=
  .of_keeps (submit_lasting hc) fun _ _ => trivial

theorem synchronizeAll_safe (bs : List TensorBuilder) :
    Safe p.Equipped (Plan.synchronizeAll bs) := by
  refine .of_keeps (Plan.synchronizeAll_lasting bs) fun m _ => ?_
  refine (Plan.synchronizeAll_reports bs m).mono (fun _ _ _ => trivial) fun e _ he => ?_
  obtain ⟨text, -, rfl⟩ := he
  exact Failure.late

theorem synchronize_safe : Safe p.Equipped Machine.synchronize := by
  refine .of_keeps synchronize_lasting fun m _ => ?_
  rw [Machine.synchronize, outcome_bind_of_ok (outcome_get m)]
  cases m.device.failure with
  | none => exact trivial
  | some text => exact Failure.late

theorem mem_operandTensors_of_tensors (ht : t ∈ p.tensors i) : t ∈ operandTensors p.builders := by
  obtain ⟨b, hb, ht⟩ := List.mem_filterMap.1 ht
  split at ht
  · exact mem_operandTensors.2 ⟨b, hb, i, SortedMap.find?_mem ht⟩
  · cases ht

namespace Tensor

theorem requireReserved_safe (ht : t ∈ operandTensors p.builders) :
    Safe p.Equipped t.requireReserved := by
  intro m hm
  rw [outcome_requireReserved, hm.reserved t ht, if_neg (by simp)]
  exact hm

theorem reorder_safe (source target : Layout) (words : Buffer) :
    Safe p.Equipped (t.reorder source target words) := by
  unfold reorder
  split
  · exact .pure _
  · exact .throw Failure.outOfBounds_late

theorem readLogical_safe (ht : t ∈ operandTensors p.builders) : Safe p.Equipped t.readLogical := by
  refine Safe.bind ((requireReserved_safe ht).bind fun _ => ?_) fun _ => reorder_safe _ _ _
  split
  on_goal 1 => refine synchronize_safe.bind fun _ => ?_
  all_goals
    refine Safe.get.bind fun m => ?_
    split
    · exact .pure _
    · exact .throw Failure.late

theorem writeLogical_safe (ht : t ∈ operandTensors p.builders) (words : Buffer) :
    Safe p.Equipped (t.writeLogical words) := by
  refine (reorder_safe _ _ _).bind fun words => ?_
  refine (requireReserved_safe ht).bind fun _ => Safe.get.bind fun m => ?_
  dsimp only
  split
  on_goal 1 => refine (Safe.throw Failure.late).bind fun _ => ?_
  all_goals
    split
    · exact fun m hm => hm.lasting (lasting_modify t.cell (by exact fun _ h => h) m.device)
    · exact submit_safe (uploadCommand_keeping _ _)

end Tensor

/-- Running one step of a plan. -/
theorem run_safe {r : Runnable} (hr : r ∈ p.runnables) : Safe p.Equipped r.run := by
  intro m hm
  cases r with
  | host label k ins out =>
    refine Safe.of_keeps (run_lasting _) (fun m _ => ?_) m hm
    rw [Runnable.run, outcome_bind_of_ok (outcome_get m)]
    dsimp only
    split
    · exact trivial
    · exact Failure.outOfBounds_late
  | device label k ins out => exact submit_safe (kernelCommand_keeping _ _ _ _) m hm
  | permute label s t =>
    obtain ⟨hs, ht⟩ := hm.permutes hr
    exact ((Tensor.readLogical_safe hs).bind (Tensor.writeLogical_safe ht)) m hm

/-- Running the steps of a plan one after another. -/
theorem runAll_safe : ∀ {rs : List Runnable}, (∀ r ∈ rs, r ∈ p.runnables) →
    Safe p.Equipped (p.runAll rs)
  | [], _ => synchronizeAll_safe _
  | r :: rs, hrs => by
    intro m hm
    have hr := run_safe (hrs r (by simp)) m hm
    rw [Plan.runAll, outcome_bind_of_ok (outcome_get m), Task.on_eq]
    revert hr
    obtain ⟨answer, m'⟩ := outcome r.run m
    intro hr
    cases answer with
    | ok u =>
      dsimp only
      rw [outcome_bind_of_ok (outcome_set _ _)]
      exact runAll_safe (fun r hr => hrs r (List.mem_cons_of_mem _ hr)) m' hr
    | error e => exact hr

/-! ## Calls on sessions -/

namespace Session

variable {s : Session} {is : List OperandId} {slot : SlotId} {buffer : Bytes} {err : Error}

/-- A session whose bindings fit its plan, on a machine that has what the plan needs. -/
def Ready (p : Plan) (x : Session × Machine) : Prop := x.1.Wired p ∧ p.Equipped x.2

theorem create_late {o : Operand} (h : Binding.create i o buffer = .error err) : err.Late := by
  rcases bind_eq_error.1 h with hshape | ⟨shape, -, h⟩
  · unfold SlotShape.ofShape at hshape
    split at hshape <;> cases hshape
    rfl
  · dsimp only at h
    split at h <;> cases h
    rfl

/-- Binding a buffer to one of the inputs, or to one of the outputs. -/
theorem bind_late (hknown : ∀ i ∈ is, i < s.plan.model.operands.length)
    (h : s.bind is slot buffer = .error err) : err.Late := by
  unfold bind at h
  split at h
  · cases h
    rfl
  · rename_i i hi
    rcases bind_eq_error.1 h with hget | ⟨o, -, h⟩
    · obtain ⟨o, ho⟩ : ∃ o, s.plan.model.operands[i]? = some o :=
        ⟨_, List.getElem?_eq_getElem (hknown i (List.mem_of_getElem? hi))⟩
      rw [Operands.get_eq_ok.2 ho] at hget
      cases hget
    · exact create_late h

theorem requireBound_late (h : s.requireBound = .error err) : err.Late := by
  unfold requireBound at h
  split at h <;> cases h <;> rfl

theorem onMachine_safe {α : Type} {t : Task α} (h : Safe p.Equipped t) :
    Safe (Ready p) (onMachine t) := by
  rintro ⟨s, m⟩ ⟨hs, hm⟩
  have ht := h m hm
  rw [onMachine_eq]
  revert ht
  obtain ⟨answer, m'⟩ := outcome t m
  cases answer with
  | ok a => exact fun hm' => ⟨hs, hm'⟩
  | error e => exact id

theorem pushAll_safe (hs : s.Wired p) : Safe p.Equipped s.pushAll := by
  refine Safe.forM fun source _ => ?_
  split
  · exact Safe.forM fun t ht =>
      Tensor.writeLogical_safe (mem_operandTensors_of_tensors (hs.plan ▸ ht)) _
  · exact .pure _

theorem pullOne_safe (slot : SlotId) : Safe (Ready p) (pullOne slot) := by
  rintro ⟨s, m⟩ ⟨hs, hm⟩
  have hwired : Ends (outcome (pullOne slot) (s, m)) (fun _ y => y.1.Wired p) fun _ _ => True :=
    ((pullOne_wired slot).ends (refl_of (StaysWired p) (s, m))).mono (fun _ _ h => h hs)
      fun _ _ _ => trivial
  have hequipped : Ends (outcome (pullOne slot) (s, m)) (fun _ y => p.Equipped y.2)
      fun e _ => e.Among Error.Late := by
    rw [pullOne, outcome_bind_of_ok (outcome_get _)]
    dsimp only
    split
    · rename_i b hb
      obtain ⟨i, hi, hof⟩ := hs.sinks.getElem? hb
      split
      · rename_i t ts ht
        rw [hs.plan] at ht
        have hmem := mem_operandTensors_of_tensors (p := p) (ht ▸ List.mem_cons_self)
        have hpull : Safe p.Equipped (b.pull t) :=
          (Tensor.readLogical_safe hmem).bind fun _ => .pure _
        exact Ends.bind ((onMachine_safe hpull (s, m) ⟨hs, hm⟩).mono
          (fun _ _ h => h.2) fun _ _ he => he)
      · rename_i hnil
        rw [hs.plan, hof.operand] at hnil
        exact absurd hnil (hm.pulled i (List.mem_of_getElem? hi))
    · exact hm
  exact (hwired.and hequipped).mono (fun _ _ h => h) fun _ _ h => h.2

theorem run_safe : Safe (Ready p) Session.run := by
  rintro ⟨s, m⟩ hready
  have hs := hready.1
  rw [run, outcome_bind_of_ok (outcome_get _)]
  refine Ends.bind (Ends.lift (fun _ _ => ?_) fun e he => Failure.among_error (requireBound_late he))
  have hexecute : Safe p.Equipped s.plan.execute := hs.plan ▸ runAll_safe fun _ hr => hr
  refine ((onMachine_safe (pushAll_safe hs)).bind fun _ => (onMachine_safe hexecute).bind fun _ =>
    (Safe.forM fun slot _ => pullOne_safe slot).bind fun _ => ?_) (s, m) hready
  rintro ⟨s', m'⟩ ⟨hs', hm'⟩
  exact ⟨⟨hs'.plan, hs'.sources, hs'.sinks⟩, hm'⟩

/-- **A call on a session fails with errors of running only.** -/
theorem call_safe (c : Call) : Safe (Ready p) c.task := by
  have hrebind : ∀ {f : Session → Except Error Session},
      (∀ s m, Ready p (s, m) → ∀ err, f s = .error err → err.Late) →
      (∀ s s', s.Wired p → f s = .ok s' → s'.Wired p) → Safe (Ready p) (rebind f) := by
    rintro f hlate hwired ⟨s, m⟩ hready
    rw [outcome_rebind]
    cases hf : f s with
    | ok s' => exact ⟨hwired s s' hready.1 hf, hready.2⟩
    | error e => exact Failure.among_error (hlate s m hready e hf)
  cases c with
  | setInput slot buffer =>
    refine hrebind (f := (·.setInput slot buffer)) (fun s m hready err h => ?_)
      fun s s' hs h => hs.setInput h
    obtain ⟨⟨rfl, -, -⟩, hm⟩ := hready
    rcases bind_eq_error.1 h with h | ⟨_, -, h⟩
    · exact bind_late (fun i hi => hm.known i (List.mem_append_left _ hi)) h
    · exact absurd h pure_ne_error
  | setOutput slot buffer =>
    refine hrebind (f := (·.setOutput slot buffer)) (fun s m hready err h => ?_)
      fun s s' hs h => hs.setOutput h
    obtain ⟨⟨rfl, -, -⟩, hm⟩ := hready
    rcases bind_eq_error.1 h with h | ⟨_, -, h⟩
    · exact bind_late (fun i hi => hm.known i (List.mem_append_right _ hi)) h
    · exact absurd h pure_ne_error
  | run => exact run_safe

end Session

/-! ## Errors by the call that fails -/

/-- A constant row that is copied. -/
def copiedRow : List Model.Call :=
  [.addOperand [1, 2] { element := .float32 }, .addOperand [1, 2] { element := .float32 },
    .setValue 0 [0, 0, 128, 63, 0, 0, 0, 64], .addOperation ⟨[0], [1], .nop⟩, .addOutput 1]

/-- A backend on the host that starts when it is asked again. -/
def hesitant : Backend :=
  { id := "ref", layout := .nhwc, startup := .failsFirst 1, initializers := .host, stages := .host,
    tensors := .host }

/-- The default backends, and one that does not start the first time. -/
def hesitantPlatform : Platform :=
  let s := ({} : Settings).platform
  { s with registry := s.registry.add hesitant }

/-- The row compiled for the device. -/
@[irreducible] def copiedCompiled : Except Failure Plan × Platform :=
  outcome (compile (ofCalls copiedRow) {}) ({} : Settings).platform

def copiedPlan : Plan := copiedCompiled.1.toOption.getD ⟨{}, [], []⟩

/-- A session with a buffer for the copy. -/
def copiedSession : Session :=
  ((Session.new copiedPlan).setOutput 0 [1, 2, 3, 4, 5, 6, 7, 8]).toOption.getD
    (Session.new copiedPlan)

end HeteroNet
