import HeteroNet.Proofs.Model.Conserved
import HeteroNet.Proofs.Verdict

/-
Placing a model: finishing it, choosing a backend for each operation, lowering it. Lowering succeeds
on what was finished before, so placing fails only where the graph is refused, where no backend
takes an operation, or where the caller has lowered the model himself (`judges_placeModel`).
-/

namespace HeteroNet

namespace Model

/-- A call on a model. -/
inductive Call where
  | addOperand (shape : Shape) (type : TypeInfo)
  | setValue (i : OperandId) (data : Bytes)
  | addOperation (op : Operation)
  | addInput (i : OperandId)
  | addOutput (i : OperandId)
  | finish
  | lower (placements : List Placement)
  deriving DecidableEq, Repr

/-- The model that a call leaves, whether it succeeds or not. -/
def Call.after (m : Model) : Call → Model
  | addOperand shape type => ((Model.addOperand shape type).on m).2
  | setValue i data => ((Model.setValue i data).on m).2
  | addOperation op => ((Model.addOperation op).on m).2
  | addInput i => ((Model.addInput i).on m).2
  | addOutput i => ((Model.addOutput i).on m).2
  | finish => (Model.finish.on m).2
  | lower placements => ((Model.lower placements).on m).2

/-- The model that a caller has after some calls. -/
def ofCalls (calls : List Call) : Model := calls.foldl Call.after {}

variable {m : Model} {ps : List Placement} {r : Registry} {policy : Policy}

/-! ## Lowering -/

/-- Lowering a finished model with a backend for each operation succeeds. -/
theorem lower_total (hl : m.Linked) (hc : m.Checked) (hphase : m.phase = .finished)
    (hlen : ps.length = m.operations.length) :
    ∃ s, outcome (lower ps) m = (.ok (), s) ∧ s.phase = .lowered := by
  obtain ⟨copies, m₁, done, hsplit, hs, hall⟩ := SplitAt.splitAll hl hc hlen
  have ha := (hs.split hall).admitted hlen ⟨hc.arity, hc.given⟩
  have hw := (hs.split hall).wellFormed hl hc hlen
  obtain ⟨m₂, hlink, hl₂, -⟩ := hw.link ha
  have hr := replaced_placeOperands m₂
  have hsame : Same m₁ m₂.placeOperands := (keeps_link.of_eq hlink).same.trans hr.same
  have hchecked : m₂.placeOperands.Checked :=
    (checked_iff (hr.linked hl₂) (hsame.admitted ha)).2 (hsame.wellFormed hw)
  refine ⟨{ m₂.placeOperands with phase := .lowered }, ?_, rfl⟩
  rw [lower, outcome_bind_of_ok (outcome_get m),
    outcome_bind_of_ok (outcome_check_of_ok (requirePhase_ok.2 hphase) m),
    if_neg (not_not.2 hlen), outcome_bind_of_ok (outcome_set _ _), outcome_bind_of_ok hsplit,
    outcome_bind_of_ok hlink, outcome_bind_of_ok (outcome_modify _ _),
    outcome_bind_of_ok (outcome_get _),
    outcome_bind_of_ok (outcome_check_of_ok (check_ok.2 hchecked) _), outcome_modify]

/-- A model in another phase is left as it is. -/
theorem wrong_phase {α : Type} {p : Phase} (h : m.phase ≠ p) (body : Model → Edit α) :
    outcome (do
      let m ← get
      m.requirePhase p
      body m : Edit α) m = (.error (.graph (.invalidPhase p.name m.phase.name)), m) := by
  rw [outcome_bind_of_ok (outcome_get m), outcome_bind, outcome_check, requirePhase, if_neg h]

/-- Lowering refuses a model, or succeeds. -/
theorem lower_cases (h : m.Sound) (ps : List Placement) :
    (outcome (lower ps) m).2 = m ∨ (outcome (lower ps) m).2.phase = .lowered := by
  rcases h.phase with hb | ⟨hphase, hl, hc⟩
  · rw [lower, wrong_phase (by rw [hb]; decide)]
    exact .inl rfl
  by_cases hlen : ps.length = m.operations.length
  · obtain ⟨s, hrun, hs⟩ := lower_total hl hc hphase hlen
    rw [hrun]
    exact .inr hs
  · rw [lower, outcome_bind_of_ok (outcome_get m),
      outcome_bind_of_ok (outcome_check_of_ok (requirePhase_ok.2 hphase) m), if_pos hlen]
    exact .inl rfl

/-- A model that is no longer being built is changed by lowering it alone, and only if it is not
lowered yet. -/
theorem Call.idle (hb : m.phase ≠ .building) (c : Call)
    (hc : m.phase = .finished → ∀ ps, c ≠ .lower ps) : c.after m = m := by
  cases c with
  | addOperand shape type => exact congrArg Prod.snd (wrong_phase hb _)
  | setValue i data => exact congrArg Prod.snd (wrong_phase hb _)
  | addOperation op => exact congrArg Prod.snd (wrong_phase hb _)
  | addInput i => exact congrArg Prod.snd (wrong_phase hb _)
  | addOutput i => exact congrArg Prod.snd (wrong_phase hb _)
  | finish => exact congrArg Prod.snd (wrong_phase hb fun _ => _)
  | lower ps => exact congrArg Prod.snd (wrong_phase (fun hf => hc hf ps rfl) _)

/-- No call changes a lowered model. -/
theorem Call.after_lowered (h : m.phase = .lowered) (c : Call) : c.after m = m :=
  Call.idle (by rw [h]; decide) c fun hf => by rw [h] at hf; cases hf

theorem Call.after_built (h : m.Built) : ∀ c : Call,
    (c.after m).Built ∨ (c.after m).phase = .lowered
  | addOperand shape type => .inl (h.addOperand shape type)
  | setValue i data => .inl (h.setValue i data)
  | addOperation op => .inl (h.addOperation op)
  | addInput i => .inl (h.addInput i)
  | addOutput i => .inl (h.addOutput i)
  | finish => .inl h.finish
  | lower ps => (lower_cases h.sound ps).imp_left fun he => by
      rw [show (lower ps).after m = m from he]
      exact h

/-- **What a caller can have**: a model as it was built, or one that he has lowered. -/
theorem built_or_lowered (calls : List Call) :
    (ofCalls calls).Built ∨ (ofCalls calls).phase = .lowered := by
  suffices H : ∀ (calls : List Call) {m : Model}, m.Built ∨ m.phase = .lowered →
      (calls.foldl Call.after m).Built ∨ (calls.foldl Call.after m).phase = .lowered from
    H calls (.inl .empty)
  intro calls
  induction calls with
  | nil => exact fun h => h
  | cons c calls ih =>
    rintro m (h | h)
    · exact ih (Call.after_built h c)
    · exact ih (.inr ((congrArg phase (Call.after_lowered h c)).trans h))

/-! ## Placing -/

theorem judges_after {t : Edit Unit} (h : Judges (outcome t m).1) :
    Judges (placeModel.after t m) := by
  have hon : t.on m = outcome t m := rfl
  unfold placeModel.after
  rw [hon]
  revert h
  obtain ⟨answer, m'⟩ := outcome t m
  cases answer with
  | ok u => exact fun _ => fails_ok m'
  | error e => exact fun h => fails_error.2 (fails_error.1 h)

theorem resolve_length (h : policy.resolve r m = .ok ps) : ps.length = m.operations.length :=
  (mapM_eq_ok.1 h).length_eq.symm

/-- **Placing a model fails with a verdict, if it fails.** -/
theorem judges_placeModel (h : m.Built ∨ m.phase = .lowered) : Judges (placeModel m r policy) := by
  have hrest : ∀ {m : Model}, (m.Linked ∧ m.Checked ∧ m.phase = .finished) ∨ m.phase = .lowered →
      Judges (policy.resolve r m >>= fun ps => placeModel.after (lower ps) m) := by
    intro m h
    refine fails_bind.2 ⟨judges_resolve policy r, fun ps hps => judges_after ?_⟩
    rcases h with ⟨hl, hc, hphase⟩ | hphase
    · obtain ⟨s, hrun, -⟩ := lower_total hl hc hphase (resolve_length hps)
      rw [hrun]
      exact fails_ok ()
    · rw [lower, wrong_phase (by rw [hphase]; decide)]
      exact fails_error.2 (isVerdict_graph _)
  unfold placeModel
  split
  · refine fails_bind.2 ⟨judges_after (judges_finish m), fun m' hm => hrest (.inl ?_)⟩
    exact finish_linked (after_ok hm)
  · rename_i hp
    refine hrest (h.imp_left fun hbuilt => ?_)
    rcases hbuilt.sound.phase with hb | ⟨hphase, hl, hc⟩
    · exact absurd hb hp
    · exact ⟨hl, hc, hphase⟩

/-- A model that was lowered before is not placed again. -/
theorem placeModel_lowered (h : m.phase = .lowered) : ∀ m', placeModel m r policy ≠ .ok m' := by
  intro m' hplace
  unfold placeModel at hplace
  rw [if_neg (by rw [h]; decide), pure_bind] at hplace
  obtain ⟨ps, -, hlower⟩ := bind_eq_ok.1 hplace
  have hrun := after_ok hlower
  rw [lower, wrong_phase (by rw [h]; decide)] at hrun
  cases hrun

end Model

end HeteroNet
