import HeteroNet.Frontend.ModelBuilder
import HeteroNet.Proofs.Model.Placed

/-
What refused calls of a model builder leave behind. Declaring an operand, giving it a value and adding
an operation check before they change anything. Identifying inputs and outputs appends one entry
after another, so what comes before the entry it stops at stays (`refused_leaves_listed`), and a
corrected call appends behind it.
-/

namespace HeteroNet

open Model

namespace ResultCode

theorem ofError_ne_noError (e : Error) : ofError e ≠ noError := by
  unfold ofError
  split <;> decide

theorem ofResult_eq_noError {α : Type} {x : Except Error α} :
    ofResult x = noError ↔ ∃ a, x = .ok a := by
  cases x with
  | ok a => simp [ofResult]
  | error e => simp [ofResult, ofError_ne_noError]

end ResultCode

namespace ModelBuilder

/-- A call that builds a model. -/
inductive Call where
  | addOperand (d : OperandDescription)
  | setValue (i : OperandId) (data : Bytes)
  | addOperation (code : Int) (inputs outputs : List OperandId)
  | identifyInputsAndOutputs (inputs outputs : List OperandId)
  deriving DecidableEq, Repr

/-- The code that a call ends with, and the model it leaves. -/
def Call.on (m : Model) : Call → ResultCode × Model
  | addOperand d => report (ModelBuilder.addOperand d) m
  | setValue i data => report (Model.setValue i data) m
  | addOperation code inputs outputs => report (ModelBuilder.addOperation code inputs outputs) m
  | identifyInputsAndOutputs inputs outputs =>
    report (ModelBuilder.identifyInputsAndOutputs inputs outputs) m

/-- The entries of a list before the first that is no operand of the model. -/
def declaredPrefix (m : Model) (is : List OperandId) : List OperandId :=
  is.takeWhile fun i => decide (i < m.operands.length)

/-- The entries that a call appends to the inputs and outputs of a model, whether it is refused or
not. The outputs have their turn once all inputs are appended. -/
def Call.listed (m : Model) : Call → List OperandId × List OperandId
  | identifyInputsAndOutputs inputs outputs =>
    if m.phase = .building then
      (declaredPrefix m inputs,
        if declaredPrefix m inputs = inputs then declaredPrefix m outputs else [])
    else ([], [])
  | _ => ([], [])

/-- The model with more inputs and outputs. -/
def withSlots (m : Model) (inputs outputs : List OperandId) : Model :=
  { m with inputs := m.inputs ++ inputs, outputs := m.outputs ++ outputs }

variable {m : Model}

@[simp] theorem withSlots_nil (m : Model) : withSlots m [] [] = m := by
  simp [withSlots]

@[simp] theorem withSlots_withSlots (m : Model) (ins outs ins' outs' : List OperandId) :
    withSlots (withSlots m ins outs) ins' outs' = withSlots m (ins ++ ins') (outs ++ outs') := by
  simp [withSlots]

theorem withSlots_eq_self {ins outs : List OperandId} :
    withSlots m ins outs = m ↔ (ins, outs) = ([], []) := by
  constructor
  · intro h
    have hin : m.inputs ++ ins = m.inputs := congrArg Model.inputs h
    have hout : m.outputs ++ outs = m.outputs := congrArg Model.outputs h
    rw [List.append_right_eq_self.1 hin, List.append_right_eq_self.1 hout]
  · rintro ⟨⟩
    exact withSlots_nil m

theorem declaredPrefix_eq_self {is : List OperandId} :
    declaredPrefix m is = is ↔ ∀ i ∈ is, i < m.operands.length := by
  simp [declaredPrefix]

/-! ## Calls that check first -/

/-- A call that is refused leaves the model as it was. -/
def ChecksFirst {α : Type} (e : Edit α) (m : Model) : Prop :=
  Ends (outcome e m) (fun _ _ => True) fun _ m' => m' = m

theorem ChecksFirst.get {α : Type} {body : Model → Edit α} (h : ChecksFirst (body m) m) :
    ChecksFirst (MonadState.get >>= body) m :=
  Ends.bind h

theorem ChecksFirst.check {α β : Type} {x : Except Error β} {body : β → Edit α}
    (h : ∀ b, ChecksFirst (body b) m) : ChecksFirst (liftM x >>= body) m :=
  Ends.bind (Ends.check (fun b _ => h b) fun _ _ => rfl)

theorem checksFirst_addOperand (d : OperandDescription) (m : Model) :
    ChecksFirst (ModelBuilder.addOperand d) m :=
  ChecksFirst.get (ChecksFirst.check fun _ => ChecksFirst.get (ChecksFirst.check fun _ => trivial))

theorem checksFirst_setValue (i : OperandId) (data : Bytes) (m : Model) :
    ChecksFirst (Model.setValue i data) m := by
  refine ChecksFirst.get (ChecksFirst.check fun _ => ChecksFirst.check fun o => ?_)
  change ChecksFirst (if data.length ≠ o.byteSize then _ else _ : Edit Unit) m
  split
  · rfl
  · trivial

theorem checksFirst_addOperation (code : Int) (inputs outputs : List OperandId) (m : Model) :
    ChecksFirst (ModelBuilder.addOperation code inputs outputs) m :=
  ChecksFirst.check fun _ => ChecksFirst.get (ChecksFirst.check fun _ => ChecksFirst.check fun _ =>
    trivial)

theorem report_eq {α : Type} (e : Edit α) (m : Model) :
    report e m = (ResultCode.ofResult (outcome e m).1, (outcome e m).2) := rfl

theorem ChecksFirst.unchanged {α : Type} {e : Edit α} (h : ChecksFirst e m)
    (hrefused : (report e m).1 ≠ .noError) : (report e m).2 = m := by
  rw [report_eq] at hrefused ⊢
  unfold ChecksFirst at h
  revert h hrefused
  obtain ⟨r, m'⟩ := outcome e m
  cases r with
  | ok a => exact fun _ hrefused => absurd (ResultCode.ofResult_eq_noError.2 ⟨a, rfl⟩) hrefused
  | error e => exact fun h _ => h

/-! ## Appending entry by entry -/

/-- A call that appends one entry to a list of the model: `put` is what that does to the model. -/
structure Appends (add : OperandId → Edit SlotId) (put : Model → List OperandId → Model) : Prop where
  nil : ∀ m, put m [] = m
  cons : ∀ m i is, put (put m [i]) is = put m (i :: is)
  operands : ∀ m is, (put m is).operands = m.operands
  phase : ∀ m is, (put m is).phase = m.phase
  declared : ∀ {m i}, m.phase = .building → i < m.operands.length →
    ∃ slot, outcome (add i) m = (.ok slot, put m [i])
  refused : ∀ {m i}, m.phase = .building → ¬i < m.operands.length →
    ∃ e, outcome (add i) m = (.error e, m)

/-- Listing an operand, in whichever list. -/
theorem list_declared {i : OperandId} (hb : m.phase = .building) (hi : i < m.operands.length)
    (put : Model → Model) (slot : Model → SlotId) :
    outcome (do
      let m ← get
      m.requirePhase .building
      let _ ← m.operands.get i
      set (put m)
      return slot m : Edit SlotId) m = (.ok (slot m), put m) := by
  have ho : m.operands.get i = .ok m.operands[i] :=
    Operands.get_eq_ok.2 (List.getElem?_eq_getElem hi)
  rw [outcome_bind_of_ok (outcome_get m),
    outcome_bind_of_ok (outcome_check_of_ok (requirePhase_ok.2 hb) m),
    outcome_bind_of_ok (outcome_check_of_ok ho m), outcome_bind_of_ok (outcome_set _ _), outcome_pure]

theorem list_refused {i : OperandId} (hb : m.phase = .building) (hi : ¬i < m.operands.length)
    (body : Model → Operand → Edit SlotId) :
    outcome (do
      let m ← get
      m.requirePhase .building
      let o ← m.operands.get i
      body m o : Edit SlotId) m = (.error (.graph (.noOperand i)), m) := by
  have ho : m.operands.get i = .error (.graph (.noOperand i)) := by
    rw [Operands.get, List.getElem?_eq_none (Nat.not_lt.1 hi)]
  rw [outcome_bind_of_ok (outcome_get m),
    outcome_bind_of_ok (outcome_check_of_ok (requirePhase_ok.2 hb) m), ho]
  rfl

theorem appends_addInput : Appends Model.addInput fun m is => withSlots m is [] where
  nil := withSlots_nil
  cons m i is := withSlots_withSlots m [i] [] is []
  operands _ _ := rfl
  phase _ _ := rfl
  declared {m i} hb hi := by
    refine ⟨m.inputs.length, ?_⟩
    rw [Model.addInput, list_declared hb hi, withSlots, List.append_nil]
  refused hb hi := ⟨_, list_refused hb hi fun _ _ => _⟩

theorem appends_addOutput : Appends Model.addOutput fun m is => withSlots m [] is where
  nil := withSlots_nil
  cons m i is := withSlots_withSlots m [] [i] [] is
  operands _ _ := rfl
  phase _ _ := rfl
  declared {m i} hb hi := by
    refine ⟨m.outputs.length, ?_⟩
    rw [Model.addOutput, list_declared hb hi, withSlots, List.append_nil]
  refused hb hi := ⟨_, list_refused hb hi fun _ _ => _⟩

/-- Appending a list stops at the first entry that is no operand, and keeps those before it. -/
theorem Appends.forM {add : OperandId → Edit SlotId} {put : Model → List OperandId → Model}
    (h : Appends add put) : ∀ (is : List OperandId) {m : Model}, m.phase = .building →
      ∃ r, outcome (is.forM fun i => discard (add i)) m = (r, put m (declaredPrefix m is)) ∧
        (r = .ok () ↔ declaredPrefix m is = is)
  | [], m, _ => ⟨.ok (), by rw [declaredPrefix, List.takeWhile_nil, h.nil]; rfl, by simp [declaredPrefix]⟩
  | i :: is, m, hb => by
    rw [List.forM_eq_forM, List.forM_cons, ← List.forM_eq_forM]
    by_cases hi : i < m.operands.length
    · have hcons : declaredPrefix m (i :: is) = i :: declaredPrefix (put m [i]) is := by
        simp [declaredPrefix, hi, h.operands]
      obtain ⟨slot, hadd⟩ := h.declared hb hi
      obtain ⟨r, hrest, hr⟩ := h.forM is (m := put m [i]) ((h.phase m [i]).trans hb)
      refine ⟨r, ?_, ?_⟩
      · have hfirst : outcome (discard (add i)) m = (.ok (), put m [i]) := by
          rw [outcome_discard, hadd]
          rfl
        rw [outcome_bind_of_ok hfirst, hrest, hcons, h.cons]
      · rw [hr, hcons, List.cons.injEq, and_iff_right rfl]
    · have hnil : declaredPrefix m (i :: is) = [] := by simp [declaredPrefix, hi]
      obtain ⟨e, hadd⟩ := h.refused hb hi
      refine ⟨.error e, ?_, by simp [hnil]⟩
      rw [outcome_bind, outcome_discard, hadd, hnil, h.nil]
      rfl

/-- Where every entry is refused, nothing is appended. -/
theorem forM_refused {add : OperandId → Edit SlotId}
    (hadd : ∀ i, ∃ e, outcome (add i) m = (.error e, m)) : ∀ is : List OperandId,
      (outcome (is.forM fun i => discard (add i)) m).2 = m
  | [] => rfl
  | i :: is => by
    obtain ⟨e, he⟩ := hadd i
    rw [List.forM_eq_forM, List.forM_cons, ← List.forM_eq_forM, outcome_bind, outcome_discard, he]
    rfl

/-- What identifying inputs and outputs does to a model that is being built. -/
theorem identify_building (hb : m.phase = .building) (ins outs : List OperandId) :
    ∃ r, outcome (ModelBuilder.identifyInputsAndOutputs ins outs) m
        = (r, withSlots m (declaredPrefix m ins)
            (if declaredPrefix m ins = ins then declaredPrefix m outs else [])) ∧
      (r = .ok () ↔ declaredPrefix m ins = ins ∧ declaredPrefix m outs = outs) := by
  obtain ⟨r, hins, hr⟩ := appends_addInput.forM ins hb
  rw [ModelBuilder.identifyInputsAndOutputs]
  by_cases hall : declaredPrefix m ins = ins
  · obtain rfl := hr.2 hall
    obtain ⟨r', houts, hr'⟩ := appends_addOutput.forM outs
      (m := withSlots m (declaredPrefix m ins) []) hb
    refine ⟨r', ?_, ?_⟩
    · rw [outcome_bind_of_ok hins, houts, if_pos hall, withSlots_withSlots, List.append_nil]
      rfl
    · exact hr'.trans (and_iff_right hall).symm
  · cases r with
    | ok u => exact absurd (hr.1 rfl) hall
    | error e =>
      refine ⟨.error e, ?_, by simp [hall]⟩
      rw [outcome_bind, hins, if_neg hall]

theorem identify_closed (hb : m.phase ≠ .building) (ins outs : List OperandId) :
    (outcome (ModelBuilder.identifyInputsAndOutputs ins outs) m).2 = m := by
  have hins : (outcome (ins.forM fun i => discard (Model.addInput i)) m).2 = m :=
    forM_refused (fun _ => ⟨_, wrong_phase hb _⟩) ins
  have houts : (outcome (outs.forM fun i => discard (Model.addOutput i)) m).2 = m :=
    forM_refused (fun _ => ⟨_, wrong_phase hb _⟩) outs
  rw [ModelBuilder.identifyInputsAndOutputs, outcome_bind]
  revert hins
  obtain ⟨r, m'⟩ := outcome (ins.forM fun i => discard (Model.addInput i)) m
  rintro rfl
  cases r with
  | ok u => exact houts
  | error e => rfl

/-! ## Any call -/

/-- **What a refused call leaves behind**: the entries it had appended before it stopped. So every
call but the one that identifies inputs and outputs leaves the model as it was, and that one does so
exactly if it came in another phase or stopped at the first entry it lists. Where entries were left, a
corrected call is taken, and its own entries stand behind them. -/
theorem refused_leaves_listed (c : Call) (h : (c.on m).1 ≠ .noError) :
    (c.on m).2 = withSlots m (c.listed m).1 (c.listed m).2 ∧
    ((c.on m).2 = m ↔ c.listed m = ([], [])) ∧
    ∀ ins outs : List OperandId, m.phase = .building →
      (∀ i ∈ ins ++ outs, i < m.operands.length) →
      Call.on (c.on m).2 (.identifyInputsAndOutputs ins outs)
        = (.noError, withSlots m ((c.listed m).1 ++ ins) ((c.listed m).2 ++ outs)) := by
  have hleft : (c.on m).2 = withSlots m (c.listed m).1 (c.listed m).2 := by
    cases c with
    | addOperand d =>
      exact ((checksFirst_addOperand d m).unchanged h).trans (withSlots_nil m).symm
    | setValue i data =>
      exact ((checksFirst_setValue i data m).unchanged h).trans (withSlots_nil m).symm
    | addOperation code ins outs =>
      exact ((checksFirst_addOperation code ins outs m).unchanged h).trans (withSlots_nil m).symm
    | identifyInputsAndOutputs ins outs =>
      by_cases hb : m.phase = .building
      · obtain ⟨r, hrun, -⟩ := identify_building hb ins outs
        simp only [Call.listed, if_pos hb]
        exact congrArg Prod.snd hrun
      · simp only [Call.listed, if_neg hb, withSlots_nil]
        exact identify_closed hb ins outs
  refine ⟨hleft, hleft ▸ withSlots_eq_self, fun ins outs hb hall => ?_⟩
  rw [hleft]
  obtain ⟨hins, houts⟩ := List.forall_mem_append.1 hall
  have hins' := (declaredPrefix_eq_self (m := withSlots m (c.listed m).1 (c.listed m).2)).2 hins
  have houts' := (declaredPrefix_eq_self (m := withSlots m (c.listed m).1 (c.listed m).2)).2 houts
  obtain ⟨r, hrun, hr⟩ := identify_building
    (m := withSlots m (c.listed m).1 (c.listed m).2) hb ins outs
  rw [hr.2 ⟨hins', houts'⟩, if_pos hins', hins', houts', withSlots_withSlots] at hrun
  rw [Call.on, report_eq, hrun]
  rfl

/-- A builder that was given two rows of two floats. -/
def rows : Model :=
  let row : Call := .addOperand ⟨3, [1, 2], .zero, 0⟩
  [row, row].foldl (fun m c => (c.on m).2) {}

/-- The second input does not exist. The first one stays, and is listed twice after the correction. -/
theorem refused_leaves_listed_rows :
    (Call.on rows (.identifyInputsAndOutputs [0, 9] [1])).1 ≠ .noError ∧
      Call.on (Call.on rows (.identifyInputsAndOutputs [0, 9] [1])).2
          (.identifyInputsAndOutputs [0] [1])
        = (.noError, withSlots rows [0, 0] [1]) := by
  have hrefused : (Call.on rows (.identifyInputsAndOutputs [0, 9] [1])).1 ≠ .noError := by decide
  exact ⟨hrefused, (refused_leaves_listed _ hrefused).2.2 [0] [1] (by decide) (by decide)⟩

/-- A refused call may change the model. -/
theorem refused_changes_rows : ¬ ∀ (m : Model) (c : Call), (c.on m).1 ≠ .noError → (c.on m).2 = m := by
  intro h
  have hsame := h rows (.identifyInputsAndOutputs [0, 9] [1]) (by decide)
  exact absurd hsame (by decide)

end ModelBuilder

end HeteroNet
