import HeteroNet.Policy
import HeteroNet.Compile
import HeteroNet.Proofs.Model.Lowered

/-
Models as callers build them. Whatever calls were made, and whichever of them failed, constants have
as many bytes as their operands, and a model that is finished is linked and checked (`Built.sound`).

`placeModel_ok` says what a compilation makes of such a model: it is finished, every operation gets
the backend that the policy names for its kind, and the edges between backends are split.
-/

namespace HeteroNet

/-- What a caller declared of an operand. -/
def Operand.declared (o : Operand) : Shape × TypeInfo × Option Bytes := (o.shape, o.type, o.data)

theorem Operand.declared_eq {o o' : Operand} (h : o'.declared = o.declared) :
    o'.shape = o.shape ∧ o'.type = o.type ∧ o'.data = o.data :=
  ⟨congrArg Prod.fst h, congrArg (·.2.1) h, congrArg (·.2.2) h⟩

/-- Constants have as many bytes as their operands. -/
def ConstantsSized (os : Operands) : Prop :=
  ∀ {i : OperandId} {o : Operand} {data : Bytes}, os[i]? = some o →
    o.data = some data → data.length = o.byteSize

namespace Model

/-- The models that calls of a caller lead to. -/
inductive Built : Model → Prop
  | empty : Built {}
  | addOperand {m : Model} (shape : Shape) (type : TypeInfo) :
    Built m → Built ((addOperand shape type).on m).2
  | setValue {m : Model} (i : OperandId) (data : Bytes) : Built m → Built ((setValue i data).on m).2
  | addOperation {m : Model} (op : Operation) : Built m → Built ((addOperation op).on m).2
  | addInput {m : Model} (i : OperandId) : Built m → Built ((addInput i).on m).2
  | addOutput {m : Model} (i : OperandId) : Built m → Built ((addOutput i).on m).2
  | finish {m : Model} : Built m → Built (finish.on m).2

/-- What holds between the calls of a caller. -/
structure Sound (m : Model) : Prop where
  constants : ConstantsSized m.operands
  phase : m.phase = .building ∨ (m.phase = .finished ∧ m.Linked ∧ m.Checked)

/-- The models agree in all that a caller declared. -/
structure Same (m m' : Model) : Prop where
  operands : m'.operands.map Operand.declared = m.operands.map Operand.declared
  operations : m'.operations = m.operations
  inputs : m'.inputs = m.inputs
  outputs : m'.outputs = m.outputs

namespace Same

variable {m m' m'' : Model}

theorem refl : Same m m := ⟨rfl, rfl, rfl, rfl⟩

theorem trans (h : Same m m') (h' : Same m' m'') : Same m m'' :=
  ⟨h'.operands.trans h.operands, h'.operations.trans h.operations, h'.inputs.trans h.inputs,
    h'.outputs.trans h.outputs⟩

theorem symm (h : Same m m') : Same m' m :=
  ⟨h.operands.symm, h.operations.symm, h.inputs.symm, h.outputs.symm⟩

theorem operand (h : Same m m') {i : OperandId} {o' : Operand} (ho' : m'.operands[i]? = some o') :
    ∃ o, m.operands[i]? = some o ∧ o'.shape = o.shape ∧ o'.type = o.type ∧ o'.data = o.data := by
  have hi := congrArg (·[i]?) h.operands
  simp only [List.getElem?_map, ho', Option.map_some] at hi
  obtain ⟨o, ho, he⟩ := Option.map_eq_some_iff.1 hi.symm
  exact ⟨o, ho, Operand.declared_eq he.symm⟩

theorem constants (h : Same m m') (hs : ConstantsSized m.operands) :
    ConstantsSized m'.operands := by
  intro i o' data ho' hd
  obtain ⟨o, ho, hshape, htype, hdata⟩ := h.operand ho'
  rw [hs ho (hdata.symm.trans hd), Operand.byteSize, Operand.byteSize, Operand.element,
    Operand.element, hshape, htype]

end Same

theorem Relinked.same {m m' : Model} (h : Relinked m m') : Same m m' where
  operands := by
    have hd : Operand.declared = Operand.declared ∘ Operand.clearLinks := rfl
    rw [hd, ← List.map_map, ← List.map_map, h.operands]
  operations := h.operations
  inputs := h.inputs
  outputs := h.outputs

theorem Replaced.same {m m' : Model} (h : Replaced m m') : Same m m' where
  operands := by
    have hd : Operand.declared = Operand.declared ∘ unplaced := rfl
    rw [hd, ← List.map_map, ← List.map_map, h.operands]
  operations := h.operations
  inputs := h.inputs
  outputs := h.outputs

theorem same_withPhase (m : Model) (p : Phase) : Same m { m with phase := p } :=
  ⟨rfl, rfl, rfl, rfl⟩

instance : IsPreorder Model Same where
  refl _ := .refl
  trans _ _ _ := Same.trans

/-- Finishing changes nothing that a caller declared, whether it succeeds or not. -/
theorem keeps_finish : Keeps Same finish := by
  have hlink : Keeps Same link := fun m => (keeps_link m).same
  refine Keeps.get.bind fun m => (Keeps.check _).bind fun _ => Keeps.get.bind fun m =>
    (Keeps.check _).bind fun _ => hlink.bind fun _ => Keeps.get.bind fun m =>
      (Keeps.check _).bind fun _ m => ?_
  exact same_withPhase m .finished

/-! ## The calls of a caller -/

/-- A call that only a model still being built takes. -/
theorem building_call {α : Type} {P : Model → Prop} {m : Model} (h : P m) {body : Edit α}
    (hbody : m.phase = .building → P (outcome body m).2) :
    P (outcome (liftM (m.requirePhase .building) >>= fun _ => body) m).2 := by
  rw [outcome_bind, outcome_check]
  by_cases hp : m.phase = .building
  · rw [requirePhase_ok.2 hp]
    exact hbody hp
  · simp only [requirePhase, if_neg hp]
    exact h

/-- A call that is refused if a check fails. -/
theorem checked_call {α β : Type} {P : Model → Prop} {m : Model} (h : P m) {x : Except Error β}
    {body : β → Edit α} (hbody : ∀ b, x = .ok b → P (outcome (body b) m).2) :
    P (outcome (liftM x >>= body) m).2 := by
  rw [outcome_bind, outcome_check]
  cases x with
  | error e => exact h
  | ok b => exact hbody b rfl

theorem Sound.addOperand {m : Model} (h : m.Sound) (shape : Shape) (type : TypeInfo) :
    (outcome (addOperand shape type) m).2.Sound := by
  rw [Model.addOperand, outcome_bind_of_ok (outcome_get m)]
  refine building_call h fun hp => ⟨fun {i o data} ho hd => ?_, .inl hp⟩
  change (m.operands ++ [({ shape, type } : Operand)])[i]? = some o at ho
  rw [List.getElem?_append] at ho
  split at ho
  · exact h.constants ho hd
  · obtain rfl := List.mem_singleton.1 (List.mem_of_getElem? ho)
    cases hd

theorem Sound.setValue {m : Model} (h : m.Sound) (i : OperandId) (data : Bytes) :
    (outcome (setValue i data) m).2.Sound := by
  rw [Model.setValue, outcome_bind_of_ok (outcome_get m)]
  refine building_call h fun hp => checked_call h fun o _ => ?_
  change (outcome (if data.length ≠ o.byteSize then _ else _ : Edit Unit) m).2.Sound
  split
  · exact h
  · rename_i hlen
    refine ⟨fun {j o' data'} ho' hd => ?_, .inl hp⟩
    change (m.operands.set i { o with data := some data })[j]? = some o' at ho'
    rw [List.getElem?_set] at ho'
    split at ho'
    · split at ho'
      · cases ho'
        cases hd
        exact Decidable.not_not.1 hlen
      · cases ho'
    · exact h.constants ho' hd

theorem Sound.addOperation {m : Model} (h : m.Sound) (op : Operation) :
    (outcome (addOperation op) m).2.Sound := by
  rw [Model.addOperation, outcome_bind_of_ok (outcome_get m)]
  exact building_call h fun hp => checked_call h fun _ _ => ⟨h.constants, .inl hp⟩

theorem Sound.addInput {m : Model} (h : m.Sound) (i : OperandId) :
    (outcome (addInput i) m).2.Sound := by
  rw [Model.addInput, outcome_bind_of_ok (outcome_get m)]
  exact building_call h fun hp => checked_call h fun _ _ => ⟨h.constants, .inl hp⟩

theorem Sound.addOutput {m : Model} (h : m.Sound) (i : OperandId) :
    (outcome (addOutput i) m).2.Sound := by
  rw [Model.addOutput, outcome_bind_of_ok (outcome_get m)]
  exact building_call h fun hp => checked_call h fun _ _ => ⟨h.constants, .inl hp⟩

theorem Sound.finish {m : Model} (h : m.Sound) : (outcome finish m).2.Sound := by
  rw [Model.finish, outcome_bind_of_ok (outcome_get m)]
  refine building_call h fun hp => ?_
  rw [outcome_bind_of_ok (outcome_get m)]
  refine checked_call h fun _ _ => ?_
  have hk := keeps_link m
  have hlink : ∀ {m₁}, outcome link m = (.ok (), m₁) → m₁.Linked := link_ok
  rw [outcome_bind]
  revert hk hlink
  obtain ⟨r, m₁⟩ := outcome link m
  intro hk hlink
  have hs : m₁.Sound := ⟨hk.same.constants h.constants, .inl (hk.phase.trans hp)⟩
  cases r with
  | error e => exact hs
  | ok u =>
    dsimp only
    rw [outcome_bind_of_ok (outcome_get m₁)]
    refine checked_call hs fun _ hcheck => ⟨hs.constants, .inr ⟨rfl, ?_, ?_⟩⟩
    · exact (hlink rfl).withPhase .finished
    · exact (check_ok.1 hcheck).withPhase .finished

/-- **What callers build is sound.** -/
theorem Built.sound {m : Model} (h : m.Built) : m.Sound := by
  induction h with
  | empty =>
    refine ⟨fun {i o data} ho => ?_, .inl rfl⟩
    cases ho
  | addOperand shape type _ ih => exact ih.addOperand shape type
  | setValue i data _ ih => exact ih.setValue i data
  | addOperation op _ ih => exact ih.addOperation op
  | addInput i _ ih => exact ih.addInput i
  | addOutput i _ ih => exact ih.addOutput i
  | finish _ ih => exact ih.finish

/-! ## Lowering for a policy -/

/-- The model `m'` is the caller's model `m₀`, finished as `m`, placed as `ps` says, and with the
edges between backends split as in `s`. -/
structure Lowering (m₀ m : Model) (ps : List Placement) (copies : Copies) (s m' : Model) :
    Prop where
  finished : Same m₀ m
  constants : ConstantsSized m₀.operands
  linked : m.Linked
  checked : m.Checked
  count : ps.length = m.operations.length
  split : Split m ps copies s
  lowered : Same s m'
  placements : m'.placements = s.placements
  lowLinked : m'.Linked
  lowChecked : m'.Checked

namespace Lowering

variable {m₀ m s m' : Model} {ps : List Placement} {copies : Copies}

theorem splitsCrossings (h : Lowering m₀ m ps copies s m')
    (hplain : ∀ op ∈ m₀.operations, op.kind ≠ .permute) : SplitsCrossings m ps m' := by
  refine (h.split.splitsCrossings h.linked h.checked h.count ?_).congr h.lowered.operations
    h.placements
  rwa [h.finished.operations]

/-- Every operation is placed. -/
theorem count_placements (h : Lowering m₀ m ps copies s m') :
    m'.placements.length = m'.operations.length := by
  rw [h.placements, h.lowered.operations, h.split.placementCount, h.split.operationCount]

end Lowering

theorem lower_lowering {m₀ m m' : Model} {ps : List Placement} (hsame : Same m₀ m)
    (hconstants : ConstantsSized m₀.operands) (hl : m.Linked) (hc : m.Checked)
    (h : outcome (lower ps) m = (.ok (), m')) : ∃ copies s, Lowering m₀ m ps copies s m' := by
  obtain ⟨hl', hc', -⟩ := lower_linked h
  obtain ⟨-, hlen, m₁, m₂, hsplit, hlink, -, rfl⟩ := lower_ok h
  obtain ⟨copies, s, done, hsplit', hs, hall⟩ := SplitAt.splitAll hl hc hlen
  rw [hsplit] at hsplit'
  cases hsplit'
  have hk := keeps_link.of_eq hlink
  have hr := replaced_placeOperands m₂
  exact ⟨copies, m₁, hsame, hconstants, hl, hc, hlen, hs.split hall,
    (hk.same.trans hr.same).trans (same_withPhase _ _), hr.placements.trans hk.placements, hl', hc'⟩

/-- A call that a compilation makes on a model. -/
theorem after_ok {e : Edit Unit} {m m' : Model} (h : placeModel.after e m = .ok m') :
    outcome e m = (.ok (), m') := by
  unfold placeModel.after at h
  change e.on m = (.ok (), m')
  revert h
  obtain ⟨r, m₁⟩ := e.on m
  cases r with
  | ok u =>
    intro h
    cases h
    rfl
  | error e => exact fun h => by cases h

/-- The model that a compilation chooses backends for: it is finished, unless the caller did so. -/
def finished (m : Model) : Except Error Model :=
  if m.phase = .building then placeModel.after finish m else pure m

theorem placeModel_eq (m : Model) (r : Registry) (policy : Policy) : placeModel m r policy = (do
    let m ← m.finished
    let ps ← policy.resolve r m
    placeModel.after (lower ps) m) := by
  unfold placeModel finished
  split <;> rfl

theorem finished_ok {m₀ m : Model} (h₀ : m₀.Built) (h : m₀.finished = .ok m) :
    Same m₀ m ∧ m.Linked ∧ m.Checked ∧ m.phase = .finished := by
  unfold finished at h
  split at h
  · have hm := after_ok h
    exact ⟨keeps_finish.of_eq hm, finish_linked hm⟩
  · rename_i hp
    obtain rfl := pure_eq_ok.1 h
    rcases h₀.sound.phase with hb | ⟨hf, hl, hc⟩
    · exact absurd hb hp
    · exact ⟨.refl, hl, hc, hf⟩

theorem placeModel_finished {m₀ m' : Model} {r : Registry} {policy : Policy}
    (h : placeModel m₀ r policy = .ok m') : ∃ m ps, m₀.finished = .ok m ∧
      policy.resolve r m = .ok ps ∧ outcome (lower ps) m = (.ok (), m') := by
  rw [placeModel_eq] at h
  obtain ⟨m, hm, h⟩ := bind_eq_ok.1 h
  obtain ⟨ps, hps, h⟩ := bind_eq_ok.1 h
  exact ⟨m, ps, hm, hps, after_ok h⟩

/-- A compilation finishes the model, unless the caller did, and lowers it as the policy says. -/
theorem placeModel_lower {m₀ m' : Model} {r : Registry} {policy : Policy} (h₀ : m₀.Built)
    (h : placeModel m₀ r policy = .ok m') :
    ∃ m ps, Same m₀ m ∧ m.Linked ∧ m.Checked ∧ policy.resolve r m = .ok ps ∧
      outcome (lower ps) m = (.ok (), m') := by
  obtain ⟨m, ps, hm, hps, hlower⟩ := placeModel_finished h
  obtain ⟨hsame, hl, hc, -⟩ := finished_ok h₀ hm
  exact ⟨m, ps, hsame, hl, hc, hps, hlower⟩

/-- **What a compilation makes of a model.** -/
theorem placeModel_ok {m₀ m' : Model} {r : Registry} {policy : Policy} (h₀ : m₀.Built)
    (h : placeModel m₀ r policy = .ok m') :
    ∃ m ps copies s, policy.resolve r m = .ok ps ∧ Lowering m₀ m ps copies s m' := by
  obtain ⟨m, ps, hsame, hl, hc, hps, hlower⟩ := placeModel_lower h₀ h
  obtain ⟨copies, s, hlow⟩ := lower_lowering hsame h₀.sound.constants hl hc hlower
  exact ⟨m, ps, copies, s, hps, hlow⟩

end Model

end HeteroNet
