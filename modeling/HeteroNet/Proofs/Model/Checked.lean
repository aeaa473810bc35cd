import HeteroNet.Model.Check
import HeteroNet.Proofs.Model.Links
import HeteroNet.Proofs.Model.Search

/-
What a model that passes the checks is known to be: the operands it names exist, every operand has
at most one writer and no constant or model input has one, and what is read or given out is
written, constant or a model input. `finish_ok` says that a finished model is linked and checked.
-/

namespace HeteroNet

/-! ## Arity -/

theorem Operation.checkArity_ok {op : Operation} :
    op.checkArity = .ok () ↔ op.kind.admits op.inputs.length = true ∧ op.outputs.length = 1 := by
  unfold Operation.checkArity
  split
  · rename_i h
    simp_all
  · split
    · rename_i h
      simp [h]
    · rename_i h₁ h₂
      simp only [Bool.not_eq_true', Bool.not_eq_false] at h₁
      simp only [ne_eq, Decidable.not_not] at h₂
      simp [h₁, h₂]

theorem Operation.outputs_of_checkArity {op : Operation} (h : op.checkArity = .ok ()) :
    ∃ o, op.outputs = [o] :=
  List.length_eq_one_iff.1 (Operation.checkArity_ok.1 h).2

namespace Model

/-- What the checks of a model establish. -/
structure Checked (m : Model) : Prop where
  arity : ∀ {op}, op ∈ m.operations → op.checkArity = .ok ()
  named : ∀ {op}, op ∈ m.operations → ∀ {i}, i ∈ op.operands → i < m.operands.length
  given : ∀ {i}, i ∈ m.inputs ++ m.outputs → i < m.operands.length
  single : (m.operations.flatMap (·.outputs)).Nodup
  written : ∀ {op}, op ∈ m.operations → ∀ {i}, i ∈ op.outputs → ∀ {o}, m.operands[i]? = some o →
    o.data = none ∧ i ∉ m.inputs
  read : ∀ {op}, op ∈ m.operations → ∀ {i}, i ∈ op.inputs → ∀ {o}, m.operands[i]? = some o →
    o.writer.isSome ∨ o.data.isSome ∨ i ∈ m.inputs
  output : ∀ {i}, i ∈ m.outputs → ∀ {o}, m.operands[i]? = some o →
    o.writer.isSome ∨ (i ∈ m.inputs ∧ o.uses ≠ [])
  acyclic : m.checkAcyclic = .ok ()

/-! ## The single checks -/

theorem discard_get_ok {os : Operands} {i : OperandId} :
    discard (os.get i) = .ok () ↔ i < os.length := by
  simp only [discard_eq_ok, Operands.get_eq_ok, List.getElem?_eq_some_iff]
  exact ⟨fun ⟨_, hi, _⟩ => hi, fun hi => ⟨_, hi, rfl⟩⟩

theorem checkIndices_ok {m : Model} : m.checkIndices = .ok () ↔
    (∀ op ∈ m.operations, op.checkArity = .ok () ∧ ∀ i ∈ op.operands, i < m.operands.length) ∧
      ∀ i ∈ m.inputs ++ m.outputs, i < m.operands.length := by
  simp only [checkIndices, check_bind_eq_ok, forM_eq_ok, discard_get_ok]

/-- The written operands differ from each other and from those written before, and none is
constant or a model input. -/
theorem checkWriters_ok {m : Model} : ∀ {written before : List OperandId},
    m.checkWriters written before = .ok () ↔
      written.Nodup ∧ ∀ i ∈ written, i ∉ before ∧ i ∉ m.inputs ∧
        ∃ o, m.operands[i]? = some o ∧ o.data = none
  | [], _ => by simp [checkWriters]
  | i :: rest, before => by
    rw [checkWriters, bind_eq_ok, List.nodup_cons, List.forall_mem_cons]
    have hrest : ∀ j ∈ rest, j ∉ i :: before ↔ ¬j = i ∧ j ∉ before := by simp
    constructor
    · rintro ⟨o, ho, h⟩
      split at h
      · obtain ⟨_, h, -⟩ := bind_eq_ok.1 h
        exact absurd h throw_ne_ok
      · rename_i hc
        simp only [Bool.or_eq_true, not_or, List.contains_eq_mem, decide_eq_true_eq,
          Operand.isConstant, Bool.not_eq_true, Option.isSome_eq_false_iff,
          Option.isNone_iff_eq_none] at hc
        obtain ⟨⟨hdata, hinput⟩, hbefore⟩ := hc
        obtain ⟨hn, hr⟩ := checkWriters_ok.1 h
        refine ⟨⟨fun hi => (hr i hi).1 List.mem_cons_self, hn⟩,
          ⟨hbefore, hinput, o, Operands.get_eq_ok.1 ho, hdata⟩, fun j hj => ?_⟩
        exact ⟨((hrest j hj).1 (hr j hj).1).2, (hr j hj).2⟩
    · rintro ⟨⟨hi, hn⟩, ⟨hbefore, hinput, o, ho, hdata⟩, hr⟩
      refine ⟨o, Operands.get_eq_ok.2 ho, ?_⟩
      simp only [Operand.isConstant, hdata, Option.isSome_none, List.contains_eq_mem, hinput,
        hbefore, decide_false, Bool.or_false, Bool.false_eq_true, if_false]
      exact checkWriters_ok.2 ⟨hn, fun j hj =>
        ⟨(hrest j hj).2 ⟨fun he => hi (he ▸ hj), (hr j hj).1⟩, (hr j hj).2⟩⟩

theorem checkRead_ok {m : Model} {i : OperandId} : m.checkRead i = .ok () ↔
    ∃ o, m.operands[i]? = some o ∧ (o.writer.isSome ∨ o.data.isSome ∨ i ∈ m.inputs) := by
  simp only [checkRead, bind_eq_ok, Operands.get_eq_ok, Operand.isConstant, List.contains_eq_mem]
  refine exists_congr fun o => and_congr_right fun _ => ?_
  cases o.writer <;> cases o.data <;> by_cases hi : i ∈ m.inputs <;>
    simp [hi, pure_eq_ok, throw_ne_ok]

theorem checkOutput_ok {m : Model} {i : OperandId} : m.checkOutput i = .ok () ↔
    ∃ o, m.operands[i]? = some o ∧ (o.writer.isSome ∨ (i ∈ m.inputs ∧ o.uses ≠ [])) := by
  simp only [checkOutput, bind_eq_ok, Operands.get_eq_ok, List.contains_eq_mem]
  refine exists_congr fun o => and_congr_right fun _ => ?_
  cases o.writer <;> by_cases hi : i ∈ m.inputs <;> cases o.uses <;>
    simp [hi, pure_eq_ok, throw_ne_ok, bind_eq_ok]

/-! ## All checks -/

theorem check_ok {m : Model} : m.check = .ok () ↔ m.Checked := by
  simp only [check, check_bind_eq_ok, checkIndices_ok, checkSingleWriter, checkWriters_ok,
    checkDefined, forM_eq_ok, checkRead_ok, checkOutput_ok]
  constructor
  · rintro ⟨⟨hops, hgiven⟩, ⟨hsingle, hwritten⟩, ⟨hreads, houtputs⟩, hacyclic⟩
    refine ⟨fun hop => (hops _ hop).1, fun hop _ hi => (hops _ hop).2 _ hi, fun hi => hgiven _ hi,
      hsingle, ?_, ?_, ?_, hacyclic⟩
    · intro op hop i hi o ho
      obtain ⟨-, hinput, o', ho', hdata⟩ := hwritten i (List.mem_flatMap.2 ⟨op, hop, hi⟩)
      rw [ho, Option.some.injEq] at ho'
      exact ⟨ho' ▸ hdata, hinput⟩
    · intro op hop i hi o ho
      obtain ⟨o', ho', hread⟩ := hreads op hop i hi
      rw [ho, Option.some.injEq] at ho'
      exact ho' ▸ hread
    · intro i hi o ho
      obtain ⟨o', ho', hout⟩ := houtputs i hi
      rw [ho, Option.some.injEq] at ho'
      exact ho' ▸ hout
  · intro h
    have hoperand : ∀ {i}, i < m.operands.length → ∃ o, m.operands[i]? = some o :=
      fun hi => ⟨_, List.getElem?_eq_getElem hi⟩
    refine ⟨⟨fun op hop => ⟨h.arity hop, fun i hi => h.named hop hi⟩, fun i hi => h.given hi⟩,
      ⟨h.single, fun i hi => ?_⟩, ⟨fun op hop i hi => ?_, fun i hi => ?_⟩, h.acyclic⟩
    · obtain ⟨op, hop, hi⟩ := List.mem_flatMap.1 hi
      obtain ⟨o, ho⟩ := hoperand (h.named hop (i := i) (by simp [Operation.operands, hi]))
      obtain ⟨hdata, hinput⟩ := h.written hop hi ho
      exact ⟨List.not_mem_nil, hinput, o, ho, hdata⟩
    · obtain ⟨o, ho⟩ := hoperand (h.named hop (i := i) (by simp [Operation.operands, hi]))
      exact ⟨o, ho, h.read hop hi ho⟩
    · obtain ⟨o, ho⟩ := hoperand (h.given (List.mem_append_right _ hi))
      exact ⟨o, ho, h.output hi ho⟩

namespace Checked

variable {m : Model}

theorem output_eq (h : m.Checked) {op : Operation} (hop : op ∈ m.operations) :
    ∃ o, op.outputs = [o] :=
  Operation.outputs_of_checkArity (h.arity hop)

theorem input_lt (h : m.Checked) {op : Operation} (hop : op ∈ m.operations) {i : OperandId}
    (hi : i ∈ op.inputs) : i < m.operands.length :=
  h.named hop (by simp [Operation.operands, hi])

theorem output_lt (h : m.Checked) {op : Operation} (hop : op ∈ m.operations) {i : OperandId}
    (hi : i ∈ op.outputs) : i < m.operands.length :=
  h.named hop (by simp [Operation.operands, hi])

/-- The checks do not look at the phase. -/
theorem withPhase (h : m.Checked) (p : Phase) : Checked { m with phase := p } where
  arity := h.arity
  named := h.named
  given := h.given
  single := h.single
  written := h.written
  read := h.read
  output := h.output
  acyclic := by
    have hsame : Search.all { m with phase := p } = Search.all m :=
      funext fun onOpen => @Search.all_congr m { m with phase := p } rfl rfl onOpen
    rw [checkAcyclic, hsame]
    exact h.acyclic

end Checked

theorem Linked.withPhase {m : Model} (h : m.Linked) (p : Phase) : Linked { m with phase := p } :=
  ⟨h.uses, h.writer⟩

/-- An operand has one writer at most. -/
theorem Linked.writes_unique {m : Model} (h : m.Linked) (hc : m.Checked) {i : OperandId}
    {j k : OperationId} (hj : m.Writes j i) (hk : m.Writes k i) : j = k := by
  obtain ⟨op, hop, hi⟩ := hj
  obtain ⟨o, ho⟩ : ∃ o, m.operands[i]? = some o :=
    ⟨_, List.getElem?_eq_getElem (hc.output_lt (List.mem_of_getElem? hop) hi)⟩
  have hj := (h.writer ho j).2 ⟨op, hop, hi⟩
  have hk := (h.writer ho k).2 hk
  rw [hj] at hk
  exact Option.some.inj hk

/-! ## Finished models -/

theorem requirePhase_ok {m : Model} {p : Phase} : m.requirePhase p = .ok () ↔ m.phase = p := by
  unfold requirePhase
  split <;> simp_all

/-- Finishing a model links it, checks it and changes its phase. -/
theorem finish_ok {m m' : Model} (h : outcome finish m = (.ok (), m')) :
    ∃ m₁, outcome link m = (.ok (), m₁) ∧ m₁.check = .ok () ∧
      m' = { m₁ with phase := .finished } := by
  simp only [finish, outcome_bind_ok, outcome_get, outcome_check, outcome_modify, Prod.mk.injEq,
    Except.ok.injEq] at h
  obtain ⟨_, _, ⟨rfl, rfl⟩, _, _, ⟨-, rfl⟩, _, _, ⟨rfl, rfl⟩, _, _, ⟨-, rfl⟩, _, m₁, hlink, _, _,
    ⟨rfl, rfl⟩, _, _, ⟨hcheck, rfl⟩, -, rfl⟩ := h
  exact ⟨m₁, hlink, hcheck, rfl⟩

/-- A finished model is linked and checked. -/
theorem finish_linked {m m' : Model} (h : outcome finish m = (.ok (), m')) :
    m'.Linked ∧ m'.Checked ∧ m'.phase = .finished := by
  obtain ⟨m₁, hlink, hcheck, rfl⟩ := finish_ok h
  exact ⟨(link_ok hlink).withPhase .finished, (check_ok.1 hcheck).withPhase .finished, rfl⟩

end Model

end HeteroNet
