import HeteroNet.Proofs.Model.Built
import HeteroNet.Proofs.Model.Cycles

/-
Which models can be finished: the well-formed ones (`WellFormed`), and no others
(`finish_accepts`). Well-formedness speaks of what the caller declared, so it does not depend on the
links that an earlier attempt to finish has left behind.

The checks look at the links that the same call has just computed. `checked_iff` translates: a model
that is linked, and whose arities and slots the building calls have seen to (`Admitted`), passes the
checks if and only if it is well-formed. What is left is that linking a well-formed model succeeds,
and that among all complaints only those of the search name a cycle.
-/

namespace HeteroNet.Model

variable {m m' : Model}

/-- Operand `i` has data. -/
def Constant (m : Model) (i : OperandId) : Prop :=
  ∃ o, m.operands[i]? = some o ∧ o.isConstant = true

/-- The operations of a model make up a graph that can be run. -/
structure WellFormed (m : Model) : Prop where
  /-- Every operand that an operation names exists, be it as data, output or attribute. -/
  named : ∀ {op}, op ∈ m.operations → ∀ {i}, i ∈ op.operands → i < m.operands.length
  /-- An operand has one writer at most. -/
  single : ∀ {j k i}, m.Writes j i → m.Writes k i → j = k
  /-- Constants and model inputs have none. -/
  free : ∀ {j i}, m.Writes j i → ¬m.Constant i ∧ i ∉ m.inputs
  /-- What is read as data is written, constant or a model input. -/
  defined : ∀ {j i}, m.Reads j i → (∃ k, m.Writes k i) ∨ m.Constant i ∨ i ∈ m.inputs
  /-- A model output is written, or is a model input that some operation reads. -/
  attached : ∀ {i}, i ∈ m.outputs → (∃ k, m.Writes k i) ∨ (i ∈ m.inputs ∧ ∃ k, m.Reads k i)
  /-- No operation depends on its own result. -/
  acyclic : m.Acyclic

/-! ## Models that agree -/

theorem Same.constant (h : Same m m') {i : OperandId} (hi : m'.Constant i) : m.Constant i := by
  obtain ⟨o', ho', hdata⟩ := hi
  obtain ⟨o, ho, -, -, hd⟩ := h.operand ho'
  exact ⟨o, ho, by rwa [Operand.isConstant, ← hd]⟩

theorem Same.length (h : Same m m') : m'.operands.length = m.operands.length := by
  simpa using congrArg List.length h.operands

/-- Well-formedness is a matter of what a caller declared. -/
theorem Same.wellFormed (h : Same m m') (hw : m.WellFormed) : m'.WellFormed := by
  have hconstant : ∀ {i}, m'.Constant i ↔ m.Constant i := ⟨h.constant, h.symm.constant⟩
  have hlength := h.length
  obtain ⟨-, hops, hins, houts⟩ := h
  obtain ⟨os, ops, pl, ins, outs, ph⟩ := m
  obtain ⟨os', ops', pl', ins', outs', ph'⟩ := m'
  obtain rfl : ops' = ops := hops
  obtain rfl : ins' = ins := hins
  obtain rfl : outs' = outs := houts
  exact {
    named := fun hop _ hi => hlength.symm ▸ hw.named hop hi
    single := hw.single
    free := fun hj => (hw.free hj).imp_left fun hc hi => hc (hconstant.1 hi)
    defined := fun hj => (hw.defined hj).imp_right fun hi => hi.imp_left hconstant.2
    attached := hw.attached
    acyclic := hw.acyclic }

/-! ## What the building calls see to -/

/-- The arities fit the kinds, and the slots name operands. -/
structure Admitted (m : Model) : Prop where
  arity : ∀ {op}, op ∈ m.operations → op.checkArity = .ok ()
  slots : ∀ {i}, i ∈ m.inputs ++ m.outputs → i < m.operands.length

theorem Same.admitted (h : Same m m') (ha : m.Admitted) : m'.Admitted where
  arity := fun hop => ha.arity (h.operations ▸ hop)
  slots := by
    intro i hi
    rw [h.inputs, h.outputs] at hi
    exact h.length.symm ▸ ha.slots hi

theorem Admitted.addOperand (h : m.Admitted) (shape : Shape) (type : TypeInfo) :
    (outcome (addOperand shape type) m).2.Admitted := by
  rw [Model.addOperand, outcome_bind_of_ok (outcome_get m)]
  refine building_call h fun _ => ⟨h.arity, fun {x} hx => ?_⟩
  change x < (m.operands ++ [_]).length
  rw [List.length_append]
  exact Nat.lt_add_right _ (h.slots hx)

theorem Admitted.setValue (h : m.Admitted) (i : OperandId) (data : Bytes) :
    (outcome (setValue i data) m).2.Admitted := by
  rw [Model.setValue, outcome_bind_of_ok (outcome_get m)]
  refine building_call h fun _ => checked_call h fun o _ => ?_
  change (outcome (if data.length ≠ o.byteSize then _ else _ : Edit Unit) m).2.Admitted
  split
  · exact h
  · exact ⟨h.arity, fun hi => Nat.lt_of_lt_of_eq (h.slots hi) List.length_set.symm⟩

theorem Admitted.addOperation (h : m.Admitted) (op : Operation) :
    (outcome (addOperation op) m).2.Admitted := by
  rw [Model.addOperation, outcome_bind_of_ok (outcome_get m)]
  refine building_call h fun _ => checked_call h fun _ hop => ⟨fun hop' => ?_, h.slots⟩
  rcases List.mem_append.1 hop' with hop' | hop'
  · exact h.arity hop'
  · rw [List.mem_singleton.1 hop']
    exact hop

theorem Admitted.addInput (h : m.Admitted) (i : OperandId) :
    (outcome (addInput i) m).2.Admitted := by
  rw [Model.addInput, outcome_bind_of_ok (outcome_get m)]
  refine building_call h fun _ => checked_call h fun o ho => ⟨h.arity, fun {x} hx => ?_⟩
  have hi := (List.getElem?_eq_some_iff.1 (Operands.get_eq_ok.1 ho)).1
  change x ∈ (m.inputs ++ [i]) ++ m.outputs at hx
  simp only [List.mem_append, List.mem_singleton] at hx
  rcases hx with (hx | rfl) | hx
  · exact h.slots (List.mem_append_left _ hx)
  · exact hi
  · exact h.slots (List.mem_append_right _ hx)

theorem Admitted.addOutput (h : m.Admitted) (i : OperandId) :
    (outcome (addOutput i) m).2.Admitted := by
  rw [Model.addOutput, outcome_bind_of_ok (outcome_get m)]
  refine building_call h fun _ => checked_call h fun o ho => ⟨h.arity, fun {x} hx => ?_⟩
  have hi := (List.getElem?_eq_some_iff.1 (Operands.get_eq_ok.1 ho)).1
  change x ∈ m.inputs ++ (m.outputs ++ [i]) at hx
  simp only [List.mem_append, List.mem_singleton] at hx
  rcases hx with hx | hx | rfl
  · exact h.slots (List.mem_append_left _ hx)
  · exact h.slots (List.mem_append_right _ hx)
  · exact hi

theorem Built.admitted (h : m.Built) : m.Admitted := by
  induction h with
  | empty => exact ⟨fun hop => absurd hop List.not_mem_nil, fun hi => absurd hi List.not_mem_nil⟩
  | addOperand shape type _ ih => exact ih.addOperand shape type
  | setValue i data _ ih => exact ih.setValue i data
  | addOperation op _ ih => exact ih.addOperation op
  | addInput i _ ih => exact ih.addInput i
  | addOutput i _ ih => exact ih.addOutput i
  | finish _ ih => exact (keeps_finish _).admitted ih

/-! ## The checks of a linked model -/

theorem WellFormed.writes_lt (h : m.WellFormed) {j : OperationId} {i : OperandId}
    (hw : m.Writes j i) : i < m.operands.length := by
  obtain ⟨op, hop, hi⟩ := hw
  exact h.named (List.mem_of_getElem? hop) (by simp [Operation.operands, hi])

theorem Checked.writes_lt (h : m.Checked) {j : OperationId} {i : OperandId} (hw : m.Writes j i) :
    i < m.operands.length := by
  obtain ⟨op, hop, hi⟩ := hw
  exact h.output_lt (List.mem_of_getElem? hop) hi

/-- With one output an operation, one writer an operand means that no operand is listed twice as an
output. -/
theorem nodup_outputs (ha : m.Admitted)
    (hsingle : ∀ {j k i}, m.Writes j i → m.Writes k i → j = k) :
    (m.operations.flatMap (·.outputs)).Nodup := by
  refine List.nodup_flatMap.2 ⟨fun op hop => ?_, List.pairwise_iff_getElem.2 ?_⟩
  · obtain ⟨o, ho⟩ := Operation.outputs_of_checkArity (ha.arity hop)
    rw [ho]
    exact List.nodup_singleton o
  · intro j k hj hk hjk i hij hik
    exact Nat.ne_of_lt hjk (hsingle ⟨_, List.getElem?_eq_getElem hj, hij⟩
      ⟨_, List.getElem?_eq_getElem hk, hik⟩)

/-- Operand `i` of a linked model has a writer if and only if some operation writes it. -/
theorem Linked.isSome_writer (hl : m.Linked) {i : OperandId} {o : Operand}
    (ho : m.operands[i]? = some o) : o.writer.isSome ↔ ∃ k, m.Writes k i := by
  rw [Option.isSome_iff_exists]
  exact exists_congr fun k => hl.writer ho k

theorem Linked.uses_ne_nil (hl : m.Linked) {i : OperandId} {o : Operand}
    (ho : m.operands[i]? = some o) : o.uses ≠ [] ↔ ∃ k, m.Reads k i := by
  constructor
  · intro hne
    obtain ⟨k, hk⟩ := List.exists_mem_of_ne_nil _ hne
    exact ⟨k, (hl.uses ho k).1 hk⟩
  · rintro ⟨k, hk⟩
    exact List.ne_nil_of_mem ((hl.uses ho k).2 hk)

theorem constant_iff {i : OperandId} {o : Operand} (ho : m.operands[i]? = some o) :
    m.Constant i ↔ o.data.isSome = true := by
  simp [Constant, ho, Operand.isConstant]

/-- **A linked model passes the checks if and only if it is well-formed.** -/
theorem checked_iff (hl : m.Linked) (ha : m.Admitted) : m.Checked ↔ m.WellFormed := by
  constructor
  · intro hc
    have hread : ∀ {j i}, m.Reads j i → ∃ o, m.operands[i]? = some o ∧
        (o.writer.isSome ∨ o.data.isSome ∨ i ∈ m.inputs) := by
      rintro j i ⟨op, hop, hi⟩
      have ho := List.getElem?_eq_getElem (hc.input_lt (List.mem_of_getElem? hop) hi)
      exact ⟨_, ho, hc.read (List.mem_of_getElem? hop) hi ho⟩
    refine ⟨hc.named, hl.writes_unique hc, ?_, ?_, ?_, ?_⟩
    · rintro j i ⟨op, hop, hi⟩
      have ho := List.getElem?_eq_getElem (hc.output_lt (List.mem_of_getElem? hop) hi)
      obtain ⟨hdata, hinput⟩ := hc.written (List.mem_of_getElem? hop) hi ho
      rw [constant_iff ho, hdata]
      exact ⟨Bool.false_ne_true, hinput⟩
    · intro j i hj
      obtain ⟨o, ho, h⟩ := hread hj
      rwa [hl.isSome_writer ho, ← constant_iff ho] at h
    · intro i hi
      have ho := List.getElem?_eq_getElem (hc.given (List.mem_append_right _ hi))
      have h := hc.output hi ho
      rwa [hl.isSome_writer ho, hl.uses_ne_nil ho] at h
    · exact (checkAcyclic_iff hl hc.writes_lt).1 hc.acyclic
  · intro hw
    refine ⟨ha.arity, hw.named, ha.slots, nodup_outputs ha hw.single, ?_, ?_, ?_,
      (checkAcyclic_iff hl hw.writes_lt).2 hw.acyclic⟩
    · intro op hop i hi o ho
      obtain ⟨j, hj⟩ := List.mem_iff_getElem?.1 hop
      obtain ⟨hdata, hinput⟩ := hw.free ⟨op, hj, hi⟩
      rw [constant_iff ho, Option.not_isSome_iff_eq_none] at hdata
      exact ⟨hdata, hinput⟩
    · intro op hop i hi o ho
      obtain ⟨j, hj⟩ := List.mem_iff_getElem?.1 hop
      have h := hw.defined ⟨op, hj, hi⟩
      rwa [constant_iff ho, ← hl.isSome_writer ho] at h
    · intro i hi o ho
      have h := hw.attached hi
      rwa [← hl.isSome_writer ho, ← hl.uses_ne_nil ho] at h

/-! ## Complaints -/

/-- The complaint is about a cycle. -/
def NamesCycle (e : Error) : Prop := ∃ v, e = .graph (.cycle v)

theorem get_local {os : Operands} {i : OperandId} {e : Error} (h : os.get i = .error e) :
    ¬NamesCycle e := by
  rintro ⟨v, rfl⟩
  unfold Operands.get at h
  split at h <;> cases h

theorem checkIndices_local {e : Error} (h : m.checkIndices = .error e) : ¬NamesCycle e := by
  obtain h | ⟨_, -, h⟩ := bind_eq_error.1 h
  · obtain ⟨op, -, h⟩ := forM_eq_error h
    obtain h | ⟨_, -, h⟩ := bind_eq_error.1 h
    · rintro ⟨v, rfl⟩
      unfold Operation.checkArity at h
      split at h
      · cases h
      · split at h <;> cases h
    · obtain ⟨i, -, h⟩ := forM_eq_error h
      exact get_local (discard_eq_error.1 h)
  · obtain ⟨i, -, h⟩ := forM_eq_error h
    exact get_local (discard_eq_error.1 h)

theorem checkWriters_local {e : Error} : ∀ {written before : List OperandId},
    m.checkWriters written before = .error e → ¬NamesCycle e
  | [], _, h => by cases h
  | i :: rest, before, h => by
    obtain h | ⟨o, -, h⟩ := bind_eq_error.1 h
    · exact get_local h
    · split at h
      · rintro ⟨v, rfl⟩
        obtain h | ⟨_, h, -⟩ := bind_eq_error.1 h
        · cases throw_eq_error.1 h
        · exact throw_ne_ok h
      · exact checkWriters_local h

theorem checkRead_local {i : OperandId} {e : Error} (h : m.checkRead i = .error e) :
    ¬NamesCycle e := by
  obtain h | ⟨o, -, h⟩ := bind_eq_error.1 h
  · exact get_local h
  · rintro ⟨v, rfl⟩
    split at h
    · cases throw_eq_error.1 h
    · exact pure_ne_error h

theorem checkOutput_local {i : OperandId} {e : Error} (h : m.checkOutput i = .error e) :
    ¬NamesCycle e := by
  obtain h | ⟨o, -, h⟩ := bind_eq_error.1 h
  · exact get_local h
  · rintro ⟨v, rfl⟩
    split at h
    · generalize m.inputs.contains i = given, o.uses.isEmpty = unread at h
      cases given <;> cases unread <;>
        simp [bind_eq_error, throw_eq_error, throw_ne_ok, pure_ne_error] at h
    · exact pure_ne_error h

theorem link_local (m : Model) :
    Ends (outcome link m) (fun _ _ => True) (fun e _ => ¬NamesCycle e) := by
  refine Ends.bind (Ends.bind ?_)
  refine Ends.forM (fun _ _ => True) (fun _ p _ s _ _ => ?_) trivial
  refine Ends.bind ((Ends.forM (fun _ _ => True) (fun _ i _ s _ _ => ?_) trivial).mono
    (fun _ _ _ => Ends.forM (fun _ _ => True) (fun _ i _ s _ _ => ?_) trivial) fun _ _ he => he)
  · exact Ends.bind (Ends.bind (Ends.check (fun _ _ => trivial) fun _ he => get_local he))
  · refine Ends.bind (Ends.bind (Ends.check (fun o _ => ?_) fun _ he => get_local he))
    split
    · rintro ⟨v, hv⟩
      cases hv
    · trivial

/-- Only the search complains of a cycle. -/
theorem check_cycle {v : OperandId} (h : m.check = .error (.graph (.cycle v))) :
    m.checkAcyclic = .error (.graph (.cycle v)) := by
  obtain h | ⟨_, -, h⟩ := bind_eq_error.1 h
  · exact absurd ⟨v, rfl⟩ (checkIndices_local h)
  obtain h | ⟨_, -, h⟩ := bind_eq_error.1 h
  · exact absurd ⟨v, rfl⟩ (checkWriters_local h)
  obtain h | ⟨_, -, h⟩ := bind_eq_error.1 h
  · obtain h | ⟨_, -, h⟩ := bind_eq_error.1 h
    · obtain ⟨op, -, h⟩ := forM_eq_error h
      obtain ⟨i, -, h⟩ := forM_eq_error h
      exact absurd ⟨v, rfl⟩ (checkRead_local h)
    · obtain ⟨i, -, h⟩ := forM_eq_error h
      exact absurd ⟨v, rfl⟩ (checkOutput_local h)
  · exact h

/-! ## Finishing -/

theorem finish_iff : (∃ m', outcome finish m = (.ok (), m')) ↔ m.phase = .building ∧
    m.checkIndices = .ok () ∧ ∃ m₁, outcome link m = (.ok (), m₁) ∧ m₁.check = .ok () := by
  constructor
  · rintro ⟨m', h⟩
    simp only [finish, outcome_bind_ok, outcome_get, outcome_check, outcome_modify, Prod.mk.injEq,
      Except.ok.injEq] at h
    obtain ⟨_, _, ⟨rfl, rfl⟩, _, _, ⟨hphase, rfl⟩, _, _, ⟨rfl, rfl⟩, _, _, ⟨hindices, rfl⟩, _, m₁,
      hlink, _, _, ⟨rfl, rfl⟩, _, _, ⟨hcheck, rfl⟩, -, rfl⟩ := h
    exact ⟨requirePhase_ok.1 hphase, hindices, m₁, hlink, hcheck⟩
  · rintro ⟨hphase, hindices, m₁, hlink, hcheck⟩
    refine ⟨{ m₁ with phase := .finished }, ?_⟩
    rw [finish, outcome_bind_of_ok (outcome_get m),
      outcome_bind_of_ok (outcome_check_of_ok (requirePhase_ok.2 hphase) m),
      outcome_bind_of_ok (outcome_get m), outcome_bind_of_ok (outcome_check_of_ok hindices m),
      outcome_bind_of_ok hlink, outcome_bind_of_ok (outcome_get m₁),
      outcome_bind_of_ok (outcome_check_of_ok hcheck m₁), outcome_modify]

/-- Linking a well-formed model succeeds, and what it makes passes the checks. -/
theorem WellFormed.link (h : m.WellFormed) (ha : m.Admitted) :
    ∃ m₁, outcome link m = (.ok (), m₁) ∧ m₁.Linked ∧ m₁.Checked := by
  obtain ⟨m₁, hm₁⟩ := link_total (fun op hop i hi => h.named hop (by
    rw [Operation.operands]
    exact List.mem_append_left _ hi)) (nodup_outputs ha h.single)
  have hk := keeps_link.of_eq hm₁
  have hl := link_ok hm₁
  exact ⟨m₁, hm₁, hl, (checked_iff hl (hk.same.admitted ha)).2 (hk.same.wellFormed h)⟩

/-- Operands on a cycle are so whatever the links say. -/
theorem Relinked.onCycle (h : Relinked m m') {v : OperandId} (hv : m'.OnCycle v) : m.OnCycle v := by
  obtain ⟨-, hops, -⟩ := h
  obtain ⟨os, ops, pl, ins, outs, ph⟩ := m
  obtain ⟨os', ops', pl', ins', outs', ph'⟩ := m'
  obtain rfl : ops' = ops := hops
  exact hv

theorem finish_cycle (hphase : m.phase = .building) {v : OperandId}
    (h : outcome finish m = (.error (.graph (.cycle v)), m')) : m.OnCycle v := by
  rw [finish, outcome_bind_of_ok (outcome_get m),
    outcome_bind_of_ok (outcome_check_of_ok (requirePhase_ok.2 hphase) m),
    outcome_bind_of_ok (outcome_get m)] at h
  obtain h | ⟨_, _, hindices, h⟩ := outcome_bind_error.1 h
  · exact absurd ⟨v, rfl⟩ (checkIndices_local (congrArg Prod.fst h))
  rw [outcome_check, Prod.mk.injEq] at hindices
  obtain ⟨hindices, rfl⟩ := hindices
  have hindices := checkIndices_ok.1 hindices
  obtain h | ⟨_, m₁, hlink, h⟩ := outcome_bind_error.1 h
  · have hlocal := link_local m
    rw [h] at hlocal
    exact absurd ⟨v, rfl⟩ hlocal
  rw [outcome_bind_of_ok (outcome_get m₁)] at h
  obtain h | ⟨_, _, -, ⟨⟩⟩ := outcome_bind_error.1 h
  have hk := keeps_link.of_eq hlink
  have hwrites : ∀ {j i}, m₁.Writes j i → i < m₁.operands.length := by
    rintro j i ⟨op, hop, hi⟩
    rw [hk.operations] at hop
    rw [hk.length]
    exact (hindices.1 op (List.mem_of_getElem? hop)).2 i (by simp [Operation.operands, hi])
  obtain ⟨via, he, hcycle⟩ := checkAcyclic_error (link_ok hlink) hwrites
    (check_cycle (congrArg Prod.fst h))
  cases he
  exact hk.onCycle hcycle

/-- **Finishing accepts exactly the well-formed models**, among all models that calls of a caller
lead to. When it complains of a cycle, the operand it names lies on one. -/
theorem finish_accepts (h : m.Built) (hphase : m.phase = .building) :
    ((∃ m', finish.on m = (.ok (), m')) ↔ m.WellFormed) ∧
      ∀ v m', finish.on m = (.error (.graph (.cycle v)), m') → m.OnCycle v := by
  have ha := h.admitted
  refine ⟨finish_iff.trans ⟨?_, fun hw => ?_⟩, fun v m' => finish_cycle hphase⟩
  · rintro ⟨-, -, m₁, hlink, hcheck⟩
    have hk := keeps_link.of_eq hlink
    have hw := (checked_iff (link_ok hlink) (hk.same.admitted ha)).1 (check_ok.1 hcheck)
    exact hk.same.symm.wellFormed hw
  · obtain ⟨m₁, hlink, -, hc⟩ := hw.link ha
    refine ⟨hphase, checkIndices_ok.2 ⟨fun op hop => ⟨ha.arity hop, fun i hi => hw.named hop hi⟩,
      fun i hi => ha.slots hi⟩, m₁, hlink, check_ok.2 hc⟩

/-- Two operations that read each other's results, and a third that reads none of them. -/
def looped : Model :=
  let row : Edit OperandId := addOperand [1, 2] { element := .float32 }
  (addInput 0).on ((addOperation ⟨[2], [1], .nop⟩).on ((addOperation ⟨[1], [2], .nop⟩).on
    ((addOperation ⟨[0], [3], .nop⟩).on
      (row.on (row.on (row.on (row.on {}).2).2).2).2).2).2).2 |>.2

theorem looped_built : looped.Built :=
  .addInput 0 (.addOperation _ (.addOperation _ (.addOperation _
    (.addOperand _ _ (.addOperand _ _ (.addOperand _ _ (.addOperand _ _ .empty)))))))

/-- Both of the operands between the two lie on the cycle; the one that closes it is named. -/
theorem finish_refuses_looped : ¬looped.WellFormed ∧ looped.OnCycle 1 := by
  have hfinish : finish.on looped = (.error (.graph (.cycle 1)), (finish.on looped).2) :=
    outcome_eq (by decide +kernel)
  obtain ⟨haccepts, hcycle⟩ := finish_accepts looped_built (by decide +kernel)
  refine ⟨fun hw => ?_, hcycle 1 _ hfinish⟩
  obtain ⟨m', hm'⟩ := haccepts.2 hw
  rw [hfinish] at hm'
  cases hm'

end HeteroNet.Model
