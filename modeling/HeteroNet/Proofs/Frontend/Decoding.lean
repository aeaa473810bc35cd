import HeteroNet.Proofs.Frontend.Atomicity
import HeteroNet.Proofs.Model.Checked

/-
Which lists of operands a builder takes for the code of an operation, and what it makes of them.
A list is counted three times: decoding compares it with the code, a concatenation with itself
alone, and the model counts the data that decoding has left. `takes_iff` is where the counts meet:
the data that remains behind no attributes must be what the kind admits.
-/

namespace HeteroNet

open Model

theorem OperationCode.ofCode?_eq_some {code : Int} {c : OperationCode} :
    ofCode? code = some c ↔ c.code = code := by
  constructor
  · intro h
    simpa using List.find?_some h
  · rintro rfl
    exact ofCode?_code c

namespace ModelBuilder

variable {c : OperationCode} {code : Int} {ins outs : List OperandId} {op : Operation} {m : Model}

/-- How many operands an operation of a code lists as inputs: data, and attributes behind them. -/
def Takes : OperationCode → Nat → Prop
  | .conv2d, n | .maxPool2d, n | .averagePool2d, n => n = 7
  | .fullyConnected, n => n = 4
  | .add, n => n = 3
  | .reshape, n | .softmax, n => n = 2
  | .castEx, n => n = 1
  | .concatenation, n => 2 ≤ n

/-- The operation is what a caller means by a code and two lists: no operand is lost, none changes
its place. -/
structure Decodes (c : OperationCode) (ins outs : List OperandId) (op : Operation) : Prop where
  kind : op.kind = c.kind
  inputs : op.inputs ++ op.params = ins
  outputs : op.outputs = outs
  attributes : op.params.length = attributeCount c

/-- A list is as long as the code asks for exactly if the kind admits what is left of it behind no
attributes. -/
theorem takes_iff (c : OperationCode) (n : Nat) :
    Takes c n ↔ attributeCount c ≤ n ∧ c.kind.admits (n - attributeCount c) = true := by
  cases c <;> simp [Takes, attributeCount, OperationCode.kind, Kind.admits] <;> omega

theorem takes_eq (hc : c ≠ .concatenation) (n : Nat) :
    Takes c n ↔ n = dataCount c + attributeCount c := by
  cases c with
  | concatenation => exact absurd rfl hc
  | _ => rfl

/-! ## Decoding -/

theorem checkCounts_ok {kind : Kind} {n : Nat} :
    checkCounts kind n ins outs = .ok () ↔ ins.length = n ∧ outs.length = 1 := by
  unfold checkCounts
  split
  · simp_all
  · split <;> simp_all

/-- As many operands as a kind has attributes are its attributes, in their order. -/
theorem ofOperands?_of_length (hc : c ≠ .concatenation) {is : List OperandId}
    (h : is.length = attributeCount c) :
    ∃ a, Attributes.ofOperands? c.kind is = some a ∧ a.kind = c.kind ∧ a.operands = is := by
  cases c with
  | concatenation => exact absurd rfl hc
  | castEx =>
    obtain rfl := List.length_eq_zero_iff.1 h
    exact ⟨_, rfl, rfl, rfl⟩
  | conv2d =>
    match is, h with
    | [_, _, _, _], _ => exact ⟨_, rfl, rfl, rfl⟩
  | maxPool2d | averagePool2d =>
    match is, h with
    | [_, _, _, _, _, _], _ => exact ⟨_, rfl, rfl, rfl⟩
  | add | fullyConnected | reshape | softmax =>
    obtain ⟨i, rfl⟩ := List.length_eq_one_iff.1 h
    exact ⟨_, rfl, rfl, rfl⟩

theorem decode_fixed (hc : c ≠ .concatenation) (h : OperationCode.ofCode? code = some c)
    (hins : ins.length = dataCount c + attributeCount c) (houts : outs.length = 1) :
    ∃ op, decode code ins outs = .ok op ∧ Decodes c ins outs op := by
  have hdrop : (ins.drop (dataCount c)).length = attributeCount c := by
    rw [List.length_drop]
    omega
  obtain ⟨a, ha, hkind, hoperands⟩ := ofOperands?_of_length hc hdrop
  refine ⟨⟨ins.take (dataCount c), outs, a⟩, ?_, hkind, ?_, rfl, ?_⟩
  · have hcounts : checkCounts c.kind (dataCount c + attributeCount c) ins outs = .ok () :=
      checkCounts_ok.2 ⟨hins, houts⟩
    rw [decode, h]
    cases c with
    | concatenation => exact absurd rfl hc
    | _ =>
      simp only [hcounts, ha]
      rfl
  · rw [Operation.params, hoperands, List.take_append_drop]
  · rw [Operation.params, hoperands, hdrop]

theorem decode_concatenation (h : OperationCode.ofCode? code = some .concatenation)
    (hins : ins ≠ []) (houts : outs.length = 1) :
    ∃ op, decode code ins outs = .ok op ∧ Decodes .concatenation ins outs op := by
  refine ⟨⟨ins.dropLast, outs, .concat (ins.getLast hins)⟩, ?_, rfl, ?_, rfl, rfl⟩
  · rw [decode, h]
    simp only [decodeConcat, List.getLast?_eq_some_getLast hins]
    rw [checkCounts_ok.2 ⟨rfl, houts⟩]
    rfl
  · exact List.dropLast_append_getLast hins

/-- What decoding accepts, it sorts out as the caller means it. -/
theorem decode_ok (h : decode code ins outs = .ok op) :
    ∃ c, OperationCode.ofCode? code = some c ∧ outs.length = 1 ∧ Decodes c ins outs op := by
  cases hcode : OperationCode.ofCode? code with
  | none =>
    rw [decode, hcode] at h
    cases h
  | some c =>
    suffices hdecoded : outs.length = 1 ∧ ∃ op', decode code ins outs = .ok op' ∧
        Decodes c ins outs op' by
      obtain ⟨houts, op', hop', hdecodes⟩ := hdecoded
      cases hop'.symm.trans h
      exact ⟨c, rfl, houts, hdecodes⟩
    by_cases hc : c = .concatenation
    · subst hc
      rw [decode, hcode] at h
      have hins : ins ≠ [] := by
        rintro rfl
        cases h
      simp only [decodeConcat, List.getLast?_eq_some_getLast hins, bind_eq_ok] at h
      obtain ⟨_, hcounts, -⟩ := h
      have houts := (checkCounts_ok.1 hcounts).2
      exact ⟨houts, decode_concatenation hcode hins houts⟩
    · have hcounts : checkCounts c.kind (dataCount c + attributeCount c) ins outs = .ok () := by
        rw [decode, hcode] at h
        cases c with
        | concatenation => exact absurd rfl hc
        | _ => exact (check_bind_eq_ok.1 h).1
      obtain ⟨hins, houts⟩ := checkCounts_ok.1 hcounts
      exact ⟨houts, decode_fixed hc hcode hins houts⟩

theorem exists_decode (h : OperationCode.ofCode? code = some c) (hins : Takes c ins.length)
    (houts : outs.length = 1) : ∃ op, decode code ins outs = .ok op := by
  by_cases hc : c = .concatenation
  · subst hc
    have hne : ins ≠ [] := by
      rintro rfl
      simp [Takes] at hins
    obtain ⟨op, hop, -⟩ := decode_concatenation h hne houts
    exact ⟨op, hop⟩
  · obtain ⟨op, hop, -⟩ := decode_fixed hc h ((takes_eq hc _).1 hins) houts
    exact ⟨op, hop⟩

/-! ## Adding the operation -/

/-- The model admits what is decoded exactly if the list is as long as the code asks for. -/
theorem Decodes.checkArity_ok (h : Decodes c ins outs op) :
    op.checkArity = .ok () ↔ Takes c ins.length ∧ outs.length = 1 := by
  have hlength : ins.length = op.inputs.length + attributeCount c := by
    rw [← h.inputs, List.length_append, h.attributes]
  rw [Operation.checkArity_ok, h.kind, h.outputs, takes_iff, hlength]
  simp

theorem outcome_addOperation (hb : m.phase = .building) (op : Operation) :
    outcome (Model.addOperation op) m
      = (op.checkArity.map fun _ => m.operations.length,
          if op.checkArity = .ok () then { m with operations := m.operations ++ [op] } else m) := by
  rw [Model.addOperation, outcome_bind_of_ok (outcome_get m),
    outcome_bind_of_ok (outcome_check_of_ok (requirePhase_ok.2 hb) m)]
  cases harity : op.checkArity with
  | error e => rfl
  | ok u => rfl

theorem addOperation_ok (hb : m.phase = .building) :
    (report (ModelBuilder.addOperation code ins outs) m).1 = .noError ↔
      ∃ op, decode code ins outs = .ok op ∧ op.checkArity = .ok () := by
  rw [report_eq, ResultCode.ofResult_eq_noError, ModelBuilder.addOperation]
  cases hdecode : decode code ins outs with
  | error e => simp [outcome_bind]
  | ok op =>
    rw [outcome_bind_of_ok (outcome_check_of_ok rfl m), outcome_addOperation hb]
    cases harity : op.checkArity <;> simp [Except.map, harity]

theorem addOperation_appends (hb : m.phase = .building) (hdecode : decode code ins outs = .ok op)
    (harity : op.checkArity = .ok ()) :
    (report (ModelBuilder.addOperation code ins outs) m).2
      = { m with operations := m.operations ++ [op] } := by
  rw [report_eq, ModelBuilder.addOperation, hdecode,
    outcome_bind_of_ok (outcome_check_of_ok rfl m), outcome_addOperation hb, if_pos harity]

/-- **What a builder makes of the code of an operation and its operands.** While a model is built,
the call is taken exactly if the code is known, one output is listed, and as many inputs as the code
asks for. Then one operation is appended: its kind is that of the code, its data and behind them its
attributes are the inputs as they were listed, and its outputs are the ones listed. -/
theorem addOperation_decodes (m : Model) (hb : m.phase = .building) (code : Int)
    (ins outs : List OperandId) :
    ((report (ModelBuilder.addOperation code ins outs) m).1 = .noError ↔
      ∃ c : OperationCode, c.code = code ∧ outs.length = 1 ∧ Takes c ins.length) ∧
    ∀ c : OperationCode, c.code = code →
      (report (ModelBuilder.addOperation code ins outs) m).1 = .noError →
        ∃ op, (report (ModelBuilder.addOperation code ins outs) m).2
            = { m with operations := m.operations ++ [op] } ∧
          op.kind = c.kind ∧ op.inputs ++ op.params = ins ∧ op.outputs = outs := by
  refine ⟨?_, fun c hcode hok => ?_⟩
  · rw [addOperation_ok hb]
    constructor
    · rintro ⟨op, hdecode, harity⟩
      obtain ⟨c, hcode, houts, hdecodes⟩ := decode_ok hdecode
      exact ⟨c, OperationCode.ofCode?_eq_some.1 hcode, houts, (hdecodes.checkArity_ok.1 harity).1⟩
    · rintro ⟨c, hcode, houts, hins⟩
      have hcode := OperationCode.ofCode?_eq_some.2 hcode
      obtain ⟨op, hdecode⟩ := exists_decode hcode hins houts
      obtain ⟨c', hcode', -, hdecodes⟩ := decode_ok hdecode
      cases hcode.symm.trans hcode'
      exact ⟨op, hdecode, hdecodes.checkArity_ok.2 ⟨hins, houts⟩⟩
  · obtain ⟨op, hdecode, harity⟩ := (addOperation_ok hb).1 hok
    obtain ⟨c', hcode', -, hdecodes⟩ := decode_ok hdecode
    cases (OperationCode.ofCode?_eq_some.2 hcode).symm.trans hcode'
    exact ⟨op, addOperation_appends hb hdecode harity, hdecodes.kind, hdecodes.inputs,
      hdecodes.outputs⟩

/-- Three rows and an axis: the axis is the last operand of a concatenation. -/
theorem addOperation_decodes_concat :
    ∃ op : Operation, (report (ModelBuilder.addOperation 2 [0, 1, 2, 7] [3]) {}).2
        = { ({} : Model) with operations := [op] } ∧
      op.kind = .concat ∧ op.inputs ++ op.params = [0, 1, 2, 7] ∧ op.outputs = [3] := by
  obtain ⟨hiff, happends⟩ := addOperation_decodes {} rfl 2 [0, 1, 2, 7] [3]
  exact happends .concatenation rfl (hiff.2 ⟨.concatenation, rfl, rfl, by simp [Takes]⟩)

end ModelBuilder

end HeteroNet
