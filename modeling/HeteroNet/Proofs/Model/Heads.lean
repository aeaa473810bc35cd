import HeteroNet.Proofs.Plan.Visits

/-
Models that only move data. Following the writers of an operand back, one comes to an operand that
no operation writes (`Model.Head`), and if every operation on the way copies or reshapes, the
operand has the value of that one (`evaluate_head`). There is only one such operand, since each
operation has one input and each operand one writer.
-/

namespace HeteroNet

open Operation

/-- An operation that copies or reshapes gives the words it is given. -/
theorem Operation.moves_kernel {os : Operands} {op : Operation}
    (hkind : op.kind = .nop ∨ op.kind = .reshape) {k : Kernel} (hk : op.kernel os = .ok k)
    {x y : Buffer} {n : Nat} (hy : k.compute .nhwc [x] (Buffer.zeros n) = some y) : y = x := by
  have hreplace : ∀ {y}, (Buffer.zeros n).replace x = some y → y = x := by
    intro y hy
    unfold Buffer.replace at hy
    split at hy
    · exact (Option.some.inj hy).symm
    · cases hy
  cases ha : op.attributes with
  | nop =>
    simp only [Operation.kernel, ha, pure_eq_ok] at hk
    subst hk
    exact hreplace hy
  | reshape target =>
    simp only [Operation.kernel, ha, bind_eq_ok, pure_eq_ok] at hk
    obtain ⟨_, -, _, -, _, -, _, -, rfl⟩ := hk
    refine hreplace ?_
    simpa [Kernel.compute] using hy
  | _ =>
    rw [Operation.kind, ha] at hkind
    simp [Attributes.kind] at hkind

namespace Model

/-- Going back from writer to writer, operand `i` leads to operand `h`, which is not written. -/
inductive Head (m : Model) : OperandId → OperandId → Prop
  | unwritten {i : OperandId} : (∀ op ∈ m.operations, i ∉ op.outputs) → Head m i i
  | written {i j h : OperandId} {op : Operation} : op ∈ m.operations → i ∈ op.outputs →
    j ∈ op.inputs → Head m j h → Head m i h

variable {m₀ m s m' : Model} {ps : List Placement} {copies : Copies}
  {given : OperandId → Option Buffer} {i h h' : OperandId}

/-- Every operation reads one operand, and no two write the same. -/
structure Chained (m : Model) : Prop where
  moves : ∀ op ∈ m.operations, op.Moves m.operands
  unique : ∀ op ∈ m.operations, ∀ op' ∈ m.operations, ∀ i ∈ op.outputs, i ∈ op'.outputs → op = op'

theorem Lowering.chained (hlow : Lowering m₀ m ps copies s m')
    (hmoves : ∀ op ∈ m₀.operations, op.Moves m₀.operands) : m₀.Chained where
  moves := hmoves
  unique := by
    rw [← hlow.finished.operations]
    intro op hop op' hop' i hi hi'
    obtain ⟨j, hj⟩ := List.mem_iff_getElem?.1 hop
    obtain ⟨k, hk⟩ := List.mem_iff_getElem?.1 hop'
    obtain rfl := hlow.linked.writes_unique hlow.checked ⟨op, hj, hi⟩ ⟨op', hk, hi'⟩
    exact Option.some.inj (hj.symm.trans hk)

/-- Neither words nor a constant are given for what an operation writes. -/
theorem Lowering.unsupplied (hlow : Lowering m₀ m ps copies s m')
    (hgiven : ∀ i, (given i).isSome ↔ i ∈ m₀.inputs) {op : Operation} (hop : op ∈ m₀.operations)
    {i : OperandId} (hi : i ∈ op.outputs) {o : Operand} (ho : m₀.operands[i]? = some o) :
    o.data = none ∧ given i = none := by
  rw [← hlow.finished.operations] at hop
  obtain ⟨o₁, ho₁, -, -, hdata⟩ := hlow.finished.symm.operand ho
  obtain ⟨hnone, hinput⟩ := hlow.checked.written hop hi ho₁
  rw [hlow.finished.inputs, ← hgiven, Option.not_isSome_iff_eq_none] at hinput
  exact ⟨hdata.trans hnone, hinput⟩

/-- No operation writes a head. -/
theorem Head.last (hi : m.Head i h) : ∀ op ∈ m.operations, h ∉ op.outputs := by
  induction hi with
  | unwritten hnone => exact hnone
  | written _ _ _ _ ih => exact ih

/-- An operand has one head. -/
theorem Head.unique (hc : m.Chained) (hi : m.Head i h) (hi' : m.Head i h') : h' = h := by
  induction hi with
  | unwritten hnone =>
    cases hi' with
    | unwritten => rfl
    | written hop hout => exact absurd hout (hnone _ hop)
  | @written i j h op hop hout hj _ ih =>
    cases hi' with
    | unwritten hnone => exact absurd hout (hnone op hop)
    | @written _ j' _ op' hop' hout' hj' hrest =>
      obtain rfl := hc.unique op hop op' hop' i hout hout'
      obtain ⟨x, o, a, b, hinputs, -⟩ := hc.moves op hop
      rw [hinputs, List.mem_singleton] at hj hj'
      subst hj hj'
      exact ih hrest

/-- What is neither given nor constant has the value, and the element type, of what the operation that
writes it reads. -/
theorem evaluate_moved (hc : m.Chained)
    (hkind : ∀ op ∈ m.operations, op.kind = .nop ∨ op.kind = .reshape) {d : Nat} {i : OperandId}
    {o : Operand} {ws : Buffer} (hg : given i = none) (ho : m.operands[i]? = some o)
    (hd : o.data = none) (hws : m.evaluate given (d + 1) i = some ws) :
    ∃ op x a, op ∈ m.operations ∧ op.inputs = [x] ∧ op.outputs = [i] ∧
      m.operands[x]? = some a ∧ a.element = o.element ∧ m.evaluate given d x = some ws := by
  simp only [evaluate, hg, ho, hd, Option.bind_eq_bind, Option.bind_eq_some_iff] at hws
  obtain ⟨op, hfind, k, hk, xs, hxs, hws⟩ := hws
  have hop := List.mem_of_find?_eq_some hfind
  have hout : i ∈ op.outputs := by simpa using List.find?_some hfind
  obtain ⟨x, o', a, b, hinputs, houtputs, ha, hb, helement⟩ := hc.moves op hop
  rw [houtputs, List.mem_singleton] at hout
  subst hout
  rw [ho, Option.some.injEq] at hb
  subst hb
  rw [hinputs, mapM_eq_some] at hxs
  obtain ⟨y, _, hy, hnil, rfl⟩ := List.forall₂_cons_left_iff.1 hxs
  obtain rfl := List.forall₂_nil_left_iff.1 hnil
  have hk : op.kernel m.operands = .ok k := by
    revert hk
    cases op.kernel m.operands with
    | error e => exact fun hk => by cases hk
    | ok k' => exact fun hk => congrArg Except.ok (Option.some.inj hk)
  obtain rfl := moves_kernel (hkind op hop) hk hws
  exact ⟨op, x, a, hop, hinputs, houtputs, ha, helement, hy⟩

/-- **An operand has the value of its head**, and the type of its elements. -/
theorem evaluate_head (hc : m.Chained)
    (hkind : ∀ op ∈ m.operations, op.kind = .nop ∨ op.kind = .reshape)
    (hwritten : ∀ {op}, op ∈ m.operations → ∀ {i}, i ∈ op.outputs → ∀ {o},
      m.operands[i]? = some o → o.data = none ∧ given i = none) :
    ∀ {d : Nat} {i : OperandId} {o : Operand} {ws : Buffer}, m.operands[i]? = some o →
      m.evaluate given d i = some ws →
      ∃ h a, m.Head i h ∧ m.operands[h]? = some a ∧ a.element = o.element ∧
        m.evaluate given 1 h = some ws
  | 0, _, _, _, _, hws => by cases hws
  | d + 1, i, o, ws, ho, hws => by
    have hstart : (given i).isSome ∨ o.data.isSome → m.Head i i := fun hknown =>
      .unwritten fun op hop hi => by
        obtain ⟨hdata, hgiven⟩ := hwritten hop hi ho
        simp [hdata, hgiven] at hknown
    cases hg : given i with
    | some x =>
      rw [evaluate_given hg, Option.some.injEq] at hws
      exact ⟨i, o, hstart (.inl (by simp [hg])), ho, rfl, hws ▸ evaluate_given hg⟩
    | none =>
      cases hd : o.data with
      | some data =>
        rw [evaluate_constant hg ho hd, Option.some.injEq] at hws
        exact ⟨i, o, hstart (.inr (by simp [hd])), ho, rfl, hws ▸ evaluate_constant hg ho hd⟩
      | none =>
        obtain ⟨op, x, a, hop, hinputs, houtputs, ha, helement, hy⟩ :=
          evaluate_moved hc hkind hg ho hd hws
        obtain ⟨h, c, hhead, hcop, hce, hvalue⟩ := evaluate_head hc hkind hwritten ha hy
        exact ⟨h, c, .written hop (by simp [houtputs]) (by simp [hinputs]) hhead, hcop,
          hce.trans helement, hvalue⟩

end Model

end HeteroNet
