import HeteroNet.Compile
import HeteroNet.Proofs.Plan.Draft
import HeteroNet.Proofs.Verdict

/-
Planning fails with a verdict, if it fails. Checks and stages read data inputs by their number, and
the check of the arity comes first: it leaves each kind with the inputs that its own checks read. A
tensor constraint is always the operand's own shape, so that recording it again agrees with what was
recorded before.
-/

namespace HeteroNet

variable {α β : Type}

/-- The call returns or fails with a verdict; it does not reach outside of a list. -/
abbrev Decides (x : Except Failure α) : Prop := Fails Failure.IsVerdict x

namespace Operation

@[simp] theorem decides_input {op : Operation} {role : Nat} :
    Decides (op.input role) ↔ role < op.inputs.length := by
  unfold input
  split
  · rename_i hi
    exact iff_of_true (fails_ok _) (List.getElem?_eq_some_iff.1 hi).1
  · simp_all [Failure.IsVerdict]

@[simp] theorem decides_output {op : Operation} : Decides op.output ↔ 0 < op.outputs.length := by
  unfold output
  split
  · rename_i hi
    exact iff_of_true (fails_ok _) (List.getElem?_eq_some_iff.1 hi).1
  · simp_all [Failure.IsVerdict]

end Operation

/-- The kind takes `n` data inputs. -/
def Kind.Takes (k : Kind) (n : Nat) : Prop :=
  match k with
  | .conv2d | .fullyConnected => n = 3
  | .add => n = 2
  | .concat => 1 ≤ n
  | _ => n = 1

theorem Kind.takes_of_admits {k : Kind} {n : Nat} (h : k.admits n = true) : k.Takes n := by
  cases k <;> simpa [admits, Takes] using h

/-! ## Geometry and initializers -/

variable {op : Operation} {os : Operands}

namespace Geometry

variable {kind : Kind} {i : OperandId}

@[simp] theorem judges_invalid {reason : String} : Judges (invalid kind i reason : Except Error α) :=
  fails_error.2 (isVerdict_graph _)

@[simp] theorem judges_activation : Judges (activation kind os i) := by
  unfold activation
  refine fails_bind.2 ⟨Operands.judges_scalarInt, fun code _ => ?_⟩
  split <;> simp

@[simp] theorem judges_positive : Judges (positive kind os i) := by
  simp [positive]

@[simp] theorem judges_padding : Judges (padding kind os i) := by
  unfold padding
  refine fails_bind.2 ⟨Operands.judges_scalarInt, fun code _ => ?_⟩
  split <;> simp

@[simp] theorem judges_places {rule : PaddingRule} {input window stride : Nat} :
    Judges (places kind i rule input window stride) := by
  unfold places
  split <;> simp

@[simp] theorem decides_conv2d (p : ConvParams) (h : op.inputs.length = 3) :
    Decides (conv2d op p os) := by
  simp [conv2d, h]

@[simp] theorem decides_pool2d (kind : Kind) (p : PoolParams) (h : op.inputs.length = 1) :
    Decides (pool2d kind op p os) := by
  simp [pool2d, h]

@[simp] theorem decides_fullyConnected (act : OperandId) (h : op.inputs.length = 3) :
    Decides (fullyConnected op act os) := by
  simp [fullyConnected, h]

@[simp] theorem decides_concatAxis (axis : OperandId) (h : 0 < op.inputs.length) :
    Decides (concatAxis op axis os) := by
  simp [concatAxis, h]

end Geometry

namespace Initializer

@[simp] theorem decides_constant (i : OperandId) : Decides (constant os i) := by
  simp [constant]

@[simp] theorem decides_convWeights (place : Place) (h : op.inputs.length = 3) :
    Decides (convWeights place os op) := by
  cases place <;> simp [convWeights, h]

@[simp] theorem decides_bias (h : op.inputs.length = 3) : Decides (bias os op) := by
  simp [bias, h]

@[simp] theorem decides_denseWeights (h : op.inputs.length = 3) : Decides (denseWeights os op) := by
  simp [denseWeights, h]

end Initializer

/-! ## Checks -/

namespace Planner

variable {d : PlanDraft} {kind : Kind} {i o : OperandId}

@[simp] theorem judges_mismatch {reason : String} : Judges (mismatch kind i reason : Except Error α) :=
  fails_error.2 (isVerdict_graph _)

@[simp] theorem judges_allFloat {is : List OperandId} : Judges (allFloat os is) :=
  fails_forM (fun i => by simp) is

@[simp] theorem judges_sameType : Judges (sameType os i o) := by
  simp [sameType]

@[simp] theorem judges_expectDims {s : Shape} : Judges (expectDims kind os i s) := by
  simp [expectDims]

@[simp] theorem judges_sameShape : Judges (sameShape kind os i o) := by
  simp [sameShape]

@[simp] theorem judges_isConstant : Judges (isConstant os i) := by
  simp [isConstant]

@[simp] theorem judges_concatDims {first : Shape} {axis : Nat} : ∀ {is : List OperandId} {sum : Nat},
    Judges (concatDims os o first axis is sum)
  | [], _ => fails_ok _
  | i :: is, sum => by
    have ih : ∀ {sum}, Judges (concatDims os o first axis is sum) := judges_concatDims
    simp [concatDims, ih]

@[simp] theorem judges_checkTarget {s : Shape} : Judges (checkTarget os i s) := by
  unfold checkTarget
  refine fails_bind.2 ⟨Operands.judges_get, fun o _ => ?_⟩
  split <;> simp

@[simp] theorem decides_run_bind {x : Planning α} {f : α → Planning β} :
    Decides ((x >>= f).run d) ↔
      Decides (x.run d) ∧ ∀ a d', x.run d = .ok (a, d') → Decides ((f a).run d') := by
  rw [StateT.run_bind]
  exact fails_bind.trans (and_congr_right fun _ => Prod.forall)

@[simp] theorem decides_run_lift {x : Except Failure α} :
    Decides ((liftM x : Planning α).run d) ↔ Decides x := by
  have hrun : (liftM x : Planning α).run d = x >>= fun a => pure (a, d) := rfl
  rw [hrun]
  exact fails_bind.trans (and_iff_left fun a _ => fails_pure (a, d))

@[simp] theorem decides_run_check {x : Except Error α} :
    Decides ((liftM x : Planning α).run d) ↔ Judges x := by
  have h : (liftM x : Planning α) = (liftM (liftM x : Except Failure α) : Planning α) := rfl
  rw [h, decides_run_lift]
  exact fails_lift

@[simp] theorem decides_run_pure (a : α) : Decides ((pure a : Planning α).run d) := fails_ok (a, d)

@[simp] theorem decides_run_modify (f : PlanDraft → PlanDraft) :
    Decides ((modify f : Planning PUnit).run d) := fails_ok _

@[simp] theorem decides_run_ite {c : Prop} [Decidable c] {x y : Planning α} :
    Decides ((if c then x else y).run d) ↔ (c → Decides (x.run d)) ∧ (¬c → Decides (y.run d)) := by
  split <;> simp [*]

@[simp] theorem decides_initializeConstant (i : OperandId) {init : Except Failure Initializer}
    (h : Decides init) : Decides ((initializeConstant os i init).run d) := by
  simp [initializeConstant, h]

theorem decides_checkConv2d (c : Context) (p : ConvParams) (h : op.inputs.length = 3)
    (ho : op.outputs.length = 1) : Decides ((conv2d os c op p).run d) := by
  simp [conv2d, h, ho]

theorem decides_checkPool2d (kind : Kind) (p : PoolParams) (h : op.inputs.length = 1)
    (ho : op.outputs.length = 1) : Decides (pool2d os op kind p) := by
  simp [pool2d, h, ho]

theorem decides_checkConcat (axis : OperandId) (h : 0 < op.inputs.length)
    (ho : op.outputs.length = 1) : Decides (concat os op axis) := by
  simp [concat, h, ho]

theorem decides_checkFullyConnected (act : OperandId) (h : op.inputs.length = 3)
    (ho : op.outputs.length = 1) : Decides ((fullyConnected os op act).run d) := by
  simp [fullyConnected, h, ho]

theorem decides_checkReshape (target : Option OperandId) (h : op.inputs.length = 1)
    (ho : op.outputs.length = 1) : Decides (reshape os op target) := by
  cases target <;> simp [reshape, h, ho]

theorem decides_checkSoftmax (beta : OperandId) (h : op.inputs.length = 1)
    (ho : op.outputs.length = 1) : Decides (softmax os op beta) := by
  simp [softmax, h, ho]

theorem decides_checkAdd (act : OperandId) (h : op.inputs.length = 2)
    (ho : op.outputs.length = 1) : Decides (add os op act) := by
  simp [add, h, ho]

theorem decides_checkCopy (h : op.inputs.length = 1) (ho : op.outputs.length = 1) :
    Decides (copy os op) := by
  simp [copy, h, ho]

theorem decides_checkCast (h : op.inputs.length = 1) (ho : op.outputs.length = 1) :
    Decides (cast os op) := by
  simp [cast, h, ho]

/-- An operation with the arity of its kind passes its checks or fails with an error. -/
theorem decides_checkOperation (c : Context) (h : op.kind.admits op.inputs.length = true)
    (ho : op.outputs.length = 1) : Decides ((checkOperation os c op).run d) := by
  have hlen := Kind.takes_of_admits h
  unfold checkOperation
  unfold Operation.kind at hlen
  cases ha : op.attributes with rw [ha] at hlen
  | conv2d p => exact decides_checkConv2d c p hlen ho
  | maxPool2d p =>
    exact decides_run_lift.2 (decides_checkPool2d _ p hlen ho)
  | avgPool2d p =>
    exact decides_run_lift.2 (decides_checkPool2d _ p hlen ho)
  | concat axis =>
    exact decides_run_lift.2 (decides_checkConcat axis hlen ho)
  | fullyConnected act =>
    exact decides_checkFullyConnected act hlen ho
  | reshape target =>
    exact decides_run_lift.2 (decides_checkReshape target hlen ho)
  | softmax beta =>
    exact decides_run_lift.2 (decides_checkSoftmax beta hlen ho)
  | add act =>
    exact decides_run_lift.2 (decides_checkAdd act hlen ho)
  | cast => exact decides_run_lift.2 (decides_checkCast hlen ho)
  | nop => exact decides_run_lift.2 (decides_checkCopy hlen ho)
  | permute source target =>
    exact decides_run_lift.2 (decides_checkCopy hlen ho)

end Planner

/-! ## Stages -/

namespace Stage

theorem decides_ofKernel (place : Place) (backend : BackendId) (kernel : Activation → Kernel)
    (act : Activation) (ho : op.outputs.length = 1) :
    Decides (ofKernel place backend op kernel act) := by
  cases place <;> simp [ofKernel, ho]

theorem decides_concat (place : Place) (backend : BackendId) (axis : OperandId)
    (h : 0 < op.inputs.length) (ho : op.outputs.length = 1) :
    Decides (concat place backend op axis os) := by
  simp [concat, h, decides_ofKernel _ _ _ _ ho, fails_mapM]

theorem decides_fullyConnected (place : Place) (backend : BackendId) (act : OperandId)
    (h : op.inputs.length = 3) (ho : op.outputs.length = 1) :
    Decides (fullyConnected place backend op act os) := by
  cases place <;> simp [fullyConnected, h, ho, decides_ofKernel _ _ _ _ ho]

theorem decides_generate (place : Place) (backend : BackendId)
    (h : op.kind.admits op.inputs.length = true) (ho : op.outputs.length = 1) :
    Decides (generate place backend op os) := by
  have hof := fun kernel act => decides_ofKernel place backend kernel act ho
  have hlen := Kind.takes_of_admits h
  unfold generate
  unfold Operation.kind at hlen
  cases ha : op.attributes with rw [ha] at hlen
  | concat axis => exact decides_concat place backend axis hlen ho
  | fullyConnected act => exact decides_fullyConnected place backend act hlen ho
  | _ =>
    change op.inputs.length = _ at hlen
    simp [hlen, ho, hof]

end Stage

/-! ## All operations -/

namespace Planner

variable {d : PlanDraft}

/-- A loop of planning steps, with an invariant of what was planned. -/
theorem decides_run_forM {f : α → Planning PUnit} (I : List α → PlanDraft → Prop)
    (hf : ∀ done a d, I done d → Decides ((f a).run d))
    (step : ∀ done a d d', I done d → (f a).run d = .ok (⟨⟩, d') → I (done ++ [a]) d') :
    ∀ (l done : List α) {d : PlanDraft}, I done d → Decides ((l.forM f).run d)
  | [], _, _, _ => fails_ok _
  | a :: l, done, d, hI => by
    rw [List.forM_eq_forM, List.forM_cons, ← List.forM_eq_forM, decides_run_bind]
    exact ⟨hf done a d hI, fun _ d' h => decides_run_forM I hf step l _ (step done a d d' hI h)⟩

/-- What is recorded for an operand agrees with what is recorded again. -/
theorem addConstraint_total {i : OperandId} {o : Operand} (hd : d.Fits os) (ho : os[i]? = some o) :
    d.addConstraint i ⟨o.shape, o.type⟩
      = .ok { d with constraints := d.constraints.insert i ⟨o.shape, o.type⟩ } := by
  unfold PlanDraft.addConstraint
  split
  · rename_i info hinfo
    obtain ⟨o', ho', rfl⟩ := hd.constraint hinfo
    rw [ho, Option.some.injEq] at ho'
    rw [ho', if_neg (not_not.2 rfl)]
  · rfl

theorem decides_addConstraints (hd : d.Fits os) : Decides ((addConstraints os op).run d) := by
  refine decides_run_forM (fun _ d => d.Fits os) (fun _ i d hd => ?_) (fun _ i d d' hd h => ?_)
    _ [] hd
  · refine decides_run_bind.2 ⟨decides_run_check.2 Operands.judges_get, fun o d₁ ho => ?_⟩
    obtain ⟨hget, rfl⟩ := planning_check.1 ho
    refine decides_run_bind.2 ⟨fails_ok _, fun d₁ d₂ hd₁ => ?_⟩
    cases hd₁
    rw [addConstraint_total hd (Operands.get_eq_ok.1 hget)]
    exact fails_ok _
  · obtain ⟨o, ho, hc⟩ := constrain_ok h
    exact (addConstraint_fits ho hc).1 hd

theorem decides_addPlainConstants : Decides ((addPlainConstants os op).run d) := by
  refine decides_run_forM (fun _ _ => True) (fun _ e d _ => ?_) (fun _ _ _ _ _ _ => trivial) _ []
    trivial
  simp

/-- Planning one more operation. -/
theorem decides_visit (contexts : SortedMap BackendId Context) (p : Placement) (hd : d.Fits os) :
    Decides ((visit os contexts op p).run d) := by
  unfold visit
  split
  · exact decides_run_lift.2 (fails_throw.2 (isVerdict_resolution (.unknownBackend p.backend)))
  · refine decides_run_bind.2 ⟨decides_run_check.2 Operation.judges_checkArity, fun _ d₁ h => ?_⟩
    obtain ⟨harity, rfl⟩ := planning_check.1 h
    obtain ⟨h, ho⟩ := Operation.checkArity_ok.1 harity
    refine decides_run_bind.2 ⟨decides_checkOperation _ h ho, fun _ d₂ h₂ => ?_⟩
    refine decides_run_bind.2 ⟨decides_addConstraints ((checkOperation_fits h₂).1 hd),
      fun _ d₃ _ => ?_⟩
    refine decides_run_bind.2 ⟨decides_addPlainConstants, fun _ d₄ _ => ?_⟩
    refine decides_run_bind.2 ⟨decides_run_lift.2 (Stage.decides_generate _ _ h ho),
      fun _ _ _ => ?_⟩
    exact decides_run_modify _

end Planner

/-- **Planning fails with a verdict, if it fails.** -/
theorem decides_draftPlan (model : Model) (contexts : SortedMap BackendId Context)
    (order : List OperationId) : Decides (draftPlan model contexts order) := by
  refine fails_bind.2 ⟨fails_lift.2 (Model.judges_placedOperations order), fun ops _ =>
    fails_bind.2 ⟨?_, fun r _ => fails_pure r.2⟩⟩
  exact Planner.decides_run_forM (fun done d => Drafted model.operands contexts done d)
    (fun _ q _ hd => Planner.decides_visit contexts q.2 hd.fits)
    (fun _ _ _ _ hd h => visit_drafted hd h) ops [] .empty

end HeteroNet
