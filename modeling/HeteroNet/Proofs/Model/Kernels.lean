import HeteroNet.Proofs.Evaluation
import HeteroNet.Proofs.Lists
import HeteroNet.Proofs.Plan.Checks

/-
The kernel of an operation depends on the shapes and types of its data and on the constants that
hold its attributes, and on nothing else of the model (`Operation.Twin`). So an operation that reads
copies, in a model that was linked anew, has the kernel it had before.
-/

namespace HeteroNet

/-- The operands `i` of `os` and `i'` of `os'` have one shape and one type. -/
def Operands.Alike (os os' : Operands) (i i' : OperandId) : Prop :=
  ∃ o o', os[i]? = some o ∧ os'[i']? = some o' ∧ o'.shape = o.shape ∧ o'.type = o.type

/-- Operation `op` on `os` is the same as with its inputs renamed by `ρ` on `os'`. -/
structure Operation.Renamed (op : Operation) (os os' : Operands) (ρ : OperandId → OperandId) :
    Prop where
  input : ∀ i ∈ op.inputs, os.Alike os' i (ρ i)
  output : ∀ i ∈ op.outputs, os.Alike os' i i
  param : ∀ i ∈ op.params, ∃ o o', os[i]? = some o ∧ os'[i]? = some o' ∧ o'.type = o.type ∧
    o'.data = o.data

/-- Operation `op` on `os` and `op'` on `os'` have one list of attributes, held by the same constants,
and data of the same shapes and types. -/
structure Operation.Twin (os os' : Operands) (op op' : Operation) : Prop where
  attributes : op'.attributes = op.attributes
  inputs : List.Forall₂ (os.Alike os') op.inputs op'.inputs
  outputs : List.Forall₂ (os.Alike os') op.outputs op'.outputs
  param : ∀ i ∈ op.params, ∃ o o', os[i]? = some o ∧ os'[i]? = some o' ∧ o'.type = o.type ∧
    o'.data = o.data

namespace Operands

variable {os os' : Operands} {i i' : OperandId}

theorem Alike.symm (h : os.Alike os' i i') : os'.Alike os i' i := by
  obtain ⟨o, o', ho, ho', hshape, htype⟩ := h
  exact ⟨o', o, ho', ho, hshape.symm, htype.symm⟩

theorem Alike.shape (h : os.Alike os' i i') {s : Shape} (hs : os'.shape i' = .ok s) :
    os.shape i = .ok s := by
  obtain ⟨o, o', ho, ho', hshape, -⟩ := h
  rw [shape_eq_ok] at hs ⊢
  obtain ⟨o'', ho'', rfl⟩ := hs
  rw [ho'] at ho''
  cases ho''
  exact ⟨o, ho, hshape.symm⟩

theorem Alike.viewShape (h : os.Alike os' i i') {α : Type} {view : Shape → Option α}
    {expected : String} {a : α} (ha : os'.viewShape view expected i' = .ok a) :
    os.viewShape view expected i = .ok a := by
  rw [viewShape_eq_ok] at ha ⊢
  obtain ⟨s, hs, ha⟩ := ha
  exact ⟨s, shape_eq_ok.1 (h.shape (shape_eq_ok.2 hs)), ha⟩

theorem Alike.type (h : os.Alike os' i i') {o' : Operand} (ho' : os'.get i' = .ok o') :
    ∃ o, os.get i = .ok o ∧ o.type = o'.type := by
  obtain ⟨o, o'', ho, ho'', -, ht⟩ := h
  rw [get_eq_ok, ho''] at ho'
  cases ho'
  exact ⟨o, get_eq_ok.2 ho, ht.symm⟩

end Operands

/-- An operation whose inputs are renamed. -/
theorem Operation.Renamed.twin {op : Operation} {os os' : Operands} {ρ : OperandId → OperandId}
    (h : op.Renamed os os' ρ) : Twin os os' op { op with inputs := op.inputs.map ρ } where
  attributes := rfl
  inputs := List.forall₂_map_right_iff.2 (List.forall₂_same.2 h.input)
  outputs := List.forall₂_same.2 h.output
  param := h.param

namespace Operation.Twin

variable {op op' : Operation} {os os' : Operands}

theorem params_eq (h : Twin os os' op op') : op'.params = op.params :=
  congrArg Attributes.operands h.attributes

theorem kind_eq (h : Twin os os' op op') : op'.kind = op.kind := congrArg Attributes.kind h.attributes

theorem symm (h : Twin os os' op op') : Twin os' os op' op where
  attributes := h.attributes.symm
  inputs := h.inputs.flip.imp fun _ _ hi => Operands.Alike.symm hi
  outputs := h.outputs.flip.imp fun _ _ hi => Operands.Alike.symm hi
  param i hi := by
    obtain ⟨o, o', ho, ho', ht, hd⟩ := h.param i (h.params_eq ▸ hi)
    exact ⟨o', o, ho', ho, ht.symm, hd.symm⟩

/-- Input number `role` of either operation. -/
theorem role (h : Twin os os' op op') {role : Nat} {i' : OperandId}
    (hi : op'.input role = .ok i') : ∃ i, op.input role = .ok i ∧ os.Alike os' i i' := by
  rw [input_eq_ok] at hi
  obtain ⟨hlt, rfl⟩ := List.getElem?_eq_some_iff.1 hi
  have hlt' : role < op.inputs.length := h.inputs.length_eq ▸ hlt
  exact ⟨op.inputs[role], input_eq_ok.2 (List.getElem?_eq_getElem hlt'),
    h.inputs.get hlt' hlt⟩

/-- The output of either operation. -/
theorem result (h : Twin os os' op op') {o' : OperandId} (ho : op'.output = .ok o') :
    ∃ o, op.output = .ok o ∧ os.Alike os' o o' := by
  rw [output_eq_ok] at ho
  obtain ⟨hlt, rfl⟩ := List.getElem?_eq_some_iff.1 ho
  have hlt' : 0 < op.outputs.length := h.outputs.length_eq ▸ hlt
  exact ⟨op.outputs[0], output_eq_ok.2 (List.getElem?_eq_getElem hlt'),
    h.outputs.get hlt' hlt⟩

theorem scalarWord (h : Twin os os' op op') {i : OperandId} (hi : i ∈ op.params)
    {types : List ElementType} {expected : ElementType} {w : Word}
    (hw : os'.scalarWord types expected i = .ok w) : os.scalarWord types expected i = .ok w := by
  obtain ⟨o, o', ho, ho', ht, hd⟩ := h.param i hi
  have hsame : os.scalarWord types expected i = os'.scalarWord types expected i := by
    simp only [Operands.scalarWord, Operands.constantData, Operands.get, ho, ho', bind,
      Except.bind, hd]
    cases o.data <;> simp only [Operand.element, ht]
  rwa [hsame]

theorem scalarInt (h : Twin os os' op op') {i : OperandId} (hi : i ∈ op.params) {n : Int}
    (hn : os'.scalarInt i = .ok n) : os.scalarInt i = .ok n := by
  obtain ⟨w, hw, rfl⟩ := map_eq_ok.1 hn
  exact map_eq_ok.2 ⟨w, h.scalarWord hi hw, rfl⟩

/-! ## Attributes -/

theorem activation (h : Twin os os' op op') {i : OperandId} (hi : i ∈ op.params) {kind : Kind}
    {act : Activation} (ha : Geometry.activation kind os' i = .ok act) :
    Geometry.activation kind os i = .ok act := by
  obtain ⟨n, hn, ha⟩ := bind_eq_ok.1 ha
  exact bind_eq_ok.2 ⟨n, h.scalarInt hi hn, ha⟩

theorem padding (h : Twin os os' op op') {i : OperandId} (hi : i ∈ op.params) {kind : Kind}
    {rule : PaddingRule} (ha : Geometry.padding kind os' i = .ok rule) :
    Geometry.padding kind os i = .ok rule := by
  obtain ⟨n, hn, ha⟩ := bind_eq_ok.1 ha
  exact bind_eq_ok.2 ⟨n, h.scalarInt hi hn, ha⟩

theorem positive (h : Twin os os' op op') {i : OperandId} (hi : i ∈ op.params) {kind : Kind}
    {n : Nat} (ha : Geometry.positive kind os' i = .ok n) :
    Geometry.positive kind os i = .ok n := by
  obtain ⟨n, hn, ha⟩ := bind_eq_ok.1 ha
  exact bind_eq_ok.2 ⟨n, h.scalarInt hi hn, ha⟩

/-! ## Geometry -/

theorem conv2d (h : Twin os os' op op') {p : ConvParams} (ha : op.attributes = .conv2d p)
    {r : ConvGeometry × Activation}
    (hr : Geometry.conv2d op' p os' = .ok r) :
    Geometry.conv2d op p os = .ok r := by
  have hp : op.params = [p.padding, p.strideW, p.strideH, p.activation] := by rw [params, ha]; rfl
  simp only [Geometry.conv2d, bind_eq_ok, lift_eq_ok, pure_eq_ok] at hr ⊢
  obtain ⟨x', hx, ifm, hifm, w', hw, weights, hweights, rule, hrule, sw, hsw, sh, hsh, oh, hoh, ow,
    how, act, hact, rfl⟩ := hr
  obtain ⟨x, hx, hxx⟩ := h.role hx
  obtain ⟨w, hw, hww⟩ := h.role hw
  exact ⟨x, hx, ifm, hxx.viewShape hifm, w, hw, weights, hww.viewShape hweights, rule,
    h.padding (by simp [hp]) hrule, sw, h.positive (by simp [hp]) hsw, sh,
    h.positive (by simp [hp]) hsh, oh, hoh, ow, how, act, h.activation (by simp [hp]) hact, rfl⟩

theorem pool2d (h : Twin os os' op op') {p : PoolParams} (hp : op.params = p.operands)
    {kind : Kind} {r : PoolGeometry × Activation}
    (hr : Geometry.pool2d kind op' p os' = .ok r) :
    Geometry.pool2d kind op p os = .ok r := by
  rw [PoolParams.operands] at hp
  simp only [Geometry.pool2d, bind_eq_ok, lift_eq_ok, pure_eq_ok] at hr ⊢
  obtain ⟨x', hx, ifm, hifm, rule, hrule, sw, hsw, sh, hsh, ww, hww, wh, hwh, oh, hoh, ow, how,
    act, hact, rfl⟩ := hr
  obtain ⟨x, hx, hxx⟩ := h.role hx
  exact ⟨x, hx, ifm, hxx.viewShape hifm, rule, h.padding (by simp [hp]) hrule, sw,
    h.positive (by simp [hp]) hsw, sh, h.positive (by simp [hp]) hsh, ww,
    h.positive (by simp [hp]) hww, wh, h.positive (by simp [hp]) hwh, oh, hoh, ow, how, act,
    h.activation (by simp [hp]) hact, rfl⟩

theorem fullyConnected (h : Twin os os' op op') {i : OperandId} (hi : i ∈ op.params)
    {r : Geometry.Dense × Activation}
    (hr : Geometry.fullyConnected op' i os' = .ok r) :
    Geometry.fullyConnected op i os = .ok r := by
  simp only [Geometry.fullyConnected, bind_eq_ok, lift_eq_ok] at hr ⊢
  obtain ⟨x', hx, w', hw, us, hm, s, hs, hr⟩ := hr
  obtain ⟨x, hx, hxx⟩ := h.role hx
  obtain ⟨w, hw, hww⟩ := h.role hw
  refine ⟨x, hx, w, hw, us, hww.viewShape hm, s, hxx.shape hs, ?_⟩
  split at hr
  · obtain ⟨_, hr, -⟩ := bind_eq_ok.1 hr
    exact absurd hr throw_ne_ok
  · rename_i hdiv
    rw [if_neg hdiv]
    simp only [bind_eq_ok, lift_eq_ok, pure_eq_ok] at hr ⊢
    obtain ⟨act, hact, rfl⟩ := hr
    exact ⟨act, h.activation hi hact, rfl⟩

theorem concatAxis (h : Twin os os' op op') {i : OperandId} (hi : i ∈ op.params) {axis : Nat}
    (hr : Geometry.concatAxis op' i os' = .ok axis) :
    Geometry.concatAxis op i os = .ok axis := by
  simp only [Geometry.concatAxis, bind_eq_ok, lift_eq_ok] at hr ⊢
  obtain ⟨value, hvalue, x', hx, s, hs, hr⟩ := hr
  obtain ⟨x, hx, hxx⟩ := h.role hx
  refine ⟨value, h.scalarInt hi hvalue, x, hx, s, hxx.shape hs, ?_⟩
  split at hr
  · obtain ⟨_, hr, -⟩ := bind_eq_ok.1 hr
    exact absurd hr throw_ne_ok
  · rename_i hrange
    rwa [if_neg hrange]

theorem shapes (h : Twin os os' op op') {ss : List Shape}
    (hs : (op'.inputs.mapM fun i => (liftM (os'.shape i) : Except Failure Shape)) = .ok ss) :
    (op.inputs.mapM fun i => (liftM (os.shape i) : Except Failure Shape)) = .ok ss := by
  rw [mapM_eq_ok] at hs ⊢
  exact forall₂_trans (fun _ _ _ hi hs => lift_eq_ok.2 (hi.shape (lift_eq_ok.1 hs))) h.inputs hs

/-! ## Kernels -/

/-- **Both operations have one kernel.** -/
theorem kernel (h : Twin os os' op op') {k : Kernel}
    (hk : op'.kernel os' = .ok k) :
    op.kernel os = .ok k := by
  have ha' := h.attributes
  cases ha : op.attributes with rw [ha] at ha'
  | conv2d p =>
    simp only [Operation.kernel, ha, ha', bind_eq_ok, pure_eq_ok] at hk ⊢
    obtain ⟨r, hr, rfl⟩ := hk
    exact ⟨r, h.conv2d ha hr, rfl⟩
  | maxPool2d p | avgPool2d p =>
    simp only [Operation.kernel, ha, ha', bind_eq_ok, pure_eq_ok] at hk ⊢
    obtain ⟨r, hr, rfl⟩ := hk
    exact ⟨r, h.pool2d (by rw [params, ha]; rfl) hr, rfl⟩
  | concat i =>
    simp only [Operation.kernel, ha, ha', bind_eq_ok, pure_eq_ok] at hk ⊢
    obtain ⟨axis, haxis, ss, hss, rfl⟩ := hk
    exact ⟨axis, h.concatAxis (by simp [params, ha, Attributes.operands]) haxis, ss,
      h.shapes hss, rfl⟩
  | fullyConnected i =>
    simp only [Operation.kernel, ha, ha', bind_eq_ok, pure_eq_ok] at hk ⊢
    obtain ⟨r, hr, rfl⟩ := hk
    exact ⟨r, h.fullyConnected (by simp [params, ha, Attributes.operands]) hr, rfl⟩
  | reshape target =>
    simp only [Operation.kernel, ha, ha', bind_eq_ok, lift_eq_ok, pure_eq_ok] at hk ⊢
    obtain ⟨x', hx, s, hs, o', ho, t, ht, rfl⟩ := hk
    obtain ⟨x, hx, hxx⟩ := h.role hx
    obtain ⟨o, ho, hoo⟩ := h.result ho
    exact ⟨x, hx, s, hxx.shape hs, o, ho, t, hoo.shape ht, rfl⟩
  | softmax i =>
    simp only [Operation.kernel, ha, ha', bind_eq_ok, lift_eq_ok, pure_eq_ok] at hk ⊢
    obtain ⟨beta, hbeta, x', hx, s, hs, rfl⟩ := hk
    obtain ⟨x, hx, hxx⟩ := h.role hx
    exact ⟨beta, h.scalarWord (by simp [params, ha, Attributes.operands]) hbeta, x, hx, s,
      hxx.shape hs, rfl⟩
  | add i =>
    simp only [Operation.kernel, ha, ha', bind_eq_ok, lift_eq_ok, pure_eq_ok] at hk ⊢
    obtain ⟨act, hact, rfl⟩ := hk
    exact ⟨act, h.activation (by simp [params, ha, Attributes.operands]) hact, rfl⟩
  | cast =>
    simp only [Operation.kernel, ha, ha', bind_eq_ok, lift_eq_ok, pure_eq_ok] at hk ⊢
    obtain ⟨x', hx, s', hs, o', ho, t', ht, rfl⟩ := hk
    obtain ⟨x, hx, hxx⟩ := h.role hx
    obtain ⟨o, ho, hoo⟩ := h.result ho
    obtain ⟨s, hs, hss⟩ := hxx.type hs
    obtain ⟨t, ht, htt⟩ := hoo.type ht
    exact ⟨x, hx, s, hs, o, ho, t, ht, by rw [hss, htt]⟩
  | nop | permute a b =>
    simp only [Operation.kernel, ha, ha'] at hk ⊢
    exact hk

end Operation.Twin

/-- **An operation whose inputs are renamed has the kernel it had.** -/
theorem Operation.Renamed.kernel {op : Operation} {os os' : Operands} {ρ : OperandId → OperandId}
    (h : op.Renamed os os' ρ) {k : Kernel}
    (hk : Operation.kernel { op with inputs := op.inputs.map ρ } os' = .ok k) :
    op.kernel os = .ok k :=
  h.twin.kernel hk

end HeteroNet
