import HeteroNet.Proofs.Plan.Visits

/-
Whether an operation passes its checks depends on its attributes, the constants that hold them, and
the shapes and types of its data (`Operation.Twin`). So an operation of the caller passes or fails
wherever it is placed, whatever copies it reads there and whatever was planned before it
(`Operation.Twin.passes`). There is one lemma for each kind of operation.
-/

namespace HeteroNet

open Operation Operands Planner

variable {os os' : Operands} {op op' : Operation} {d' d'' : PlanDraft} {c' : Context}

/-- The operation passes its checks, on some backend and after some other operations. -/
def Operation.Passes (os : Operands) (op : Operation) : Prop :=
  ∃ c d d', (checkOperation os c op).run d = .ok ((), d')

theorem Operands.Alike.element {i i' : OperandId} (h : os.Alike os' i i') {o' : Operand}
    (ho' : os'.get i' = .ok o') : ∃ o, os.get i = .ok o ∧ o.element = o'.element := by
  obtain ⟨o, ho, htype⟩ := h.type ho'
  exact ⟨o, ho, congrArg TypeInfo.element htype⟩

namespace Planner

/-! ## Single checks -/

theorem allFloat_alike {is is' : List OperandId} (h : List.Forall₂ (os.Alike os') is is')
    (hr : allFloat os' is' = .ok ()) : allFloat os is = .ok () := by
  simp only [allFloat, forM_eq_ok] at hr ⊢
  intro i hi
  obtain ⟨i', hi', hii⟩ := (mem_of_forall₂ h).2 i hi
  obtain ⟨o', ho', hr⟩ := bind_eq_ok.1 (hr i' hi')
  obtain ⟨o, ho, helement⟩ := hii.element ho'
  refine bind_eq_ok.2 ⟨o, ho, ?_⟩
  split at hr
  · exact absurd hr throw_ne_ok
  · rename_i hfloat
    rw [helement, if_neg hfloat]
    rfl

theorem sameType_alike {i o i' o' : OperandId} (hi : os.Alike os' i i') (ho : os.Alike os' o o')
    (hr : sameType os' i' o' = .ok ()) : sameType os i o = .ok () := by
  obtain ⟨a', b', ha', hb', hsame⟩ := sameType_ok.1 hr
  obtain ⟨a, ha, hat⟩ := hi.type (get_eq_ok.2 ha')
  obtain ⟨b, hb, hbt⟩ := ho.type (get_eq_ok.2 hb')
  exact sameType_ok.2 ⟨a, b, get_eq_ok.1 ha, get_eq_ok.1 hb, by rwa [hat, hbt]⟩

theorem expectDims_alike {kind : Kind} {i i' : OperandId} (hi : os.Alike os' i i') {s : Shape}
    (hr : expectDims kind os' i' s = .ok ()) : expectDims kind os i s = .ok () :=
  expectDims_ok.2 (shape_eq_ok.1 (hi.shape (shape_eq_ok.2 (expectDims_ok.1 hr))))

theorem sameShape_alike {kind : Kind} {i o i' o' : OperandId} (hi : os.Alike os' i i')
    (ho : os.Alike os' o o') (hr : sameShape kind os' i' o' = .ok ()) :
    sameShape kind os i o = .ok () := by
  obtain ⟨s, hs, hr⟩ := bind_eq_ok.1 hr
  exact bind_eq_ok.2 ⟨s, ho.shape hs, expectDims_alike hi hr⟩

/-! ## Constants -/

theorem constantData_total {i : OperandId} {o : Operand} (ho : os[i]? = some o)
    (hd : o.data.isSome) : ∃ data, os.constantData i = .ok (o, data) := by
  obtain ⟨data, hdata⟩ := Option.isSome_iff_exists.1 hd
  refine ⟨data, ?_⟩
  rw [constantData, get_eq_ok.2 ho]
  simp only [bind, Except.bind, hdata]

theorem constant_total {i : OperandId} {o : Operand} (ho : os[i]? = some o)
    (hd : o.data.isSome) : ∃ init, Initializer.constant os i = .ok init := by
  obtain ⟨data, hget⟩ := constantData_total ho hd
  exact ⟨_, bind_eq_ok.2 ⟨_, lift_eq_ok.2 hget, rfl⟩⟩

/-- An operand gets its initializer, if it needs one and there is one. -/
theorem initializeConstant_total {i : OperandId} {o : Operand} (ho : os[i]? = some o)
    {init : Except Failure Initializer} (hinit : o.data.isSome → ∃ init', init = .ok init')
    (d : PlanDraft) : ∃ d', (initializeConstant os i init).run d = .ok ((), d') := by
  simp only [initializeConstant, planning_bind, planning_check]
  refine exists_comm.1 ⟨o.isConstant, ?_⟩
  have hget : isConstant os i = .ok o.isConstant := map_eq_ok.2 ⟨o, get_eq_ok.2 ho, rfl⟩
  by_cases hd : o.isConstant
  · obtain ⟨init', rfl⟩ := hinit hd
    refine ⟨d.addInitializer i init', d, ⟨hget, rfl⟩, ?_⟩
    rw [if_pos hd]
    rfl
  · refine ⟨d, d, ⟨hget, rfl⟩, ?_⟩
    rw [if_neg hd]
    rfl

theorem bias_total {b : OperandId} {o : Operand} (hb : op.input 2 = .ok b) (ho : os[b]? = some o)
    (hd : o.data.isSome) : ∃ init, Initializer.bias os op = .ok init := by
  obtain ⟨init, hinit⟩ := constant_total ho hd
  exact ⟨init, bind_eq_ok.2 ⟨b, hb, hinit⟩⟩

theorem denseWeights_total {w : OperandId} {o : Operand} (hw : op.input 1 = .ok w)
    (ho : os[w]? = some o) (hd : o.data.isSome) :
    ∃ init, Initializer.denseWeights os op = .ok init := by
  obtain ⟨init, hinit⟩ := constant_total ho hd
  exact ⟨init, bind_eq_ok.2 ⟨w, hw, hinit⟩⟩

theorem convWeights_total {w : OperandId} {o : Operand} {f : Feature} (hw : op.input 1 = .ok w)
    (ho : os[w]? = some o) (hf : os.weights w = .ok f) (place : Place) (hd : o.data.isSome) :
    ∃ init, Initializer.convWeights place os op = .ok init := by
  cases place with
  | host =>
    obtain ⟨init, hinit⟩ := constant_total ho hd
    exact ⟨init, bind_eq_ok.2 ⟨w, hw, hinit⟩⟩
  | device =>
    obtain ⟨data, hget⟩ := constantData_total ho hd
    exact ⟨.weights data f, bind_eq_ok.2 ⟨w, hw, bind_eq_ok.2 ⟨f, lift_eq_ok.2 hf,
      bind_eq_ok.2 ⟨_, lift_eq_ok.2 hget, rfl⟩⟩⟩⟩

/-! ## The checks of each kind -/

theorem conv2d_twin (h : Twin os os' op op') {p : ConvParams} (ha : op.attributes = .conv2d p)
    (hr : (conv2d os' c' op' p).run d' = .ok ((), d'')) (c : Context) (d : PlanDraft) :
    ∃ e, (conv2d os c op p).run d = .ok ((), e) := by
  simp only [conv2d, planning_bind, planning_lift, planning_check] at hr
  obtain ⟨x', _, ⟨hx, rfl⟩, w', _, ⟨hw, rfl⟩, b', _, ⟨hb, rfl⟩, o', _, ⟨ho, rfl⟩, _, _,
    ⟨hfloat, rfl⟩, ifm, _, ⟨hifm, rfl⟩, weights, _, ⟨hweights, rfl⟩, bias, _, ⟨hbias, rfl⟩, hr⟩ := hr
  split at hr
  · simp only [planning_bind, planning_check, mismatch_ne_ok, false_and, exists_false] at hr
  rename_i hdepth
  split at hr
  · simp only [planning_bind, planning_check, mismatch_ne_ok, false_and, exists_false] at hr
  rename_i hlen
  simp only [planning_bind, planning_lift, planning_check] at hr
  obtain ⟨r, _, ⟨hg, rfl⟩, _, _, ⟨hout, rfl⟩, -⟩ := hr
  obtain ⟨x, hx, hxx⟩ := h.role hx
  obtain ⟨w, hw, hww⟩ := h.role hw
  obtain ⟨b, hb, hbb⟩ := h.role hb
  obtain ⟨o, ho, hoo⟩ := h.result ho
  obtain ⟨wo, -, hwo, -⟩ := id hww
  obtain ⟨bo, -, hbo, -⟩ := id hbb
  obtain ⟨d₁, h₁⟩ := initializeConstant_total hwo
    (convWeights_total hw hwo (hww.viewShape hweights) c.backend.initializers) d
  obtain ⟨d₂, h₂⟩ := initializeConstant_total hbo (bias_total hb hbo) d₁
  refine ⟨d₂, ?_⟩
  simp only [conv2d, planning_bind, planning_lift, planning_check]
  refine ⟨x, d, ⟨hx, rfl⟩, w, d, ⟨hw, rfl⟩, b, d, ⟨hb, rfl⟩, o, d, ⟨ho, rfl⟩, (), d,
    ⟨allFloat_alike (.cons hxx (.cons hww (.cons hbb (.cons hoo .nil)))) hfloat, rfl⟩, ifm, d,
    ⟨hxx.viewShape hifm, rfl⟩, weights, d, ⟨hww.viewShape hweights, rfl⟩, bias, d,
    ⟨hbb.viewShape hbias, rfl⟩, ?_⟩
  rw [if_neg hdepth, if_neg hlen]
  simp only [planning_bind, planning_lift, planning_check]
  exact ⟨r, d, ⟨h.conv2d ha hg, rfl⟩, (), d, ⟨expectDims_alike hoo hout, rfl⟩, (), d₁, h₁, h₂⟩

theorem pool2d_twin (h : Twin os os' op op') {p : PoolParams} (hp : op.params = p.operands)
    {kind : Kind} (hr : pool2d os' op' kind p = .ok ()) : pool2d os op kind p = .ok () := by
  simp only [pool2d, bind_eq_ok] at hr ⊢
  obtain ⟨x', hx, o', ho, hr⟩ := hr
  obtain ⟨x, hx, hxx⟩ := h.role hx
  obtain ⟨o, ho, hoo⟩ := h.result ho
  refine ⟨x, hx, o, ho, ?_⟩
  split at hr
  · rename_i hkind
    simp only [bind_eq_ok, lift_eq_ok] at hr
    obtain ⟨_, hfloat, r, hg, hout⟩ := hr
    rw [if_pos hkind]
    simp only [bind_eq_ok, lift_eq_ok]
    exact ⟨(), allFloat_alike (.cons hxx (.cons hoo .nil)) hfloat, r, h.pool2d hp hg,
      expectDims_alike hoo hout⟩
  · rename_i hkind
    simp only [bind_eq_ok, lift_eq_ok] at hr
    obtain ⟨_, hsame, a', ha', hr⟩ := hr
    obtain ⟨a, ha, hsame'⟩ := hxx.element ha'
    rw [if_neg hkind]
    simp only [bind_eq_ok, lift_eq_ok]
    refine ⟨(), sameType_alike hxx hoo hsame, a, ha, ?_⟩
    split at hr
    · obtain ⟨_, hr, -⟩ := bind_eq_ok.1 hr
      exact absurd hr throw_ne_ok
    · rename_i helement
      simp only [bind_eq_ok, lift_eq_ok] at hr
      obtain ⟨r, hg, hout⟩ := hr
      rw [hsame', if_neg helement]
      simp only [bind_eq_ok, lift_eq_ok]
      exact ⟨r, h.pool2d hp hg, expectDims_alike hoo hout⟩

theorem concatDims_alike {o o' : OperandId} (ho : os.Alike os' o o') {first : Shape} {axis : Nat}
    {is is' : List OperandId} (his : List.Forall₂ (os.Alike os') is is') {sum : Nat} {s : Shape}
    (hr : concatDims os' o' first axis is' sum = .ok s) :
    concatDims os o first axis is sum = .ok s := by
  induction his generalizing sum with
  | nil => exact hr
  | cons hi _ ih =>
    simp only [concatDims, bind_eq_ok] at hr ⊢
    obtain ⟨_, hsame, dims, hdims, hr⟩ := hr
    refine ⟨(), sameType_alike hi ho hsame, dims, hi.shape hdims, ?_⟩
    split at hr
    · obtain ⟨_, hr, -⟩ := bind_eq_ok.1 hr
      exact absurd hr throw_ne_ok
    rename_i hlen
    split at hr
    · obtain ⟨_, hr, -⟩ := bind_eq_ok.1 hr
      exact absurd hr mismatch_ne_ok
    rename_i herase
    rw [if_neg hlen, if_neg herase]
    exact ih hr

theorem concat_twin (h : Twin os os' op op') {i : OperandId} (hi : i ∈ op.params)
    (hr : concat os' op' i = .ok ()) : concat os op i = .ok () := by
  simp only [concat, bind_eq_ok, lift_eq_ok] at hr ⊢
  obtain ⟨axis, haxis, o', ho, x', hx, first, hfirst, s, hs, hout⟩ := hr
  obtain ⟨x, hx, hxx⟩ := h.role hx
  obtain ⟨o, ho, hoo⟩ := h.result ho
  exact ⟨axis, h.concatAxis hi haxis, o, ho, x, hx, first, hxx.shape hfirst, s,
    concatDims_alike hoo h.inputs hs, expectDims_alike hoo hout⟩

theorem fullyConnected_twin (h : Twin os os' op op') {i : OperandId} (hi : i ∈ op.params)
    (hr : (fullyConnected os' op' i).run d' = .ok ((), d'')) (d : PlanDraft) :
    ∃ e, (fullyConnected os op i).run d = .ok ((), e) := by
  simp only [fullyConnected, planning_bind, planning_lift, planning_check] at hr
  obtain ⟨w', _, ⟨hw, rfl⟩, b', _, ⟨hb, rfl⟩, x', _, ⟨hx, rfl⟩, o', _, ⟨ho, rfl⟩, _, _,
    ⟨hfloat, rfl⟩, r, _, ⟨hr', rfl⟩, bias, _, ⟨hbias, rfl⟩, hr⟩ := hr
  split at hr
  · simp only [planning_bind, planning_check, mismatch_ne_ok, false_and, exists_false] at hr
  rename_i hlen
  simp only [planning_bind, planning_check] at hr
  obtain ⟨_, _, ⟨hout, rfl⟩, -⟩ := hr
  obtain ⟨x, hx, hxx⟩ := h.role hx
  obtain ⟨w, hw, hww⟩ := h.role hw
  obtain ⟨b, hb, hbb⟩ := h.role hb
  obtain ⟨o, ho, hoo⟩ := h.result ho
  obtain ⟨wo, -, hwo, -⟩ := id hww
  obtain ⟨bo, -, hbo, -⟩ := id hbb
  obtain ⟨d₁, h₁⟩ := initializeConstant_total hwo (denseWeights_total hw hwo) d
  obtain ⟨d₂, h₂⟩ := initializeConstant_total hbo (bias_total hb hbo) d₁
  refine ⟨d₂, ?_⟩
  simp only [fullyConnected, planning_bind, planning_lift, planning_check]
  refine ⟨w, d, ⟨hw, rfl⟩, b, d, ⟨hb, rfl⟩, x, d, ⟨hx, rfl⟩, o, d, ⟨ho, rfl⟩, (), d,
    ⟨allFloat_alike (.cons hxx (.cons hww (.cons hbb (.cons hoo .nil)))) hfloat, rfl⟩, r, d,
    ⟨h.fullyConnected hi hr', rfl⟩, bias, d, ⟨hbb.viewShape hbias, rfl⟩, ?_⟩
  rw [if_neg hlen]
  simp only [planning_bind, planning_check]
  exact ⟨(), d, ⟨expectDims_alike hoo hout, rfl⟩, (), d₁, h₁, h₂⟩

theorem checkTarget_twin (h : Twin os os' op op') {i : OperandId} (hi : i ∈ op.params) {s : Shape}
    (hr : checkTarget os' i s = .ok ()) : checkTarget os i s = .ok () := by
  obtain ⟨o, o', ho, ho', -, hdata⟩ := h.param i hi
  simp only [checkTarget, bind_eq_ok, Operands.get_eq_ok] at hr ⊢
  obtain ⟨o'', ho'', hr⟩ := hr
  rw [ho', Option.some.injEq] at ho''
  subst ho''
  rw [hdata] at hr
  exact ⟨o, ho, hr⟩

theorem reshape_twin (h : Twin os os' op op') {target : Option OperandId}
    (hp : op.params = target.toList) (hr : reshape os' op' target = .ok ()) :
    reshape os op target = .ok () := by
  simp only [reshape, bind_eq_ok, lift_eq_ok] at hr ⊢
  obtain ⟨x', hx, o', ho, _, hsame, s, hs, t, ht, hr⟩ := hr
  obtain ⟨x, hx, hxx⟩ := h.role hx
  obtain ⟨o, ho, hoo⟩ := h.result ho
  refine ⟨x, hx, o, ho, (), sameType_alike hxx hoo hsame, s, hxx.shape hs, t, hoo.shape ht, ?_⟩
  split at hr
  · obtain ⟨_, hr, -⟩ := bind_eq_ok.1 hr
    exact absurd (lift_eq_ok.1 hr) mismatch_ne_ok
  rename_i helements
  rw [if_neg helements]
  cases target with
  | none => rfl
  | some i => exact lift_eq_ok.2 (checkTarget_twin h (by simp [hp]) (lift_eq_ok.1 hr))

theorem softmax_twin (h : Twin os os' op op') {i : OperandId} (hi : i ∈ op.params)
    (hr : softmax os' op' i = .ok ()) : softmax os op i = .ok () := by
  simp only [softmax, bind_eq_ok, lift_eq_ok] at hr ⊢
  obtain ⟨x', hx, o', ho, _, hfloat, _, hshape, s, hs, hr⟩ := hr
  obtain ⟨x, hx, hxx⟩ := h.role hx
  obtain ⟨o, ho, hoo⟩ := h.result ho
  refine ⟨x, hx, o, ho, (), allFloat_alike (.cons hxx (.cons hoo .nil)) hfloat, (),
    sameShape_alike hxx hoo hshape, s, hxx.shape hs, ?_⟩
  split at hr
  · obtain ⟨_, hr, -⟩ := bind_eq_ok.1 hr
    exact absurd hr throw_ne_ok
  rename_i hrank
  simp only [bind_eq_ok, lift_eq_ok] at hr
  obtain ⟨beta, hbeta, hr⟩ := hr
  rw [if_neg hrank]
  simp only [bind_eq_ok, lift_eq_ok]
  exact ⟨beta, h.scalarWord hi hbeta, hr⟩

theorem add_twin (h : Twin os os' op op') {i : OperandId} (hi : i ∈ op.params)
    (hr : add os' op' i = .ok ()) : add os op i = .ok () := by
  simp only [add, bind_eq_ok, lift_eq_ok] at hr ⊢
  obtain ⟨x', hx, y', hy, o', ho, _, hfloat, _, hshape, _, hshape', hr⟩ := hr
  obtain ⟨x, hx, hxx⟩ := h.role hx
  obtain ⟨y, hy, hyy⟩ := h.role hy
  obtain ⟨o, ho, hoo⟩ := h.result ho
  obtain ⟨act, hact, -⟩ := map_eq_ok.1 hr
  exact ⟨x, hx, y, hy, o, ho, (), allFloat_alike (.cons hxx (.cons hyy (.cons hoo .nil))) hfloat,
    (), sameShape_alike hxx hoo hshape, (), sameShape_alike hyy hoo hshape',
    map_eq_ok.2 ⟨act, lift_eq_ok.2 (h.activation hi (lift_eq_ok.1 hact)), rfl⟩⟩

theorem copy_twin (h : Twin os os' op op') (hr : copy os' op' = .ok ()) : copy os op = .ok () := by
  simp only [copy, bind_eq_ok, lift_eq_ok] at hr ⊢
  obtain ⟨x', hx, o', ho, _, hshape, hsame⟩ := hr
  obtain ⟨x, hx, hxx⟩ := h.role hx
  obtain ⟨o, ho, hoo⟩ := h.result ho
  rw [h.kind_eq] at hshape
  exact ⟨x, hx, o, ho, (), sameShape_alike hxx hoo hshape, sameType_alike hxx hoo hsame⟩

theorem cast_twin (h : Twin os os' op op') (hr : cast os' op' = .ok ()) : cast os op = .ok () := by
  simp only [cast, bind_eq_ok, lift_eq_ok] at hr ⊢
  obtain ⟨x', hx, o', ho, hshape⟩ := hr
  obtain ⟨x, hx, hxx⟩ := h.role hx
  obtain ⟨o, ho, hoo⟩ := h.result ho
  rw [h.kind_eq] at hshape
  exact ⟨x, hx, o, ho, sameShape_alike hxx hoo hshape⟩

end Planner

/-- **An operation whose twin passes its checks passes them**, on every backend and after whatever
was planned before. -/
theorem Operation.Twin.passes (h : Twin os os' op op') (hr : op'.Passes os') (c : Context)
    (d : PlanDraft) : ∃ e, (checkOperation os c op).run d = .ok ((), e) := by
  obtain ⟨c', d', d'', hr⟩ := hr
  have ha' := h.attributes
  cases ha : op.attributes with rw [ha] at ha'
  | conv2d p =>
    simp only [checkOperation, ha, ha'] at hr ⊢
    exact conv2d_twin h ha hr c d
  | maxPool2d p | avgPool2d p =>
    simp only [checkOperation, ha, ha', planning_lift] at hr ⊢
    exact ⟨d, pool2d_twin h (by rw [params, ha]; rfl) hr.1, rfl⟩
  | concat i =>
    simp only [checkOperation, ha, ha', planning_lift] at hr ⊢
    exact ⟨d, concat_twin h (by simp [params, ha, Attributes.operands]) hr.1, rfl⟩
  | fullyConnected i =>
    simp only [checkOperation, ha, ha'] at hr ⊢
    exact fullyConnected_twin h (by simp [params, ha, Attributes.operands]) hr d
  | reshape target =>
    simp only [checkOperation, ha, ha', planning_lift] at hr ⊢
    exact ⟨d, reshape_twin h (by rw [params, ha]; rfl) hr.1, rfl⟩
  | softmax i =>
    simp only [checkOperation, ha, ha', planning_lift] at hr ⊢
    exact ⟨d, softmax_twin h (by simp [params, ha, Attributes.operands]) hr.1, rfl⟩
  | add i =>
    simp only [checkOperation, ha, ha', planning_lift] at hr ⊢
    exact ⟨d, add_twin h (by simp [params, ha, Attributes.operands]) hr.1, rfl⟩
  | cast =>
    simp only [checkOperation, ha, ha', planning_lift] at hr ⊢
    exact ⟨d, cast_twin h hr.1, rfl⟩
  | nop | permute a b =>
    simp only [checkOperation, ha, ha', planning_lift] at hr ⊢
    exact ⟨d, copy_twin h hr.1, rfl⟩

end HeteroNet
