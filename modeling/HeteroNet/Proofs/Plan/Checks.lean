import HeteroNet.Planner
import HeteroNet.Proofs.Kernel.Concat
import HeteroNet.Proofs.Kernel.Lines
import HeteroNet.Proofs.Model.Links

/-
What the checks of an operation establish: the shapes of its operands, and the geometry that
follows from them. There is one lemma for each kind of operation. That the shapes fit together is
all that the kernels need.
-/

namespace HeteroNet

open Model

/-! ## Planning steps -/

namespace Planner

variable {α β : Type} {d d' : PlanDraft}

theorem planning_bind {x : Planning α} {f : α → Planning β} {b : β} :
    (x >>= f).run d = .ok (b, d') ↔
      ∃ a d₁, x.run d = .ok (a, d₁) ∧ (f a).run d₁ = .ok (b, d') := by
  rw [StateT.run_bind, bind_eq_ok]
  constructor
  · rintro ⟨⟨a, d₁⟩, h₁, h₂⟩
    exact ⟨a, d₁, h₁, h₂⟩
  · rintro ⟨a, d₁, h₁, h₂⟩
    exact ⟨⟨a, d₁⟩, h₁, h₂⟩

theorem planning_pure {a b : α} : (pure a : Planning α).run d = .ok (b, d') ↔ a = b ∧ d = d' := by
  rw [StateT.run_pure, pure_eq_ok, Prod.mk.injEq]

theorem planning_lift {x : Except Failure α} {a : α} :
    (liftM x : Planning α).run d = .ok (a, d') ↔ x = .ok a ∧ d = d' := by
  cases x with
  | error e =>
    simp [liftM, monadLift, MonadLift.monadLift, StateT.lift, StateT.run, bind, Except.bind]
  | ok b =>
    simp [liftM, monadLift, MonadLift.monadLift, StateT.lift, StateT.run, bind, Except.bind, pure,
      Except.pure]

theorem planning_check {x : Except Error α} {a : α} :
    (liftM x : Planning α).run d = .ok (a, d') ↔ x = .ok a ∧ d = d' := by
  have h : (liftM x : Planning α) = (liftM (liftM x : Except Failure α) : Planning α) := rfl
  rw [h, planning_lift, lift_eq_ok]

theorem mismatch_ne_ok {kind : Kind} {i : OperandId} {reason : String} {a : α} :
    mismatch kind i reason ≠ .ok a := by
  simp [mismatch]

end Planner

/-! ## Inputs and outputs -/

theorem Operation.input_eq_ok {op : Operation} {role : Nat} {i : OperandId} :
    op.input role = .ok i ↔ op.inputs[role]? = some i := by
  unfold Operation.input
  split <;> simp_all

theorem Operation.output_eq_ok {op : Operation} {o : OperandId} :
    op.output = .ok o ↔ op.outputs[0]? = some o := by
  unfold Operation.output
  split <;> simp_all

/-! ## Shapes -/

/-- Operand `i` has shape `s`. -/
def HasShape (os : Operands) (i : OperandId) (s : Shape) : Prop :=
  ∃ o, os[i]? = some o ∧ o.shape = s

namespace Operands

variable {os : Operands} {i : OperandId}

theorem shape_eq_ok {s : Shape} : os.shape i = .ok s ↔ HasShape os i s := by
  simp only [Operands.shape, map_eq_ok, Operands.get_eq_ok, HasShape]

theorem viewShape_eq_ok {α : Type} {view : Shape → Option α} {expected : String} {a : α} :
    os.viewShape view expected i = .ok a ↔ ∃ s, HasShape os i s ∧ view s = some a := by
  simp only [viewShape, bind_eq_ok, shape_eq_ok]
  constructor
  · rintro ⟨s, hs, h⟩
    split at h
    · rename_i b hb
      cases h
      exact ⟨s, hs, hb⟩
    · cases h
  · rintro ⟨s, hs, h⟩
    exact ⟨s, hs, by rw [h]⟩

theorem feature_eq_ok {f : Feature} : os.feature i = .ok f ↔ HasShape os i f.dims := by
  rw [feature, viewShape_eq_ok]
  simp only [Shape.feature?_eq_some, exists_eq_right]

theorem weights_eq_ok {f : Feature} : os.weights i = .ok f ↔ HasShape os i f.dims := by
  rw [weights, viewShape_eq_ok]
  simp only [Shape.feature?_eq_some, exists_eq_right]

theorem vector_ok {n : Nat} (h : os.vector i = .ok n) : HasShape os i [n] := by
  obtain ⟨s, hs, h⟩ := viewShape_eq_ok.1 h
  unfold Shape.vector? at h
  split at h
  · cases h
    exact hs
  · cases h

theorem matrix_ok {r c : Nat} (h : os.matrix i = .ok (r, c)) : HasShape os i [r, c] := by
  obtain ⟨s, hs, h⟩ := viewShape_eq_ok.1 h
  unfold Shape.matrix? at h
  split at h
  · cases h
    exact hs
  · cases h

end Operands

theorem HasShape.unique {os : Operands} {i : OperandId} {s t : Shape} (hs : HasShape os i s)
    (ht : HasShape os i t) : s = t := by
  obtain ⟨o, ho, rfl⟩ := hs
  obtain ⟨o', ho', rfl⟩ := ht
  rw [ho] at ho'
  cases ho'
  rfl

namespace Planner

variable {os : Operands}

theorem expectDims_ok {kind : Kind} {i : OperandId} {s : Shape} :
    expectDims kind os i s = .ok () ↔ HasShape os i s := by
  simp only [expectDims, bind_eq_ok, Operands.shape_eq_ok]
  constructor
  · rintro ⟨t, ht, h⟩
    split at h
    · exact absurd h mismatch_ne_ok
    · rename_i he
      rw [← Decidable.not_not.1 he]
      exact ht
  · exact fun h => ⟨s, h, by simp [pure, Except.pure]⟩

theorem sameShape_ok {kind : Kind} {i o : OperandId} (h : sameShape kind os i o = .ok ()) :
    ∃ s, HasShape os o s ∧ HasShape os i s := by
  obtain ⟨s, hs, h⟩ := bind_eq_ok.1 h
  exact ⟨s, Operands.shape_eq_ok.1 hs, expectDims_ok.1 h⟩

end Planner

/-! ## Geometry -/

namespace Geometry

variable {os : Operands} {op : Operation}

theorem conv2d_ok {p : ConvParams} {g : ConvGeometry} {act : Activation}
    (h : Geometry.conv2d op p os = .ok (g, act)) :
    ∃ x w, op.input 0 = .ok x ∧ op.input 1 = .ok w ∧ os.feature x = .ok g.input ∧
      os.weights w = .ok g.weights ∧ g.output.n = g.input.n ∧ g.output.c = g.weights.n := by
  simp only [Geometry.conv2d, bind_eq_ok, lift_eq_ok, pure_eq_ok, Prod.mk.injEq] at h
  obtain ⟨x, hx, ifm, hifm, w, hw, weights, hweights, _, -, _, -, _, -, _, -, _, -, _, -, rfl, -⟩ := h
  exact ⟨x, w, hx, hw, hifm, hweights, rfl, rfl⟩

theorem pool2d_ok {kind : Kind} {p : PoolParams} {g : PoolGeometry} {act : Activation}
    (h : Geometry.pool2d kind op p os = .ok (g, act)) :
    ∃ x, op.input 0 = .ok x ∧ os.feature x = .ok g.input ∧ g.Fits := by
  simp only [Geometry.pool2d, bind_eq_ok, lift_eq_ok, pure_eq_ok, Prod.mk.injEq] at h
  obtain ⟨x, hx, ifm, hifm, _, -, _, -, _, -, _, -, _, -, _, -, _, -, _, -, rfl, -⟩ := h
  exact ⟨x, hx, hifm, rfl, rfl⟩

theorem fullyConnected_ok {i : OperandId} {dense : Dense} {act : Activation}
    (h : Geometry.fullyConnected op i os = .ok (dense, act)) :
    ∃ x w s, op.input 0 = .ok x ∧ op.input 1 = .ok w ∧ HasShape os x s ∧
      HasShape os w [dense.units, dense.inputSize] ∧
      s.elements = dense.batch * dense.inputSize := by
  simp only [Geometry.fullyConnected, bind_eq_ok, lift_eq_ok] at h
  obtain ⟨x, hx, w, hw, ⟨units, size⟩, hm, s, hs, h⟩ := h
  split at h
  · obtain ⟨_, h, -⟩ := bind_eq_ok.1 h
    exact absurd h throw_ne_ok
  · rename_i hdiv
    simp only [bind_eq_ok, lift_eq_ok, pure_eq_ok, Prod.mk.injEq] at h
    obtain ⟨_, -, rfl, -⟩ := h
    simp only [Bool.or_eq_true, bne_iff_ne, ne_eq, not_or, Decidable.not_not,
      decide_eq_true_eq] at hdiv
    refine ⟨x, w, s, hx, hw, Operands.shape_eq_ok.1 hs, Operands.matrix_ok hm, ?_⟩
    exact (Nat.div_mul_cancel (Nat.dvd_of_mod_eq_zero hdiv.2)).symm

theorem concatAxis_ok {i : OperandId} {axis : Nat} (h : concatAxis op i os = .ok axis) :
    ∃ x s, op.input 0 = .ok x ∧ HasShape os x s ∧ axis < s.length := by
  simp only [concatAxis, bind_eq_ok, lift_eq_ok] at h
  obtain ⟨value, -, x, hx, s, hs, h⟩ := h
  split at h
  · obtain ⟨_, h, -⟩ := bind_eq_ok.1 h
    exact absurd h throw_ne_ok
  · rename_i hrange
    simp only [Bool.or_eq_true, decide_eq_true_eq, not_or, not_lt, not_le] at hrange
    obtain rfl := pure_eq_ok.1 h
    refine ⟨x, s, hx, Operands.shape_eq_ok.1 hs, ?_⟩
    have hlt : value < s.rank := hrange.2
    unfold Shape.rank at hlt
    omega

end Geometry

/-! ## The checks of each kind -/

namespace Planner

variable {os : Operands} {c : Context} {op : Operation} {d d' : PlanDraft}

/-- A constant gets its initializer; any other operand gets none. -/
theorem initializeConstant_ok {i : OperandId} {init : Except Failure Initializer}
    (h : (initializeConstant os i init).run d = .ok ((), d')) :
    ∃ o, os[i]? = some o ∧
      ((o.data = none ∧ d' = d) ∨
        ∃ data init', o.data = some data ∧ init = .ok init' ∧ d' = d.addInitializer i init') := by
  simp only [initializeConstant, planning_bind, planning_check] at h
  obtain ⟨b, _, ⟨hb, rfl⟩, h⟩ := h
  obtain ⟨o, ho, rfl⟩ := map_eq_ok.1 hb
  refine ⟨o, Operands.get_eq_ok.1 ho, ?_⟩
  cases hd : o.data with
  | none =>
    simp only [Operand.isConstant, hd, Option.isSome_none, Bool.false_eq_true, if_false,
      planning_pure] at h
    exact .inl ⟨rfl, h.2.symm⟩
  | some data =>
    simp only [Operand.isConstant, hd, Option.isSome_some, if_true, planning_bind,
      planning_lift] at h
    obtain ⟨init', _, ⟨hinit, rfl⟩, h⟩ := h
    refine .inr ⟨data, init', rfl, hinit, ?_⟩
    simp only [modify, modifyGet, MonadStateOf.modifyGet, StateT.modifyGet, StateT.run, pure,
      Except.pure, Except.ok.injEq, Prod.mk.injEq, true_and] at h
    exact h.symm

theorem conv2d_ok {p : ConvParams} (h : (conv2d os c op p).run d = .ok ((), d')) :
    ∃ x w b o g act d₁, op.input 0 = .ok x ∧ op.input 1 = .ok w ∧ op.input 2 = .ok b ∧
      op.output = .ok o ∧ Geometry.conv2d op p os = .ok (g, act) ∧ g.Fits ∧
      HasShape os x g.input.dims ∧ HasShape os w g.weights.dims ∧ HasShape os b [g.weights.n] ∧
      HasShape os o g.output.dims ∧
      (initializeConstant os w (Initializer.convWeights c.backend.initializers os op)).run d
        = .ok ((), d₁) ∧
      (initializeConstant os b (Initializer.bias os op)).run d₁ = .ok ((), d') := by
  simp only [conv2d, planning_bind, planning_lift, planning_check] at h
  obtain ⟨x, _, ⟨hx, rfl⟩, w, _, ⟨hw, rfl⟩, b, _, ⟨hb, rfl⟩, o, _, ⟨ho, rfl⟩, _, _, ⟨-, rfl⟩,
    ifm, _, ⟨hifm, rfl⟩, weights, _, ⟨hweights, rfl⟩, bias, _, ⟨hbias, rfl⟩, h⟩ := h
  split at h
  · simp only [planning_bind, planning_check, mismatch_ne_ok, false_and, exists_false] at h
  rename_i hdepth
  split at h
  · simp only [planning_bind, planning_check, mismatch_ne_ok, false_and, exists_false] at h
  rename_i hlen
  simp only [planning_bind, planning_lift, planning_check] at h
  obtain ⟨⟨g, act⟩, _, ⟨hg, rfl⟩, _, _, ⟨hout, rfl⟩, _, d₁, hinit, hinit'⟩ := h
  obtain ⟨x', w', hx', hw', hin, hwt, hn, hc⟩ := Geometry.conv2d_ok hg
  rw [hx, Except.ok.injEq] at hx'
  rw [hw, Except.ok.injEq] at hw'
  subst hx' hw'
  rw [hifm, Except.ok.injEq] at hin
  rw [hweights, Except.ok.injEq] at hwt
  have hlen := Decidable.not_not.1 hlen
  have hdepth := Decidable.not_not.1 hdepth
  subst hin hwt hlen
  exact ⟨x, w, b, o, g, act, d₁, hx, hw, hb, ho, hg, ⟨hn, hc, hdepth⟩,
    Operands.feature_eq_ok.1 hifm, Operands.weights_eq_ok.1 hweights, Operands.vector_ok hbias,
    expectDims_ok.1 hout, hinit, hinit'⟩

theorem pool2d_ok {kind : Kind} {p : PoolParams} (h : pool2d os op kind p = .ok ()) :
    ∃ x o g act, op.input 0 = .ok x ∧ op.output = .ok o ∧
      Geometry.pool2d kind op p os = .ok (g, act) ∧ g.Fits ∧ HasShape os x g.input.dims ∧
      HasShape os o g.output.dims := by
  simp only [pool2d, bind_eq_ok] at h
  obtain ⟨x, hx, o, ho, h⟩ := h
  have hrest : ((Geometry.pool2d kind op p os) >>= fun (r : PoolGeometry × Activation) =>
      (liftM (expectDims kind os o r.1.output.dims) : Except Failure Unit)) = .ok () := by
    split at h
    · obtain ⟨_, -, h⟩ := bind_eq_ok.1 h
      exact h
    · simp only [bind_eq_ok] at h
      obtain ⟨_, -, a, -, h⟩ := h
      split at h
      · obtain ⟨_, h, -⟩ := bind_eq_ok.1 h
        exact absurd h throw_ne_ok
      · exact h
  obtain ⟨⟨g, act⟩, hg, hout⟩ := bind_eq_ok.1 hrest
  obtain ⟨x', hx', hin, hfits⟩ := Geometry.pool2d_ok hg
  rw [hx, Except.ok.injEq] at hx'
  subst hx'
  exact ⟨x, o, g, act, hx, ho, hg, hfits, Operands.feature_eq_ok.1 hin,
    expectDims_ok.1 (lift_eq_ok.1 hout)⟩

theorem eq_set_of_eraseIdx {s t : Shape} {axis : Nat} (haxis : axis < t.length)
    (hlen : s.length = t.length) (h : s.eraseIdx axis = t.eraseIdx axis) :
    s = t.set axis (s.getD axis 0) := by
  induction t generalizing s axis with
  | nil => cases haxis
  | cons b t ih =>
    obtain ⟨a, s, rfl⟩ := List.exists_cons_of_length_eq_add_one hlen
    cases axis with
    | zero =>
      simp only [List.eraseIdx_zero, List.tail_cons] at h
      simp [h]
    | succ axis =>
      simp only [List.eraseIdx_cons_succ, List.cons.injEq] at h
      obtain ⟨rfl, h⟩ := h
      have := ih (by simpa using haxis) (by simpa using hlen) h
      rw [List.set_cons_succ, List.getD_cons_succ, ← this]

/-- The inputs of a concatenation differ in the extent of the axis at most. -/
theorem concatDims_ok {o : OperandId} {first : Shape} {axis : Nat} (haxis : axis < first.length) :
    ∀ {is : List OperandId} {sum : Nat} {s : Shape}, concatDims os o first axis is sum = .ok s →
      ∃ es, List.Forall₂ (fun i e => HasShape os i (first.set axis e)) is es ∧
        s = first.set axis (sum + es.sum)
  | [], sum, s, h => by
    cases h
    exact ⟨[], .nil, rfl⟩
  | i :: is, sum, s, h => by
    simp only [concatDims, bind_eq_ok] at h
    obtain ⟨_, -, dims, hdims, h⟩ := h
    split at h
    · obtain ⟨_, h, -⟩ := bind_eq_ok.1 h
      exact absurd h throw_ne_ok
    rename_i hlen
    split at h
    · obtain ⟨_, h, -⟩ := bind_eq_ok.1 h
      exact absurd h mismatch_ne_ok
    rename_i herase
    obtain ⟨es, hes, rfl⟩ := concatDims_ok haxis h
    refine ⟨dims.getD axis 0 :: es, .cons ?_ hes, by rw [List.sum_cons, Nat.add_assoc]⟩
    rw [← eq_set_of_eraseIdx haxis (Decidable.not_not.1 hlen) (Decidable.not_not.1 herase)]
    exact Operands.shape_eq_ok.1 hdims

theorem concat_ok {i : OperandId} (h : concat os op i = .ok ()) :
    ∃ (x o : OperandId) (first : Shape) (axis : Nat) (es : List Nat),
      op.input 0 = .ok x ∧ op.output = .ok o ∧ Geometry.concatAxis op i os = .ok axis ∧
      axis < first.length ∧
      List.Forall₂ (fun i e => HasShape os i (first.set axis e)) op.inputs es ∧
      HasShape os o (first.set axis es.sum) := by
  simp only [concat, bind_eq_ok, lift_eq_ok] at h
  obtain ⟨axis, haxis, o, ho, x, hx, first, hfirst, s, hs, hout⟩ := h
  obtain ⟨x', s', hx', hs', hlt⟩ := Geometry.concatAxis_ok haxis
  rw [hx, Except.ok.injEq] at hx'
  subst hx'
  obtain rfl := hs'.unique (Operands.shape_eq_ok.1 hfirst)
  obtain ⟨es, hes, rfl⟩ := concatDims_ok hlt hs
  rw [Nat.zero_add] at hout
  exact ⟨x, o, s', axis, es, hx, ho, haxis, hlt, hes, expectDims_ok.1 hout⟩

theorem fullyConnected_ok {i : OperandId}
    (h : (fullyConnected os op i).run d = .ok ((), d')) :
    ∃ x w b o s dense act d₁, op.input 0 = .ok x ∧ op.input 1 = .ok w ∧ op.input 2 = .ok b ∧
      op.output = .ok o ∧ Geometry.fullyConnected op i os = .ok (dense, act) ∧ HasShape os x s ∧
      s.elements = dense.batch * dense.inputSize ∧
      HasShape os w [dense.units, dense.inputSize] ∧ HasShape os b [dense.units] ∧
      HasShape os o [dense.batch, dense.units] ∧
      (initializeConstant os w (Initializer.denseWeights os op)).run d = .ok ((), d₁) ∧
      (initializeConstant os b (Initializer.bias os op)).run d₁ = .ok ((), d') := by
  simp only [fullyConnected, planning_bind, planning_lift, planning_check] at h
  obtain ⟨w, _, ⟨hw, rfl⟩, b, _, ⟨hb, rfl⟩, x, _, ⟨hx, rfl⟩, o, _, ⟨ho, rfl⟩, _, _, ⟨-, rfl⟩,
    ⟨dense, act⟩, _, ⟨hdense, rfl⟩, bias, _, ⟨hbias, rfl⟩, h⟩ := h
  split at h
  · simp only [planning_bind, planning_check, mismatch_ne_ok, false_and, exists_false] at h
  rename_i hlen
  simp only [planning_bind, planning_check] at h
  obtain ⟨_, _, ⟨hout, rfl⟩, _, d₁, hinit, hinit'⟩ := h
  obtain ⟨x', w', s, hx', hw', hs, hwt, helements⟩ := Geometry.fullyConnected_ok hdense
  rw [hx, Except.ok.injEq] at hx'
  rw [hw, Except.ok.injEq] at hw'
  have hlen := Decidable.not_not.1 hlen
  subst hx' hw' hlen
  exact ⟨x, w, b, o, s, dense, act, d₁, hx, hw, hb, ho, hdense, hs, helements, hwt,
    Operands.vector_ok hbias, expectDims_ok.1 hout, hinit, hinit'⟩

theorem reshape_ok {target : Option OperandId} (h : reshape os op target = .ok ()) :
    ∃ x o s t, op.input 0 = .ok x ∧ op.output = .ok o ∧ HasShape os x s ∧ HasShape os o t ∧
      s.elements = t.elements := by
  simp only [reshape, bind_eq_ok, lift_eq_ok] at h
  obtain ⟨x, hx, o, ho, _, -, s, hs, t, ht, h⟩ := h
  split at h
  · obtain ⟨_, h, -⟩ := bind_eq_ok.1 h
    exact absurd (lift_eq_ok.1 h) mismatch_ne_ok
  rename_i helements
  exact ⟨x, o, s, t, hx, ho, Operands.shape_eq_ok.1 hs, Operands.shape_eq_ok.1 ht,
    Decidable.not_not.1 helements⟩

theorem softmax_ok {i : OperandId} (h : softmax os op i = .ok ()) :
    ∃ x o s beta, op.input 0 = .ok x ∧ op.output = .ok o ∧ HasShape os x s ∧ HasShape os o s ∧
      (s.rank = 2 ∨ s.rank = 4) ∧ os.scalarFloat i = .ok beta := by
  simp only [softmax, bind_eq_ok, lift_eq_ok] at h
  obtain ⟨x, hx, o, ho, _, -, _, hsame, s, hs, h⟩ := h
  obtain ⟨t, ht, ht'⟩ := sameShape_ok hsame
  obtain rfl := ht'.unique (Operands.shape_eq_ok.1 hs)
  split at h
  · obtain ⟨_, h, -⟩ := bind_eq_ok.1 h
    exact absurd h throw_ne_ok
  rename_i hrank
  simp only [bind_eq_ok, lift_eq_ok] at h
  obtain ⟨beta, hbeta, -⟩ := h
  exact ⟨x, o, t, beta, hx, ho, ht', ht, by omega, hbeta⟩

theorem add_ok {i : OperandId} (h : add os op i = .ok ()) :
    ∃ x y o s act, op.input 0 = .ok x ∧ op.input 1 = .ok y ∧ op.output = .ok o ∧ HasShape os x s ∧
      HasShape os y s ∧ HasShape os o s ∧ Geometry.activation .add os i = .ok act := by
  simp only [add, bind_eq_ok, lift_eq_ok] at h
  obtain ⟨x, hx, y, hy, o, ho, _, -, _, hsame, _, hsame', hact⟩ := h
  obtain ⟨s, hs, hs'⟩ := sameShape_ok hsame
  obtain ⟨t, ht, ht'⟩ := sameShape_ok hsame'
  obtain rfl := hs.unique ht
  obtain ⟨act, hact⟩ := discard_eq_ok.1 hact
  exact ⟨x, y, o, s, act, hx, hy, ho, hs', ht', hs, lift_eq_ok.1 hact⟩

theorem copy_ok (h : copy os op = .ok ()) :
    ∃ x o s, op.input 0 = .ok x ∧ op.output = .ok o ∧ HasShape os x s ∧ HasShape os o s := by
  simp only [copy, bind_eq_ok, lift_eq_ok] at h
  obtain ⟨x, hx, o, ho, _, hsame, -⟩ := h
  obtain ⟨s, hs, hs'⟩ := sameShape_ok hsame
  exact ⟨x, o, s, hx, ho, hs', hs⟩

theorem cast_ok (h : cast os op = .ok ()) :
    ∃ x o s, op.input 0 = .ok x ∧ op.output = .ok o ∧ HasShape os x s ∧ HasShape os o s := by
  simp only [cast, bind_eq_ok, lift_eq_ok] at h
  obtain ⟨x, hx, o, ho, hsame⟩ := h
  obtain ⟨s, hs, hs'⟩ := sameShape_ok hsame
  exact ⟨x, o, s, hx, ho, hs', hs⟩

end Planner

end HeteroNet
