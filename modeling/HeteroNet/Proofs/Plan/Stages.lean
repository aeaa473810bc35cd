import HeteroNet.Proofs.Evaluation
import HeteroNet.Proofs.Model.Checked
import HeteroNet.Proofs.Plan.Checks

/-
The stage of an operation that passed its checks. On the host it is the operation's kernel. On the
device it is a kernel without the activation, which follows as a step of its own, and for some
fully connected layers a reshape comes first; taken together they give the same logical words
(`Planned`). There is one proof for each kind, and `checkOperation_planned` puts them together.
-/

namespace HeteroNet

open Compute Kernel Layout

/-- The kernel of a device stage gives `y`, after its first input was flattened if the stage asks
for it. -/
def DeviceGives (k : Kernel) : Option Flatten → List Shape → Shape → List Buffer → Buffer → Prop
  | none, ss, out, xs, y => Gives .nchw k ss out xs y
  | some f, s :: ss, out, x :: xs, y =>
    Gives .nchw f.kernel [s] f.scratch.shape [x] x ∧
      Gives .nchw k (f.scratch.shape :: ss) out (x :: xs) y
  | some _, _, _, _, _ => False

/-- The stages of an operation on the host and on the device, and what they give. -/
structure Planned (os : Operands) (op : Operation) (ss : List Shape) (o : OperandId) (out : Shape)
    (k deviceKernel : Kernel) (act : Activation) (flatten : Option Flatten) : Prop where
  outputs : op.outputs = [o]
  shapes : List.Forall₂ (HasShape os) op.inputs ss
  shape : HasShape os o out
  kernel : op.kernel os = .ok k
  host : ∀ b, Stage.generate .host b op os = .ok (.host b k op.inputs o)
  device : ∀ b, Stage.generate .device b op os
    = .ok (.device b deviceKernel act op.inputs o flatten)
  gives : ∀ {xs}, Sized ss xs → ∃ y : Buffer, y.size = out.elements ∧
    Gives .nhwc k ss out xs (activate act y) ∧ DeviceGives deviceKernel flatten ss out xs y

section

variable {os : Operands} {op : Operation} {o : OperandId}

/-- Most stages have one kernel for each place, and no flattening. -/
theorem Planned.of_kernel {act : Activation} (k : Place → Activation → Kernel)
    (houtputs : op.outputs = [o]) (ss : List Shape) (out : Shape)
    (hshapes : List.Forall₂ (HasShape os) op.inputs ss)
    (hshape : HasShape os o out) (hkernel : op.kernel os = .ok (k .host act))
    (hstage : ∀ place b, Stage.generate place b op os = Stage.ofKernel place b op (k place) act)
    (hgives : ∀ xs, Sized ss xs → ∃ y : Buffer, y.size = out.elements ∧
      Gives .nhwc (k .host act) ss out xs (activate act y) ∧
      Gives .nchw (k .device .none) ss out xs y) :
    Planned os op ss o out (k .host act) (k .device .none) act none where
  outputs := houtputs
  shapes := hshapes
  shape := hshape
  kernel := hkernel
  host := by
    intro b
    rw [hstage, Stage.ofKernel, Operation.output, houtputs]
    rfl
  device := by
    intro b
    rw [hstage, Stage.ofKernel, Operation.output, houtputs]
    rfl
  gives := fun {xs} hxs => hgives xs hxs

/-! ## Numbers of inputs -/

theorem output_of_arity (harity : op.checkArity = .ok ()) (ho : op.output = .ok o) :
    op.outputs = [o] := by
  obtain ⟨o', ho'⟩ := List.length_eq_one_iff.1 (Operation.checkArity_ok.1 harity).2
  rw [Operation.output_eq_ok, ho'] at ho
  simp only [List.length_cons, List.length_nil, Nat.zero_add, Nat.lt_add_one,
    List.getElem?_eq_getElem, List.getElem_cons_zero, Option.some.injEq] at ho
  rw [ho', ho]

theorem inputs_eq_one {x : OperandId} (h : op.inputs.length = 1) (hx : op.input 0 = .ok x) :
    op.inputs = [x] := by
  obtain ⟨a, ha⟩ := List.length_eq_one_iff.1 h
  rw [Operation.input_eq_ok, ha] at hx
  cases hx
  exact ha

theorem inputs_eq_two {x y : OperandId} (h : op.inputs.length = 2) (hx : op.input 0 = .ok x)
    (hy : op.input 1 = .ok y) : op.inputs = [x, y] := by
  obtain ⟨a, b, ha⟩ := List.length_eq_two.1 h
  rw [Operation.input_eq_ok, ha] at hx hy
  cases hx
  cases hy
  exact ha

theorem inputs_eq_three {x y z : OperandId} (h : op.inputs.length = 3) (hx : op.input 0 = .ok x)
    (hy : op.input 1 = .ok y) (hz : op.input 2 = .ok z) : op.inputs = [x, y, z] := by
  obtain ⟨a, b, c, ha⟩ := List.length_eq_three.1 h
  rw [Operation.input_eq_ok, ha] at hx hy hz
  cases hx
  cases hy
  cases hz
  exact ha

theorem admits_of_arity (harity : op.checkArity = .ok ()) {a : Attributes}
    (ha : op.attributes = a) : a.kind.admits op.inputs.length = true := by
  subst ha
  exact (Operation.checkArity_ok.1 harity).1

/-- An operation of most kinds has one input. -/
theorem length_of_admits_one {k : Kind} {n : Nat} (h : k.admits n = true)
    (hk : k.inputCount = "1") : n = 1 := by
  cases k <;> first | exact eq_of_beq h | exact absurd hk (by decide)

theorem sized_one {s : Shape} {xs : List Buffer} (h : Sized [s] xs) :
    ∃ x, xs = [x] ∧ x.size = s.elements := by
  obtain ⟨x, _, hx, hxs, rfl⟩ := List.forall₂_cons_left_iff.1 h
  obtain rfl := List.forall₂_nil_left_iff.1 hxs
  exact ⟨x, rfl, hx⟩

theorem sized_two {s t : Shape} {xs : List Buffer} (h : Sized [s, t] xs) :
    ∃ x y, xs = [x, y] ∧ x.size = s.elements ∧ y.size = t.elements := by
  obtain ⟨x, _, hx, hxs, rfl⟩ := List.forall₂_cons_left_iff.1 h
  obtain ⟨y, rfl, hy⟩ := sized_one hxs
  exact ⟨x, y, rfl, hx, hy⟩

theorem sized_three {s t u : Shape} {xs : List Buffer} (h : Sized [s, t, u] xs) :
    ∃ x y z, xs = [x, y, z] ∧ x.size = s.elements ∧ y.size = t.elements ∧
      z.size = u.elements := by
  obtain ⟨x, _, hx, hxs, rfl⟩ := List.forall₂_cons_left_iff.1 h
  obtain ⟨y, z, rfl, hy, hz⟩ := sized_two hxs
  exact ⟨x, y, z, rfl, hx, hy, hz⟩

end

/-! ## Kinds with windows -/

namespace Planner

variable {os : Operands} {c : Context} {op : Operation} {d d' : PlanDraft}

theorem conv2d_planned {p : ConvParams} (ha : op.attributes = .conv2d p)
    (harity : op.checkArity = .ok ()) (h : (conv2d os c op p).run d = .ok ((), d')) :
    ∃ ss o out k k' act fl, Planned os op ss o out k k' act fl := by
  obtain ⟨x, w, b, o, g, act, -, hx, hw, hb, ho, hg, hfits, hxs, hws, hbs, hos, -⟩ := conv2d_ok h
  have hlen : op.inputs.length = 3 := eq_of_beq (admits_of_arity harity ha)
  refine ⟨_, o, _, _, _, act, none, Planned.of_kernel (fun _ => .conv2d g)
    (output_of_arity harity ho) [g.input.dims, g.weights.dims, [g.weights.n]]
    g.output.dims ?_ hos ?_ (fun place b => ?_) fun xs hsized => ?_⟩
  · rw [inputs_eq_three hlen hx hw hb]
    exact .cons hxs (.cons hws (.cons hbs .nil))
  · simp only [Operation.kernel, ha, hg, pure, Except.pure, bind, Except.bind]
  · simp only [Stage.generate, ha, hg, bind, Except.bind]
  · obtain ⟨x, w, b, rfl, hx, hw, hb⟩ := sized_three hsized
    rw [Shape.elements_dims] at hx hw
    obtain ⟨y, hy, hgives⟩ := conv2d_gives hfits hx hw (by simpa [Shape.elements] using hb)
    refine ⟨y, hy.trans (Shape.elements_dims _).symm, hgives .nhwc act, ?_⟩
    simpa only [activate_none] using hgives .nchw .none

theorem pool2d_planned {kind : Kind} {p : PoolParams} {k : PoolGeometry → Activation → Kernel}
    (hlen : op.inputs.length = 1) (harity : op.checkArity = .ok ())
    (h : pool2d os op kind p = .ok ())
    (hkernel : ∀ {g act}, Geometry.pool2d kind op p os = .ok (g, act) →
      op.kernel os = .ok (k g act))
    (hstage : ∀ {g act}, Geometry.pool2d kind op p os = .ok (g, act) → ∀ place b,
      Stage.generate place b op os = Stage.ofKernel place b op (k g) act)
    (hgives : ∀ {g : PoolGeometry}, g.Fits → ∀ {x : Buffer}, x.size = g.input.elements →
      ∃ y : Buffer, y.size = g.output.elements ∧ ∀ l act,
        Gives l (k g act) [g.input.dims] g.output.dims [x] (activate act y)) :
    ∃ ss o out k k' act fl, Planned os op ss o out k k' act fl := by
  obtain ⟨x, o, g, act, hx, ho, hg, hfits, hxs, hos⟩ := pool2d_ok h
  refine ⟨_, o, _, _, _, act, none, Planned.of_kernel (fun _ => k g)
    (output_of_arity harity ho) [g.input.dims] g.output.dims ?_ hos (hkernel hg)
    (hstage hg) fun xs hsized => ?_⟩
  · rw [inputs_eq_one hlen hx]
    exact .cons hxs .nil
  · obtain ⟨x, rfl, hx⟩ := sized_one hsized
    rw [Shape.elements_dims] at hx
    obtain ⟨y, hy, hgives⟩ := hgives hfits hx
    refine ⟨y, hy.trans (Shape.elements_dims _).symm, hgives .nhwc act, ?_⟩
    simpa only [activate_none] using hgives .nchw .none

theorem maxPool2d_planned {p : PoolParams} (ha : op.attributes = .maxPool2d p)
    (harity : op.checkArity = .ok ()) (h : pool2d os op .maxPool2d p = .ok ()) :
    ∃ ss o out k k' act fl, Planned os op ss o out k k' act fl := by
  refine pool2d_planned (k := Kernel.maxPool2d)
    (length_of_admits_one (admits_of_arity harity ha) rfl) harity h (fun hg => ?_)
    (fun hg place b => ?_) maxPool2d_gives
  · simp only [Operation.kernel, ha, hg, pure, Except.pure, bind, Except.bind]
  · simp only [Stage.generate, ha, hg, bind, Except.bind]

theorem avgPool2d_planned {p : PoolParams} (ha : op.attributes = .avgPool2d p)
    (harity : op.checkArity = .ok ()) (h : pool2d os op .avgPool2d p = .ok ()) :
    ∃ ss o out k k' act fl, Planned os op ss o out k k' act fl := by
  refine pool2d_planned (k := Kernel.avgPool2d)
    (length_of_admits_one (admits_of_arity harity ha) rfl) harity h (fun hg => ?_)
    (fun hg place b => ?_) avgPool2d_gives
  · simp only [Operation.kernel, ha, hg, pure, Except.pure, bind, Except.bind]
  · simp only [Stage.generate, ha, hg, bind, Except.bind]

/-! ## Concatenation -/

theorem concat_planned {i : OperandId} (ha : op.attributes = .concat i)
    (harity : op.checkArity = .ok ()) (h : concat os op i = .ok ()) :
    ∃ ss o out k k' act fl, Planned os op ss o out k k' act fl := by
  obtain ⟨x, o, first, axis, es, hx, ho, haxis, hlt, hes, hos⟩ := concat_ok h
  have hne : es ≠ [] := by
    rintro rfl
    rw [Operation.input_eq_ok, List.forall₂_nil_right_iff.1 hes] at hx
    cases hx
  have hshapes : List.Forall₂ (HasShape os) op.inputs (es.map (first.set axis ·)) :=
    List.forall₂_map_right_iff.2 hes
  have hmap : (op.inputs.mapM fun i => (liftM (os.shape i) : Except Failure Shape))
      = .ok (es.map (first.set axis ·)) :=
    mapM_eq_ok.2 (hshapes.imp fun _ _ h => lift_eq_ok.2 (Operands.shape_eq_ok.2 h))
  have hrank : Shape.rank ((es.map (first.set axis ·)).getLastD []) = first.length := by
    obtain rfl | ⟨es, e, rfl⟩ := es.eq_nil_or_concat
    · exact absurd rfl hne
    · simp [Shape.rank]
  refine ⟨_, o, _, _, _, .none, none, Planned.of_kernel (fun place _ =>
      .concat ((es.map (first.set axis ·)).map place.layout.storageDims)
        (place.layout.storageAxis first.length axis))
    (output_of_arity harity ho) (es.map (first.set axis ·)) _ hshapes hos ?_
    (fun place b => ?_) fun xs hsized => ?_⟩
  · simp only [Operation.kernel, ha, haxis, bind, Except.bind, hmap]
    simp [Place.layout, storageDims, storageAxis, pure, Except.pure]
  · simp only [Stage.generate, ha, Stage.concat, haxis, bind, Except.bind, hmap, hrank]
  · obtain ⟨y, hy, hgives⟩ := concat_gives hne hlt hsized
    refine ⟨y, hy, ?_, hgives .nchw⟩
    rw [activate_none]
    exact hgives .nhwc

/-! ## Fully connected layers -/

theorem fullyConnected_planned {i : OperandId} (ha : op.attributes = .fullyConnected i)
    (harity : op.checkArity = .ok ()) (h : (fullyConnected os op i).run d = .ok ((), d')) :
    ∃ ss o out k k' act fl, Planned os op ss o out k k' act fl := by
  obtain ⟨x, w, b, o, s, dense, act, -, hx, hw, hb, ho, hdense, hxs, helements, hws, hbs, hos, -⟩ :=
    fullyConnected_ok h
  have hlen : op.inputs.length = 3 := eq_of_beq (admits_of_arity harity ha)
  obtain ⟨operand, hoperand, hshape⟩ := hxs
  refine ⟨[s, [dense.units, dense.inputSize], [dense.units]], o, [dense.batch, dense.units],
    .fullyConnected dense.batch dense.inputSize act, .fullyConnected dense.batch dense.inputSize .none,
    act, if operand.shape.rank = 4 then
      some ⟨.reshape operand.shape [dense.batch, dense.inputSize],
        ⟨[dense.batch, dense.inputSize], operand.type⟩⟩ else none,
    output_of_arity harity ho, ?_, hos, ?_, fun b => ?_, fun b => ?_, fun {xs} hsized => ?_⟩
  · rw [inputs_eq_three hlen hx hw hb]
    exact .cons ⟨operand, hoperand, hshape⟩ (.cons hws (.cons hbs .nil))
  · simp only [Operation.kernel, ha, hdense, pure, Except.pure, bind, Except.bind]
  · simp only [Stage.generate, ha, Stage.fullyConnected, hdense, bind, Except.bind, Stage.ofKernel,
      ho, pure, Except.pure]
  · have hget : (liftM (os.get x) : Except Failure Operand) = .ok operand :=
      lift_eq_ok.2 (Operands.get_eq_ok.2 hoperand)
    simp only [Stage.generate, ha, Stage.fullyConnected, hdense, bind, Except.bind, hx, hget, ho,
      pure, Except.pure]
  · obtain ⟨x, w, b, rfl, hx, hw, hb⟩ := sized_three hsized
    have hws : w.size = dense.units * dense.inputSize := by simpa [Shape.elements] using hw
    obtain ⟨y, hy, hgives⟩ := fullyConnected_gives (hx.trans helements) hws
      (b := b) (by simpa [Shape.elements] using hb)
    refine ⟨y, hy.trans (by simp [Shape.elements]), hgives .nhwc s act (.inl rfl), ?_⟩
    rw [hshape]
    by_cases hrank : s.rank = 4
    · rw [if_pos hrank]
      refine ⟨reshape_gives .nchw (by simpa [Shape.elements] using helements), ?_⟩
      simpa only [activate_none] using
        hgives .nchw [dense.batch, dense.inputSize] .none (.inr rfl)
    · rw [if_neg hrank]
      simpa only [activate_none, DeviceGives] using
        hgives .nchw s .none (.inr (feature?_eq_none hrank))

/-! ## Kinds with one kernel -/

theorem reshape_planned {target : Option OperandId} (ha : op.attributes = .reshape target)
    (harity : op.checkArity = .ok ()) (h : reshape os op target = .ok ()) :
    ∃ ss o out k k' act fl, Planned os op ss o out k k' act fl := by
  obtain ⟨x, o, s, t, hx, ho, hxs, hos, helements⟩ := reshape_ok h
  have hlen := length_of_admits_one (admits_of_arity harity ha) rfl
  have hs : (liftM (os.shape x) : Except Failure Shape) = .ok s :=
    lift_eq_ok.2 (Operands.shape_eq_ok.2 hxs)
  have ht : (liftM (os.shape o) : Except Failure Shape) = .ok t :=
    lift_eq_ok.2 (Operands.shape_eq_ok.2 hos)
  refine ⟨_, o, _, _, _, .none, none, Planned.of_kernel (fun _ _ => .reshape s t)
    (output_of_arity harity ho) [s] t ?_ hos ?_ (fun place b => ?_)
    fun xs hsized => ?_⟩
  · rw [inputs_eq_one hlen hx]
    exact .cons hxs .nil
  · simp only [Operation.kernel, ha, hx, ho, hs, ht, pure, Except.pure, bind, Except.bind]
  · simp only [Stage.generate, ha, hx, ho, hs, ht, bind, Except.bind]
  · obtain ⟨x, rfl, hx⟩ := sized_one hsized
    refine ⟨x, hx.trans helements, ?_, reshape_gives .nchw helements⟩
    rw [activate_none]
    exact reshape_gives .nhwc helements

theorem softmax_planned {i : OperandId} (ha : op.attributes = .softmax i)
    (harity : op.checkArity = .ok ()) (h : softmax os op i = .ok ()) :
    ∃ ss o out k k' act fl, Planned os op ss o out k k' act fl := by
  obtain ⟨x, o, s, beta, hx, ho, hxs, hos, hrank, hbeta⟩ := softmax_ok h
  have hlen := length_of_admits_one (admits_of_arity harity ha) rfl
  have hs : (liftM (os.shape x) : Except Failure Shape) = .ok s :=
    lift_eq_ok.2 (Operands.shape_eq_ok.2 hxs)
  have hb : (liftM (os.scalarFloat i) : Except Failure Word) = .ok beta := lift_eq_ok.2 hbeta
  refine ⟨_, o, _, _, _, .none, none, Planned.of_kernel (fun place _ =>
      .softmax (Geometry.softmaxExtents s place.layout).1
        (Geometry.softmaxExtents s place.layout).2.1 (Geometry.softmaxExtents s place.layout).2.2 beta)
    (output_of_arity harity ho) [s] s ?_ hos ?_ (fun place b => ?_)
    fun xs hsized => ?_⟩
  · rw [inputs_eq_one hlen hx]
    exact .cons hxs .nil
  · simp only [Operation.kernel, ha, hx, hs, hb, pure, Except.pure, bind, Except.bind]
    rfl
  · simp only [Stage.generate, ha, hx, hs, hb, bind, Except.bind]
  · obtain ⟨x, rfl, hx⟩ := sized_one hsized
    obtain ⟨y, hy, hgives⟩ := softmax_gives hrank beta hx
    refine ⟨y, hy, ?_, hgives .nchw⟩
    rw [activate_none]
    exact hgives .nhwc

theorem add_planned {i : OperandId} (ha : op.attributes = .add i)
    (harity : op.checkArity = .ok ()) (h : add os op i = .ok ()) :
    ∃ ss o out k k' act fl, Planned os op ss o out k k' act fl := by
  obtain ⟨x, y, o, s, act, hx, hy, ho, hxs, hys, hos, hact⟩ := add_ok h
  have hlen : op.inputs.length = 2 := eq_of_beq (admits_of_arity harity ha)
  have hact : (liftM (Geometry.activation .add os i) : Except Failure Activation) = .ok act :=
    lift_eq_ok.2 hact
  refine ⟨_, o, _, _, _, act, none, Planned.of_kernel (fun _ => .add)
    (output_of_arity harity ho) [s, s] s ?_ hos ?_ (fun place b => ?_)
    fun xs hsized => ?_⟩
  · rw [inputs_eq_two hlen hx hy]
    exact .cons hxs (.cons hys .nil)
  · simp only [Operation.kernel, ha, hact, pure, Except.pure, bind, Except.bind]
  · simp only [Stage.generate, ha, hact, bind, Except.bind]
  · obtain ⟨x, y, rfl, hx, hy⟩ := sized_two hsized
    refine ⟨Array.zipWith Word.add x y, by simp [hx, hy], add_gives .nhwc act, ?_⟩
    simpa only [activate_none] using add_gives .nchw .none

theorem cast_planned (ha : op.attributes = .cast) (harity : op.checkArity = .ok ())
    (h : cast os op = .ok ()) : ∃ ss o out k k' act fl, Planned os op ss o out k k' act fl := by
  obtain ⟨x, o, s, hx, ho, hxs, hos⟩ := cast_ok h
  have hlen := length_of_admits_one (admits_of_arity harity ha) rfl
  obtain ⟨source, hsource, -⟩ := id hxs
  obtain ⟨target, htarget, -⟩ := id hos
  have hs : (liftM (os.get x) : Except Failure Operand) = .ok source :=
    lift_eq_ok.2 (Operands.get_eq_ok.2 hsource)
  have ht : (liftM (os.get o) : Except Failure Operand) = .ok target :=
    lift_eq_ok.2 (Operands.get_eq_ok.2 htarget)
  refine ⟨_, o, _, _, _, .none, none, Planned.of_kernel (fun _ _ => .cast source.type target.type)
    (output_of_arity harity ho) [s] s ?_ hos ?_ (fun place b => ?_)
    fun xs hsized => ?_⟩
  · rw [inputs_eq_one hlen hx]
    exact .cons hxs .nil
  · simp only [Operation.kernel, ha, hx, ho, hs, ht, pure, Except.pure, bind, Except.bind]
  · simp only [Stage.generate, ha, hx, ho, hs, ht, bind, Except.bind]
  · obtain ⟨x, rfl, hx⟩ := sized_one hsized
    refine ⟨x.map (castWord source.type target.type), by simpa using hx, ?_, cast_gives .nchw _ _⟩
    rw [activate_none]
    exact cast_gives .nhwc _ _

theorem nop_planned (ha : op.attributes = .nop) (harity : op.checkArity = .ok ())
    (h : copy os op = .ok ()) : ∃ ss o out k k' act fl, Planned os op ss o out k k' act fl := by
  obtain ⟨x, o, s, hx, ho, hxs, hos⟩ := copy_ok h
  have hlen := length_of_admits_one (admits_of_arity harity ha) rfl
  refine ⟨_, o, _, _, _, .none, none, Planned.of_kernel (fun _ _ => .copy)
    (output_of_arity harity ho) [s] s ?_ hos ?_ (fun place b => ?_)
    fun xs hsized => ?_⟩
  · rw [inputs_eq_one hlen hx]
    exact .cons hxs .nil
  · simp only [Operation.kernel, ha, pure, Except.pure]
  · simp only [Stage.generate, ha]
  · obtain ⟨x, rfl, hx⟩ := sized_one hsized
    refine ⟨x, hx, ?_, copy_gives .nchw⟩
    rw [activate_none]
    exact copy_gives .nhwc

/-! ## All kinds -/

/-- **An operation that passed its checks has a stage on either backend**, and both give the same
logical words. -/
theorem checkOperation_planned (harity : op.checkArity = .ok ()) (hkind : op.kind ≠ .permute)
    (h : (checkOperation os c op).run d = .ok ((), d')) :
    ∃ ss o out k k' act fl, Planned os op ss o out k k' act fl := by
  cases ha : op.attributes with
  | conv2d p =>
    simp only [checkOperation, ha] at h
    exact conv2d_planned ha harity h
  | maxPool2d p =>
    simp only [checkOperation, ha, planning_lift] at h
    exact maxPool2d_planned ha harity h.1
  | avgPool2d p =>
    simp only [checkOperation, ha, planning_lift] at h
    exact avgPool2d_planned ha harity h.1
  | concat i =>
    simp only [checkOperation, ha, planning_lift] at h
    exact concat_planned ha harity h.1
  | fullyConnected i =>
    simp only [checkOperation, ha] at h
    exact fullyConnected_planned ha harity h
  | reshape target =>
    simp only [checkOperation, ha, planning_lift] at h
    exact reshape_planned ha harity h.1
  | softmax i =>
    simp only [checkOperation, ha, planning_lift] at h
    exact softmax_planned ha harity h.1
  | add i =>
    simp only [checkOperation, ha, planning_lift] at h
    exact add_planned ha harity h.1
  | cast =>
    simp only [checkOperation, ha, planning_lift] at h
    exact cast_planned ha harity h.1
  | nop =>
    simp only [checkOperation, ha, planning_lift] at h
    exact nop_planned ha harity h.1
  | permute a b => exact absurd (by rw [Operation.kind, ha]; rfl) hkind

/-- An operation that copies between backends keeps the shape. -/
theorem permute_planned {a b : BackendId} (ha : op.attributes = .permute a b)
    (harity : op.checkArity = .ok ()) (h : (checkOperation os c op).run d = .ok ((), d')) :
    ∃ x o s, op.inputs = [x] ∧ op.outputs = [o] ∧ HasShape os x s ∧ HasShape os o s ∧
      ∀ place id, Stage.generate place id op os = .ok (.permute x o a b) := by
  simp only [checkOperation, ha, planning_lift] at h
  obtain ⟨x, o, s, hx, ho, hxs, hos⟩ := copy_ok h.1
  have hlen := length_of_admits_one (admits_of_arity harity ha) rfl
  refine ⟨x, o, s, inputs_eq_one hlen hx, output_of_arity harity ho, hxs, hos, fun place id => ?_⟩
  simp only [Stage.generate, ha, hx, ho, pure, Except.pure, bind, Except.bind]

end Planner

end HeteroNet
