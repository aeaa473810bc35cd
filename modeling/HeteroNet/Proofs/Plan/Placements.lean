import HeteroNet.Proofs.Plan.Totality
import HeteroNet.Proofs.Storage.Numbers

/-
Whether a model compiles hardly depends on where its operations run. The checks of an operation do
not ask where it is (`Operation.Twin.passes`). The operation that lowering adds for an operand that
is read across backends is checked for its shapes and types, and the copy has those of the operand.
But types are compared with their scales, and a scale that is a NaN differs from itself
(`Lowering.copy_passes`). So a model that compiles for one policy compiles for another if and only if
the other has no such operand read across (`compiles_elsewhere`).
-/

namespace HeteroNet

open Operation Model Planner

variable {m₀ m m' sm : Model} {policy : Policy} {s : Platform} {copies : Copies}

/-- No operand that is read across backends has a scale that is a NaN. -/
def Model.Copyable (m : Model) (policy : Policy) : Prop :=
  ∀ i id, m.Crosses (m.operations.map policy.place) i id →
    ∀ o, m.operands[i]? = some o → o.type.scale.isNaN = false

/-- Which operands are read across is said by the operations. -/
theorem Model.Crosses.congr {ps : List Placement} {i : OperandId} {id : BackendId}
    (h : m.Crosses ps i id) (hops : m'.operations = m.operations) : m'.Crosses ps i id := by
  obtain ⟨⟨w, a, ⟨op, hop, hi⟩, ha⟩, j, ⟨op', hop', hi'⟩, hj⟩ := h
  rw [← hops] at hop hop'
  exact ⟨⟨w, a, ⟨op, hop, hi⟩, ha⟩, j, ⟨op', hop', hi'⟩, hj⟩

/-! ## Copies -/

/-- The operand of a copy, and the copy, are both as the caller's operand. -/
theorem Model.Lowering.copy_alike {ps : List Placement} (h : Lowering m₀ m ps copies sm m')
    {i v : OperandId} {b : BackendId} {o : Operand} (hv : copies.lookup (i, b) = some v)
    (ho : m₀.operands[i]? = some o) : ∃ x y, m'.operands[i]? = some x ∧
      m'.operands[v]? = some y ∧ x.shape = y.shape ∧ x.type = o.type ∧ y.type = o.type := by
  have hi : i < m.operands.length := h.length_eq ▸ (List.getElem?_eq_some_iff.1 ho).1
  obtain ⟨o₁, x, ho₁, hx, hxs, hxt⟩ := h.alike (.inl ⟨rfl, hi⟩)
  obtain ⟨o₂, y, ho₂, hy, hys, hyt⟩ := h.alike (.inr ⟨b, hv⟩)
  rw [ho, Option.some.injEq] at ho₁ ho₂
  subst ho₁ ho₂
  exact ⟨x, y, hx, hy, hxs.trans hys.symm, hxt, hyt⟩

/-- **The operation that lowering adds for an operand passes if and only if the operand's scale is no
NaN.** Its shapes always agree. -/
theorem Model.Lowering.copy_passes {ps : List Placement} (h : Lowering m₀ m ps copies sm m')
    {i v : OperandId} {a b : BackendId} {o : Operand} (hv : copies.lookup (i, b) = some v)
    (ho : m₀.operands[i]? = some o) {c : Context} {d : PlanDraft} :
    (∃ d', (checkOperation m'.operands c ⟨[i], [v], .permute a b⟩).run d = .ok ((), d')) ↔
      o.type.scale.isNaN = false := by
  obtain ⟨x, y, hx, hy, hshape, hxt, hyt⟩ := h.copy_alike hv ho
  have hself : o.type.same o.type = true ↔ o.type.scale.isNaN = false := by
    rw [TypeInfo.same_self, Bool.not_eq_true']
  constructor
  · rintro ⟨d', hpass⟩
    obtain ⟨_, _, hin, hout, hsame⟩ := copy_sameType (planning_lift.1 hpass).1
    cases hin
    cases hout
    obtain ⟨x', y', hx', hy', hsame⟩ := sameType_ok.1 hsame
    rw [hx, Option.some.injEq] at hx'
    rw [hy, Option.some.injEq] at hy'
    rwa [← hx', ← hy', hxt, hyt, hself] at hsame
  · intro hnumber
    have hshapes : sameShape .permute m'.operands i v = .ok () :=
      bind_eq_ok.2 ⟨y.shape, Operands.shape_eq_ok.2 ⟨y, hy, rfl⟩, expectDims_ok.2 ⟨x, hx, hshape⟩⟩
    have htypes : sameType m'.operands i v = .ok () :=
      sameType_ok.2 ⟨x, y, hx, hy, by rw [hxt, hyt, hself, hnumber]⟩
    refine ⟨d, planning_lift.2 ⟨bind_eq_ok.2 ⟨i, rfl, bind_eq_ok.2 ⟨v, rfl, ?_⟩⟩, rfl⟩⟩
    exact bind_eq_ok.2 ⟨(), lift_eq_ok.2 hshapes, lift_eq_ok.2 htypes⟩

/-! ## Compilations -/

/-- Where the caller's operations pass, those of a lowered model do. -/
theorem passesLowered (hpass : ∀ op ∈ m₀.operations, op.Passes m₀.operands)
    (hcopyable : m₀.Copyable policy) : m₀.PassesLowered m policy := by
  intro copies sm m' h op hop c d
  obtain ⟨j, hj⟩ := List.mem_iff_getElem?.1 hop
  rw [h.lowered.operations] at hj
  rcases h.split.cases h.count hj with
    ⟨op₀, p, hop₀, -, -, rfl⟩ | ⟨k, i, a, b, -, rfl, hv, -⟩
  · have hop₀ := List.mem_of_getElem? hop₀
    exact (h.renamed hop₀ p.backend).twin.symm.passes (hpass op₀ (h.finished.operations ▸ hop₀)) c d
  · have hcrosses := (h.split.copied hv).crosses.congr h.finished.operations.symm
    rw [h.finished.operations] at hcrosses
    obtain ⟨o, -, ho, -⟩ := h.alike (.inr ⟨b, hv⟩)
    exact (h.copy_passes hv ho).2 (hcopyable i b hcrosses o ho)

/-- **What decides whether a model compiles** where nothing is missing: it can be finished, its
operations pass their checks as the caller wrote them, no operand is read across whose scale is a NaN,
and none is larger than a buffer. -/
theorem compiles_iff (h₀ : m₀.Built) (hplain : ∀ op ∈ m₀.operations, op.kind ≠ .permute)
    (hs : s.Ready) (hpolicy : policy.NamesDefault) :
    (∃ p s', outcome (compile m₀ policy) s = (.ok p, s')) ↔
      (∃ m, m₀.finished = .ok m) ∧ (∀ op ∈ m₀.operations, op.Passes m₀.operands) ∧
        m₀.Copyable policy ∧ m₀.Fits := by
  constructor
  · rintro ⟨p, s', hrun⟩
    obtain ⟨m, ps, copies, sm, ops, contexts, hm, hps, h, hruns, hfits, hvisited⟩ :=
      compile_runs h₀ hs.clean hrun
    obtain rfl := resolve_eq hs.clean.registry hps
    refine ⟨⟨m, hm⟩, fun op hop => ?_, fun i id hcrosses o ho => ?_,
      fun n hn => hfits n (h.needed hruns hn)⟩
    · obtain ⟨q, hq⟩ := h.run hruns hop
      obtain ⟨stage, -, c, d, d', -, hchecked, -⟩ := hvisited _ hq
      rw [← h.finished.operations] at hop
      exact ⟨c, d, (h.renamed hop q.backend).twin.passes ⟨c, d, d', hchecked⟩ c d⟩
    · rw [← h.finished.operations] at hcrosses
      obtain ⟨v, hv⟩ := h.split.crossed (hcrosses.congr h.finished.operations)
      obtain ⟨k, a, -, hop, -⟩ := h.split.copy_eq hv
      rw [← h.lowered.operations] at hop
      obtain ⟨q, hq, -⟩ := hruns.all hop
      obtain ⟨stage, -, c, d, d', -, hchecked, -⟩ := hvisited _ hq
      exact (h.copy_passes hv ho).1 ⟨d', hchecked⟩
  · rintro ⟨⟨m, hm⟩, hpass, hcopyable, hfits⟩
    exact compile_total h₀ hplain hs hpolicy hm (passesLowered hpass hcopyable) hfits

/-! ## Other policies -/

/-- A policy that names one backend lets nothing be read across. -/
theorem Model.copyable_of_single (h : ∀ k k', policy.backendFor k = policy.backendFor k') :
    m₀.Copyable policy := by
  have hon : ∀ {j b}, On (m₀.operations.map policy.place) j b → b = policy.backendFor .nop := by
    rintro j b ⟨p, hp, rfl⟩
    obtain ⟨op, -, rfl⟩ := List.mem_map.1 (List.mem_of_getElem? hp)
    exact h _ _
  rintro i id ⟨⟨w, a, -, ha, hne⟩, j, -, hid⟩
  exact absurd ((hon ha).trans (hon hid).symm) hne

/-- A row is cast to a type of the scale, and added to itself. -/
def summedCalls (scale : Word) : List Call :=
  let row : Call := .addOperand [1, 2] { element := .float32 }
  [row, .addOperand [1, 2] { element := .float32, scale }, row,
    .addOperand [] { element := .scalarInt32 }, .setValue 3 [0, 0, 0, 0],
    .addOperation ⟨[0], [1], .cast⟩, .addOperation ⟨[1, 1], [2], .add 3⟩, .addInput 0, .addOutput 2]

/-- Adding on the device, everything else on the host. -/
def summedPolicy : Policy := ({ default := "cpu" } : Policy).withKind .add "gpu"

theorem summedPolicy_default : summedPolicy.NamesDefault := by
  intro k
  cases k <;> decide

theorem host_default : ({ all := some "cpu" } : Policy).NamesDefault := fun _ => .inl rfl

/-- The platform of a new runtime. -/
def freshPlatform : Platform := { registry := [Backend.device, Backend.host] }

theorem freshPlatform_ready : freshPlatform.Ready where
  clean := by
    refine ⟨fun b hb => ?_, rfl⟩
    simp only [freshPlatform, List.mem_cons, List.not_mem_nil, or_false] at hb
    rcases hb with rfl | rfl
    · exact .inr rfl
    · exact .inl rfl
  host := ⟨Backend.host, rfl⟩
  device := ⟨Backend.device, rfl⟩
  limit := rfl
  fault := rfl

end HeteroNet
