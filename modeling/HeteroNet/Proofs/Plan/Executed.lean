import HeteroNet.Proofs.Plan.Compiled

/-
Running a plan. A run writes the tensors that operations write, scratch, and the tensors of the
inputs (`Plan.Touched`). All others keep what they were filled with, so a plan stays kept however
often it runs. And nothing else of what is in memory before a run has a part in what the run leaves:
that depends on the inputs alone (`Model.final`).
-/

namespace HeteroNet

open Operation Model

/-- The words that a run leaves, given the words of the inputs. -/
def Model.final (m : Model) (ops : List (Operation × Placement))
    (given : OperandId → Option Buffer) : Words :=
  ops.foldl (act m.operands) (push given (initial m.operands))

namespace Plan

/-- The cells that runs of a plan write. -/
def Touched (p : Plan) (ops : List (Operation × Placement)) (c : CellId) : Prop :=
  Written p.builders (ops.flatMap writes) c ∨
    ∃ id i t, i ∈ p.model.inputs ∧ tensorAt p.builders (id, i) = some t ∧ t.cell = c

/-- The plan was made of a caller's model. -/
structure Compiled (m₀ : Model) (policy : Policy) (p : Plan) (ops : List (Operation × Placement)) :
    Prop where
  built : m₀.Built
  compiles : Compiles m₀ policy p.model ops
  made : p.Made ops

variable {m₀ : Model} {policy : Policy} {p : Plan} {ops : List (Operation × Placement)}
  {mem mem' : Memory} {W : CellId → Prop} {given : OperandId → Option Buffer}

theorem Compiled.constants (h : p.Compiled m₀ policy ops) : ConstantsSized p.model.operands := by
  obtain ⟨m, ps, copies, s, hlowering⟩ := h.compiles.lowering h.built
  exact hlowering.lowConstants

/-- Every output has a tensor. -/
theorem Compiled.output_site (h : p.Compiled m₀ policy ops) {i : OperandId}
    (hi : i ∈ p.model.outputs) : ∃ id, (id, i) ∈ sites ops := by
  obtain ⟨m, ps, copies, s, hlowering⟩ := h.compiles.lowering h.built
  exact hlowering.output_site h.made.runs.all hi

/-! ## What runs leave alone -/

/-- A tensor that a run may write is written by an operation or by the caller. -/
theorem Made.touched (h : p.Made ops) {s : Site} {t : Tensor}
    (ht : tensorAt p.builders s = some t) (hc : p.Touched ops t.cell) :
    s ∈ ops.flatMap writes ∨ s.2 ∈ p.model.inputs := by
  rcases hc with (⟨s', hs', t', ht', hc⟩ | ⟨u, hu, hc⟩) | ⟨id, i, t', hi, ht', hc⟩
  · obtain rfl := h.apart.cell_injective ht' ht hc
    exact .inl hs'
  · exact absurd hc.symm (h.apart.cell_ne_scratch ht hu)
  · obtain rfl := h.apart.cell_injective ht' ht hc
    exact .inr hi

/-- **A plan stays kept** as long as only its own runs write its tensors. -/
theorem Kept.rewritten (h : p.Made ops) (hk : p.Kept ops mem)
    (hm : Memory.Rewritten W mem mem')
    (hW : ∀ t ∈ tensorsOf p.builders, W t.cell → p.Touched ops t.cell) : p.Kept ops mem' where
  ready := hk.ready.rewritten hm
  initial s t ht hs hi := by
    have hsame : mem'.contents t.cell = mem.contents t.cell :=
      congrArg Cell.words (hm.same _ fun hw =>
        (h.touched ht (hW t (mem_tensorsOf_of_tensorAt ht) hw)).elim hs hi)
    rw [hsame]
    exact hk.initial s t ht hs hi

/-- What a kept plan has in memory, in logical words. -/
theorem Kept.exists_words (h : p.Compiled m₀ policy ops) (hk : p.Kept ops mem) :
    ∃ V, Fit p.model.operands V ∧ Holds p.builders mem.contents V ∧
      ∀ s, s ∉ ops.flatMap writes → s.2 ∉ p.model.inputs →
        V s = Model.initial p.model.operands s := by
  have hsite : ∀ s, ∃ x : Buffer,
      (∀ t, tensorAt p.builders s = some t →
        Layout.Stores t.layout t.info.shape x (mem.contents t.cell)) ∧
      (s ∉ ops.flatMap writes → s.2 ∉ p.model.inputs → x = Model.initial p.model.operands s) ∧
      ∀ shape, HasShape p.model.operands s.2 shape → x.size = shape.elements := by
    rintro ⟨id, i⟩
    cases ht : tensorAt p.builders (id, i) with
    | none =>
      refine ⟨Model.initial p.model.operands (id, i), fun t ht => (by cases ht), fun _ _ => rfl, ?_⟩
      exact fun shape hshape => initial_fit h.constants id hshape
    | some t =>
      have hready := hk.ready t (mem_tensorsOf_of_tensorAt ht)
      obtain ⟨x, hx⟩ := Layout.exists_stored (l := t.layout) hready.size
      refine ⟨x, fun t' ht' => ?_, fun hs hi => ?_, fun shape hshape => ?_⟩
      · cases ht'
        exact hx
      · exact hx.left_unique (hk.initial _ t ht hs hi)
      · rw [← (h.made.table.stores ht hshape).2]
        exact hx.words
  choose V hV using hsite
  exact ⟨V, fun b i shape hshape => (hV (b, i)).2.2 shape hshape, fun s => (hV s).1,
    fun s => (hV s).2.1⟩

/-- **What a run leaves depends on the inputs alone.** -/
theorem Compiled.final_eq (h : p.Compiled m₀ policy ops) {V : Words}
    (hV : ∀ s, s ∉ ops.flatMap writes → s.2 ∉ p.model.inputs → V s = initial p.model.operands s)
    (hgiven : ∀ i ∈ p.model.inputs, (given i).isSome) :
    ops.foldl (act p.model.operands) (push given V) = p.model.final ops given := by
  refine run_agrees h.made.runs.ordered (fun q hq => ?_) fun s hs => ?_
  · obtain ⟨ss, o, out, k, hworks⟩ := h.made.runs.works q hq
    exact ⟨o, hworks.outputs⟩
  · rw [push, push]
    cases hg : given s.2 with
    | some ws => rfl
    | none =>
      refine hV s hs fun hi => ?_
      have hsome := hgiven _ hi
      rw [hg] at hsome
      cases hsome

/-- **Running the steps of a plan** on tensors that hold the inputs. -/
theorem Made.execute_ends {m₁ m : Machine} {E : CellId → Buffer} {n : Nat} {V : Words}
    (h : p.Made ops) (hready : AllReady p.builders m₁.memory) (hV : Fit p.model.operands V)
    (hE : Holds p.builders E V) (hsized : SizedAs m₁.memory E)
    (hgoing : Going (p.Touched ops) (∃ b ∈ p.builders, b.place = .device) m₁ E n m) :
    Ends (outcome p.execute m)
      (fun _ m' => Memory.Rewritten (p.Touched ops) m₁.memory m'.memory ∧
        ∃ E', Healthy m₁ E' (n + commandsOf p.runnables) m' ∧
          Holds p.builders E' (ops.foldl (act p.model.operands) V))
      (Stopped (p.Touched ops) m₁) := by
  obtain ⟨groups, hgroups, hbound⟩ := h.steps
  have hsteps := bound_steps hbound h.table h.apart hready
  have hall : ∀ r ∈ p.runnables, r.Total m₁.memory ∧ p.Touched ops r.output ∧
      (0 < r.commands → ∃ b ∈ p.builders, b.place = .device) := by
    intro r hr
    obtain ⟨htotal, hw, hd⟩ := hsteps r (hgroups ▸ hr)
    exact ⟨htotal, .inl hw, hd⟩
  have hends := Plan.runAll_ends (p := p) id hall hgoing
  refine hends.mono (fun _ m' hm' => ⟨hm'.1, _, hm'.2, ?_⟩) fun _ _ he => he
  rw [hgroups]
  exact bound_holds hbound h.table h.apart hready hsized hV hE

end Plan

end HeteroNet
