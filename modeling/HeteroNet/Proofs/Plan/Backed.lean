import HeteroNet.Proofs.Plan.Executed
import HeteroNet.Proofs.Plan.Fitted

/-
Which memory a plan reads. Every cell that a step of a plan reads should be written: by a step of
the plan, or from outside, where the cell is a tensor of an input or of a constant (`Plan.Backed`). A
plan for a caller's model is so if and only if the copies that the caller wrote agree with the
policy (`Compiles.backed_iff`); a model in which he wrote none always agrees (`Model.fitted_plain`).
-/

namespace HeteroNet

open Operation Model

/-- The cells that the step reads, other than the one it writes. -/
def Runnable.reads : Runnable → List CellId
  | host _ _ ins _ => ins
  | device _ _ ins _ => ins
  | permute _ source _ => [source.cell]

/-- The words of the operand are given with the model or for a run. -/
def Model.Supplies (m : Model) (i : OperandId) : Prop :=
  i ∈ m.inputs ∨ ∃ o data, m.operands[i]? = some o ∧ o.data = some data

/-- Every cell that a step reads is written by a step, or it is the cell of a tensor that is filled
from outside. -/
def Plan.Backed (p : Plan) : Prop :=
  ∀ r ∈ p.runnables, ∀ c ∈ r.reads, (∃ r' ∈ p.runnables, r'.output = c) ∨
    ∃ i, p.model.Supplies i ∧ ∃ t ∈ p.tensors i, t.cell = c

variable {os : Operands} {sites : List Site} {bs : List TensorBuilder} {mem : Memory}
  {q : Operation × Placement} {rs : List Runnable} {p : Plan} {ops : List (Operation × Placement)}

/-! ## The steps of an operation -/

/-- The steps of an operation read and write its tensors; what else they read, they write. -/
structure Accesses (bs : List TensorBuilder) (q : Operation × Placement) (rs : List Runnable) :
    Prop where
  cell : ∀ r ∈ rs, ∀ c ∈ r.reads, (∃ s ∈ reads q, ∃ t, tensorAt bs s = some t ∧ t.cell = c) ∨
    ∃ r' ∈ rs, r'.output = c
  read : ∀ s ∈ reads q, ∃ t, tensorAt bs s = some t ∧ ∃ r ∈ rs, t.cell ∈ r.reads
  written : ∀ s ∈ writes q, ∃ t, tensorAt bs s = some t ∧ ∃ r ∈ rs, r.output = t.cell

section

variable {op : Operation} {p : Placement} {id : BackendId} {ts : List Tensor}

/-- The cells of an operation's inputs are those of the tensors it reads. -/
theorem mem_cells (hk : op.kind ≠ .permute) (hts : TensorsAt bs p.backend op.inputs ts) {c : CellId}
    (hc : c ∈ ts.map Tensor.cell) : ∃ s ∈ reads (op, p), ∃ t, tensorAt bs s = some t ∧ t.cell = c := by
  obtain ⟨t, ht, rfl⟩ := List.mem_map.1 hc
  obtain ⟨i, hi, hit⟩ := (mem_of_forall₂ hts).1 t ht
  exact ⟨_, List.mem_map_of_mem hi, t, by rwa [source_of_kind hk], rfl⟩

/-- The tensors that an operation reads are those of its inputs. -/
theorem reads_cell (hk : op.kind ≠ .permute) (hts : TensorsAt bs p.backend op.inputs ts) {s : Site}
    (hs : s ∈ reads (op, p)) : ∃ t, tensorAt bs s = some t ∧ t.cell ∈ ts.map Tensor.cell := by
  obtain ⟨i, hi, rfl⟩ := List.mem_map.1 hs
  obtain ⟨t, ht, hit⟩ := (mem_of_forall₂ hts).2 i hi
  exact ⟨t, by rwa [source_of_kind hk], List.mem_map_of_mem ht⟩

/-- Steps that read the cells of an operation's inputs, and whatever else one of them writes, and
write the cell of its output. -/
theorem accesses_of_cells {ss : List Shape} {o : OperandId} {out : Shape} {k k' : Kernel}
    {act : Activation} {fl : Option Flatten} {t : Tensor}
    (hp : Planned os op ss o out k k' act fl) (hk : op.kind ≠ .permute)
    (hts : TensorsAt bs p.backend op.inputs ts) (ht : tensorAt bs (p.backend, o) = some t)
    (hreads : ∀ r ∈ rs, ∀ c ∈ r.reads, c ∈ ts.map Tensor.cell ∨ ∃ r' ∈ rs, r'.output = c)
    (hall : ∀ c ∈ ts.map Tensor.cell, ∃ r ∈ rs, c ∈ r.reads)
    (hwrites : ∃ r ∈ rs, r.output = t.cell) : Accesses bs (op, p) rs where
  cell r hr c hc := (hreads r hr c hc).imp_left (mem_cells hk hts)
  read s hs := by
    obtain ⟨t', ht', hc⟩ := reads_cell hk hts hs
    exact ⟨t', ht', hall _ hc⟩
  written s hs := by
    rw [hp.writes_eq hk, List.mem_singleton] at hs
    subst hs
    exact ⟨t, ht, hwrites⟩

end

theorem Bound.accesses (h : Bound os bs q rs) : Accesses bs q rs := by
  cases h with
  | host label hp hk _ hts ht =>
    refine accesses_of_cells hp hk hts ht (fun r hr c hc => ?_)
      (fun c hc => ⟨_, List.mem_singleton_self _, hc⟩) ⟨_, List.mem_singleton_self _, rfl⟩
    rw [List.mem_singleton] at hr
    subst hr
    exact .inl hc
  | device label label' hp hk _ hts ht =>
    refine accesses_of_cells hp hk hts ht (fun r hr c hc => ?_)
      (fun c hc => ⟨_, List.mem_cons_self, hc⟩) ⟨_, List.mem_cons_self, rfl⟩
    rcases Runnable.mem_deviceSteps hr with rfl | rfl
    · exact .inl hc
    · cases hc
  | flattened label₀ label label' hp hk _ hts ht =>
    refine accesses_of_cells hp hk hts ht (fun r hr c hc => ?_) (fun c hc => ?_)
      ⟨_, List.mem_cons_of_mem _ List.mem_cons_self, rfl⟩
    · rcases List.mem_cons.1 hr with rfl | hr
      · rw [Runnable.reads, List.mem_singleton] at hc
        exact .inl (hc ▸ List.mem_cons_self)
      · rcases Runnable.mem_deviceSteps hr with rfl | rfl
        · -- The flattened weights are what the step before wrote.
          rcases List.mem_cons.1 hc with rfl | hc
          · exact .inr ⟨_, List.mem_cons_self, rfl⟩
          · exact .inl (List.mem_cons_of_mem _ hc)
        · cases hc
    · rcases List.mem_cons.1 hc with hc | hc
      · exact ⟨_, List.mem_cons_self, List.mem_singleton.2 hc⟩
      · exact ⟨_, List.mem_cons_of_mem _ List.mem_cons_self, List.mem_cons_of_mem _ hc⟩
  | @permute op p a b x _ _ source target label ha hx ho hxs hos hsource htarget =>
    have hreads : reads (op, p) = [(a, x)] := by
      rw [reads, hx, Operation.source, ha]
      rfl
    have hwrites := (works_of_permute ha hx ho hxs hos).writes_eq (p := p)
    rw [Operation.target, ha] at hwrites
    refine ⟨fun r hr c hc => ?_, fun s hs => ?_, fun s hs => ?_⟩
    · rw [List.mem_singleton] at hr
      subst hr
      rw [Runnable.reads, List.mem_singleton] at hc
      subst hc
      exact .inl ⟨_, hreads ▸ List.mem_singleton_self _, source, hsource, rfl⟩
    · rw [hreads, List.mem_singleton] at hs
      subst hs
      exact ⟨source, hsource, _, List.mem_singleton_self _, List.mem_singleton_self _⟩
    · rw [hwrites, List.mem_singleton] at hs
      subst hs
      exact ⟨target, htarget, _, List.mem_singleton_self _, rfl⟩

/-! ## The steps of a plan -/

namespace Plan

/-- The steps of a plan read cells that are written if and only if its operations read tensors that
are. -/
theorem Made.backed_iff (h : p.Made ops) (hready : AllReady p.builders mem) :
    p.Backed ↔ ∀ s ∈ ops.flatMap reads, s ∈ ops.flatMap writes ∨ p.model.Supplies s.2 := by
  obtain ⟨groups, hrunnables, hbound⟩ := h.steps
  obtain ⟨hop, hgroup⟩ := mem_of_forall₂ hbound
  have hmem : ∀ {r : Runnable}, r ∈ p.runnables ↔ ∃ rs ∈ groups, r ∈ rs := by
    intro r
    rw [hrunnables, List.mem_flatten]
  refine ⟨fun hbacked s hs => ?_, fun hall r hr c hc => ?_⟩
  · obtain ⟨q, hq, hs⟩ := List.mem_flatMap.1 hs
    obtain ⟨rs, hrs, hb⟩ := hgroup q hq
    obtain ⟨t, ht, r, hr, hc⟩ := hb.accesses.read s hs
    rcases hbacked r (hmem.2 ⟨rs, hrs, hr⟩) _ hc with ⟨r', hr', hcell⟩ | ⟨i, hi, t', ht', hcell⟩
    · -- Another tensor has another cell.
      rw [hrunnables] at hr'
      rcases (bound_steps hbound h.table h.apart hready r' hr').2.1 with
        ⟨s', hs', t', ht', hcell'⟩ | ⟨u, hu, hcell'⟩
      · rw [h.apart.cell_injective ht ht' (hcell.symm.trans hcell'.symm)]
        exact .inl hs'
      · exact absurd (hcell.symm.trans hcell'.symm) (h.apart.cell_ne_scratch ht hu)
    · obtain ⟨id, ht'⟩ := (h.table.mem_tensors rfl).1 ht'
      rw [h.apart.cell_injective ht ht' hcell.symm]
      exact .inr hi
  · obtain ⟨rs, hrs, hr⟩ := hmem.1 hr
    obtain ⟨q, hq, hb⟩ := hop rs hrs
    rcases hb.accesses.cell r hr c hc with ⟨s, hs, t, ht, rfl⟩ | ⟨r', hr', hcell⟩
    · rcases hall s (List.mem_flatMap.2 ⟨q, hq, hs⟩) with hw | hi
      · obtain ⟨q', hq', hw⟩ := List.mem_flatMap.1 hw
        obtain ⟨rs', hrs', hb'⟩ := hgroup q' hq'
        obtain ⟨t', ht', r', hr', hcell⟩ := hb'.accesses.written s hw
        rw [ht, Option.some.injEq] at ht'
        subst ht'
        exact .inl ⟨r', hmem.2 ⟨rs', hrs', hr'⟩, hcell⟩
      · exact .inr ⟨s.2, hi, t, (h.table.mem_tensors rfl).2 ⟨s.1, ht⟩, rfl⟩
    · exact .inl ⟨r', hmem.2 ⟨rs, hrs, hr'⟩, hcell⟩

/-- Operations read tensors that are written if and only if they read where others write. -/
theorem Made.matched_iff (h : p.Made ops) (hl : p.model.Linked) (hc : p.model.Checked) :
    (∀ s ∈ ops.flatMap reads, s ∈ ops.flatMap writes ∨ p.model.Supplies s.2) ↔
      p.model.Matched := by
  constructor
  · intro hall j w op op' pl pl' hop hpl hop' hpl' i hi hi'
    obtain ⟨pl₁, hq, hpl₁⟩ := h.runs.all hop
    obtain rfl := Option.some.inj (hpl.symm.trans hpl₁)
    rcases hall _ (List.mem_flatMap.2 ⟨_, hq, List.mem_map_of_mem hi⟩) with hw | hs
    · obtain ⟨q, hq, hw⟩ := List.mem_flatMap.1 hw
      obtain ⟨i', hi'', he⟩ := List.mem_map.1 hw
      obtain ⟨htarget, rfl⟩ := Prod.mk.inj he
      obtain ⟨k, hk, hpk⟩ := h.runs.mem q hq
      obtain rfl := hl.writes_unique hc (j := k) (k := w) ⟨_, hk, hi''⟩ ⟨_, hop', hi'⟩
      rw [hop', Option.some.injEq] at hk
      rw [hpl', Option.some.injEq] at hpk
      rw [← htarget, hk, hpk]
    · -- What an operation writes is not supplied.
      have hlt := hc.output_lt (List.mem_of_getElem? hop') hi'
      obtain ⟨hdata, hinput⟩ :=
        hc.written (List.mem_of_getElem? hop') hi' (List.getElem?_eq_getElem hlt)
      rcases hs with hs | ⟨o, data, ho, hd⟩
      · exact absurd hs hinput
      · rw [List.getElem?_eq_getElem hlt, Option.some.injEq] at ho
        rw [ho, hd] at hdata
        cases hdata
  · intro hmatched s hs
    obtain ⟨q, hq, hs⟩ := List.mem_flatMap.1 hs
    obtain ⟨i, hi, rfl⟩ := List.mem_map.1 hs
    obtain ⟨j, hop, hpl⟩ := h.runs.mem q hq
    have hmem := List.mem_of_getElem? hop
    have ho := List.getElem?_eq_getElem (hc.input_lt hmem hi)
    rcases hc.read hmem hi ho with hw | hd | hinput
    · obtain ⟨w, hw⟩ := Option.isSome_iff_exists.1 hw
      obtain ⟨op', hop', hi'⟩ := (hl.writer ho w).1 hw
      obtain ⟨pl', hq', hpl'⟩ := h.runs.all hop'
      refine .inl (List.mem_flatMap.2 ⟨_, hq', List.mem_map.2 ⟨i, hi', ?_⟩⟩)
      rw [hmatched hop hpl hop' hpl' hi hi']
    · obtain ⟨data, hd⟩ := Option.isSome_iff_exists.1 hd
      exact .inr (.inr ⟨_, data, ho, hd⟩)
    · exact .inr (.inl hinput)

end Plan

/-! ## The caller's model -/

variable {m₀ : Model} {policy : Policy}

/-- Where the caller wrote no copy, every edge joins. -/
theorem Model.fitted_plain (hplain : ∀ op ∈ m₀.operations, op.kind ≠ .permute) :
    m₀.Fitted policy := by
  intro w hw r hr i _ _
  unfold Joins
  rw [source_of_kind (hplain r hr), target_of_kind (hplain w hw)]
  split
  · rename_i hsame
    exact hsame.symm
  · exact ⟨rfl, rfl⟩

/-- The places of the operations are those that the policy names. -/
theorem Model.joined_iff {m : Model} {ps : List Placement}
    (hps : ps = m.operations.map policy.place) : m.Joined ps ↔ m.Fitted policy := by
  have hplace : ∀ {j : OperationId} {op : Operation}, m.operations[j]? = some op →
      ps[j]? = some (policy.place op) := by
    intro j op hop
    rw [hps, List.getElem?_map, hop, Option.map_some]
  constructor
  · intro h w hw r hr i hiw hir
    obtain ⟨k, hk⟩ := List.mem_iff_getElem?.1 hw
    obtain ⟨j, hj⟩ := List.mem_iff_getElem?.1 hr
    exact h hk (hplace hk) hj (hplace hj) hiw hir
  · intro h k j w r p q hw hp hr hq i hiw hir
    rw [hplace hw, Option.some.injEq] at hp
    rw [hplace hr, Option.some.injEq] at hq
    subst hp hq
    exact h w (List.mem_of_getElem? hw) r (List.mem_of_getElem? hr) i hiw hir

/-- The operations of a lowered model read where others write if and only if the caller's copies
agree with the policy. -/
theorem Compiles.matched_iff {m : Model} (h : Compiles m₀ policy m ops) (h₀ : m₀.Built) :
    m.Matched ↔ m₀.Fitted policy := by
  obtain ⟨⟨r, hr, hplaced⟩, -⟩ := h
  obtain ⟨mf, ps, copies, s, hresolve, hlowering⟩ := placeModel_ok h₀ hplaced
  rw [hlowering.matched_iff, joined_iff (resolve_eq hr hresolve)]
  rw [Model.Fitted, Model.Fitted, hlowering.finished.operations]

/-- **The steps of a plan read what is written if and only if the copies that the caller wrote agree
with the policy.** -/
theorem Plan.Compiled.backed_iff (h : p.Compiled m₀ policy ops)
    (hready : AllReady p.builders mem) : p.Backed ↔ m₀.Fitted policy := by
  obtain ⟨m, ps, copies, s, hlowering⟩ := h.compiles.lowering h.built
  rw [h.made.backed_iff hready, h.made.matched_iff hlowering.lowLinked hlowering.lowChecked,
    h.compiles.matched_iff h.built]

end HeteroNet
