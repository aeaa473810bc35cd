import HeteroNet.Proofs.Plan.Backed
import HeteroNet.Proofs.Plan.Bindings

/-
What a stage leaves in its output. The kernels give something for all words of their inputs, and
what they give does not depend on what the output held (`Always.computes`). An activation reads the
output again, and a kernel after a flattened input reads scratch, but both were written before.
So from two memories that agree on the inputs the steps of a stage leave the same output
(`Determined.agree`), whatever output and scratch held.

This needs little of the plan: its tensors have the shapes of their operands, and no two share a
cell (`Assembly.Furnished`). Every stage that is applied keeps that.
-/

namespace HeteroNet

open Operation Model

variable {os : Operands} {bs : List TensorBuilder} {mem mem' : Memory} {E E' : CellId → Buffer}
  {q : Operation × Placement} {r : Runnable} {rs : List Runnable} {cs : List CellId}
  {m : Machine} {W : CellId → Prop} {a a' : Assembly}

/-! ## What steps depend on -/

/-- What the step leaves in its output depends on the words of the cells `cs` alone, in memories with
the sizes of `mem` and `mem'`. -/
def Runnable.DependsOn (mem mem' : Memory) (cs : List CellId) (r : Runnable) : Prop :=
  ∀ {E E'}, SizedAs mem E → SizedAs mem' E' → (∀ c ∈ cs, E c = E' c) → r.result E = r.result E'

/-- The steps depend on the words of the cells `cs`, and on what the steps before them left. -/
inductive Determined (mem mem' : Memory) : List CellId → List Runnable → Prop
  | nil {cs : List CellId} : Determined mem mem' cs []
  | cons {cs : List CellId} {r : Runnable} {rs : List Runnable} : r.DependsOn mem mem' cs →
    Determined mem mem' (r.output :: cs) rs → Determined mem mem' cs (r :: rs)

/-- After a step the cell that it wrote agrees as well. -/
theorem Runnable.DependsOn.agree (h : r.DependsOn mem mem' cs) (hE : SizedAs mem E)
    (hE' : SizedAs mem' E') (hagree : ∀ c ∈ cs, E c = E' c) :
    ∀ c ∈ r.output :: cs, r.effect E c = r.effect E' c := by
  intro c hc
  rw [Runnable.effect, Runnable.effect, h hE hE' hagree]
  by_cases heq : c = r.output
  · rw [heq, Function.update_self, Function.update_self]
  · rw [Function.update_of_ne heq, Function.update_of_ne heq]
    exact hagree c (List.mem_of_ne_of_mem heq hc)

/-- **Steps leave the same in every cell they write**, from words that agree on `cs`. -/
theorem Determined.agree (h : Determined mem mem' cs rs) (htotal : ∀ r ∈ rs, r.Total mem)
    (htotal' : ∀ r ∈ rs, r.Total mem') (hE : SizedAs mem E) (hE' : SizedAs mem' E')
    (hagree : ∀ c ∈ cs, E c = E' c) {c : CellId} (hc : c ∈ cs ∨ ∃ r ∈ rs, r.output = c) :
    rs.foldl Runnable.effect E c = rs.foldl Runnable.effect E' c := by
  induction h generalizing E E' with
  | nil =>
    obtain hc | ⟨r, hr, -⟩ := hc
    · exact hagree c hc
    · cases hr
  | @cons cs r rs hdepends _ ih =>
    have hE₁ := (htotal r List.mem_cons_self).effect_sized hE
    have hE₁' := (htotal' r List.mem_cons_self).effect_sized hE'
    refine ih (fun r hr => htotal r (List.mem_cons_of_mem _ hr))
      (fun r hr => htotal' r (List.mem_cons_of_mem _ hr)) hE₁ hE₁' (hdepends.agree hE hE' hagree) ?_
    obtain hc | ⟨r', hr', rfl⟩ := hc
    · exact .inl (List.mem_cons_of_mem _ hc)
    · rcases List.mem_cons.1 hr' with rfl | hr'
      · exact .inl List.mem_cons_self
      · exact .inr ⟨r', hr', rfl⟩

/-! ## Single steps -/

section

variable {l : Layout} {k : Kernel} {ss : List Shape} {out : Shape} {ins : List CellId} {o : CellId}

theorem compute_depends (hk : Always l k ss out) (hins : List.Forall₂ (HasWords mem) ss ins)
    (ho : HasWords mem out o) (ho' : HasWords mem' out o) (hE : SizedAs mem E)
    (hE' : SizedAs mem' E') (hagree : ∀ c ∈ ins, E c = E' c) :
    k.compute l (ins.map E) (E o) = k.compute l (ins.map E') (E' o) := by
  obtain ⟨z, -, hcompute⟩ := hk.computes (hE.sized hins)
  rw [← List.map_congr_left hagree, hcompute _ ((hE o).trans ho.size),
    hcompute _ ((hE' o).trans ho'.size)]

theorem activation_depends (label : String) (act : Activation) (ho : o ∈ cs) :
    (Runnable.device label (.activation act) [] o).DependsOn mem mem' cs := by
  intro E E' _ _ hagree
  change (Kernel.activation act).compute .nchw [] (E o)
    = (Kernel.activation act).compute .nchw [] (E' o)
  rw [hagree o ho]

theorem deviceSteps_determined (label label' : String) (act : Activation)
    (hk : Always .nchw k ss out) (hins : List.Forall₂ (HasWords mem) ss ins)
    (ho : HasWords mem out o) (ho' : HasWords mem' out o) (hcs : ∀ c ∈ ins, c ∈ cs) :
    Determined mem mem' cs (deviceSteps label label' k act ins o) := by
  refine .cons (fun {E E'} hE hE' hagree =>
    compute_depends hk hins ho ho' hE hE' fun c hc => hagree c (hcs c hc)) ?_
  split
  · exact .cons (activation_depends label' act List.mem_cons_self) .nil
  · exact .nil

end

/-! ## The steps of an operation -/

/-- The cells of the tensors that an operation reads settle what its steps leave. -/
theorem Bound.determined (h : Bound os bs q rs) (hshaped : Shaped os bs) (hready : AllReady bs mem)
    (hready' : AllReady bs mem')
    (hcs : ∀ s ∈ reads q, ∀ t, tensorAt bs s = some t → t.cell ∈ cs) :
    Determined mem mem' cs rs := by
  have hcells : ∀ {op : Operation} {p : Placement} {ts : List Tensor}, q = (op, p) →
      op.kind ≠ .permute → TensorsAt bs p.backend op.inputs ts →
      ∀ c ∈ ts.map Tensor.cell, c ∈ cs := by
    rintro op p ts rfl hk hts c hc
    obtain ⟨s, hs, t, ht, rfl⟩ := mem_cells hk hts hc
    exact hcs s hs t ht
  cases h with
  | host label hp hk hplace hts ht =>
    refine .cons (fun {E E'} hE hE' hagree => ?_) .nil
    exact compute_depends hp.always (hready.allHaveWords hshaped hts hp.shapes)
      (hready.hasWords hshaped ht hp.shape) (hready'.hasWords hshaped ht hp.shape) hE hE'
      fun c hc => hagree c (hcells rfl hk hts c hc)
  | device label label' hp hk hplace hts ht =>
    exact deviceSteps_determined label label' _ hp.always_device
      (hready.allHaveWords hshaped hts hp.shapes) (hready.hasWords hshaped ht hp.shape)
      (hready'.hasWords hshaped ht hp.shape) (hcells rfl hk hts)
  | @flattened op p ss o out k k' act f first rest t u label₀ label label' hp hk hplace hts ht hu
      hup hui =>
    have hmem := hcells rfl hk hts
    obtain ⟨i, is, s, ss', -, rfl, hfirst, hrest, hs, hss⟩ := hp.exists_first hts
    obtain ⟨-, hkf, hk'⟩ := hp.flatten_gives
    have huw : HasWords mem f.scratch.shape u.cell := hui ▸ (hready.scratch hu).hasWords
    have huw' : HasWords mem' f.scratch.shape u.cell := hui ▸ (hready'.scratch hu).hasWords
    refine .cons (fun {E E'} hE hE' hagree => ?_) ?_
    · exact compute_depends hkf (.cons (hready.hasWords hshaped hfirst hs) .nil) huw huw' hE hE'
        fun c hc => hagree c (hmem c (by rw [List.mem_singleton.1 hc]; exact List.mem_cons_self))
    · refine deviceSteps_determined label label' act hk'
        (.cons huw (hready.allHaveWords hshaped hrest hss)) (hready.hasWords hshaped ht hp.shape)
        (hready'.hasWords hshaped ht hp.shape) fun c hc => ?_
      rcases List.mem_cons.1 hc with rfl | hc
      · exact List.mem_cons_self
      · exact List.mem_cons_of_mem _ (hmem c (List.mem_cons_of_mem _ hc))
  | @permute op p a b x _ _ source target label ha hx ho hxs hos hsource htarget =>
    have hmem : source.cell ∈ cs := hcs (a, x) (by simp [reads, hx, Operation.source, ha]) _ hsource
    refine .cons (fun {E E'} _ _ hagree => ?_) .nil
    rw [Runnable.result, Runnable.result, hagree _ hmem]

/-- Nothing has failed on the device, and no fault is pending. -/
def Machine.Idle (m : Machine) : Prop := m.device.failure = none ∧ m.device.fault = none

/-- On an idle machine steps run to their end. -/
theorem Runnable.forM_idle (hidle : m.Idle) (hall : ∀ r ∈ rs, r.Total m.memory ∧ W r.output) :
    ∃ m', outcome (rs.forM Runnable.run) m = (.ok (), m') ∧ m'.Idle ∧
      Memory.Rewritten W m.memory m'.memory ∧
      m'.memory.contents = rs.foldl Runnable.effect m.memory.contents := by
  have hnone : ∀ {text}, ¬ Injected m text := by
    rintro text ⟨label, reason, hfault, -⟩
    rw [hidle.2] at hfault
    cases hfault
  have hends := Runnable.forM_ends (D := True) (fun r hr => ⟨(hall r hr).1, (hall r hr).2, fun _ =>
    trivial⟩) (Going.start (W := W) hidle.1)
  obtain ⟨_, m', hrun, hgoing⟩ := (hends.mono (fun _ _ h => h) fun e m' he => by
    obtain ⟨text, hinjected, -⟩ := he.reported
    exact hnone hinjected).exists_ok
  refine ⟨m', hrun, ?_⟩
  rcases hgoing.state with hh | ⟨-, hs⟩
  · exact ⟨⟨hh.failure, hh.fault.trans hidle.2⟩, hgoing.memory, hh.contents⟩
  · obtain ⟨text, -, hinjected⟩ := hs.failure
    exact absurd hinjected hnone

/-- The tensors at the sites have the same cells in both memories. -/
def SameAt (bs : List TensorBuilder) (sites : List Site) (mem mem' : Memory) : Prop :=
  ∀ s ∈ sites, ∀ t, tensorAt bs s = some t → mem'.cell t.cell = mem.cell t.cell

/-- The tensors at the sites hold the same words in both memories. -/
def AgreeAt (bs : List TensorBuilder) (sites : List Site) (mem mem' : Memory) : Prop :=
  ∀ s ∈ sites, ∀ t, tensorAt bs s = some t → mem'.contents t.cell = mem.contents t.cell

/-- The steps overwrite what the operation writes. They run to their end and leave its inputs alone,
and what they leave in its output depends on the words of its inputs only: not on what was in the
output or in scratch. -/
structure Overwrites (bs : List TensorBuilder) (q : Operation × Placement) (rs : List Runnable) :
    Prop where
  found : ∀ s ∈ reads q ++ writes q, ∃ t, tensorAt bs s = some t
  runs : ∀ {m : Machine}, m.Idle → AllReady bs m.memory →
    ∃ m', outcome (rs.forM Runnable.run) m = (.ok (), m') ∧ m'.Idle ∧ AllReady bs m'.memory ∧
      Memory.Rewritten (Written bs (writes q)) m.memory m'.memory ∧
      SameAt bs (reads q) m.memory m'.memory
  fresh : ∀ {m₁ m₂ m₁' m₂' : Machine}, m₁.Idle → m₂.Idle → AllReady bs m₁.memory →
    AllReady bs m₂.memory → AgreeAt bs (reads q) m₁.memory m₂.memory →
    outcome (rs.forM Runnable.run) m₁ = (.ok (), m₁') →
    outcome (rs.forM Runnable.run) m₂ = (.ok (), m₂') →
    AgreeAt bs (writes q) m₁'.memory m₂'.memory

/-- An operation that does not write what it reads writes none of the cells that it reads. -/
theorem Apart.not_written (hn : Apart bs) (hself : ∀ s ∈ reads q, s ∉ writes q) {s : Site}
    {t : Tensor} (hs : s ∈ reads q) (ht : tensorAt bs s = some t) :
    ¬ Written bs (writes q) t.cell := by
  rintro (⟨s', hs', t', ht', hc⟩ | ⟨u, hu, hc⟩)
  · exact hself s hs (hn.cell_injective ht ht' hc.symm ▸ hs')
  · exact hn.cell_ne_scratch ht hu hc.symm

/-- **The steps of an operation overwrite what it writes.** -/
theorem Bound.overwrites (h : Bound os bs q rs) (hshaped : Shaped os bs) (hn : Apart bs)
    (hself : ∀ s ∈ reads q, s ∉ writes q) : Overwrites bs q rs := by
  have hidle : ∀ {m : Machine}, m.Idle → AllReady bs m.memory →
      ∃ m', outcome (rs.forM Runnable.run) m = (.ok (), m') ∧ m'.Idle ∧
        Memory.Rewritten (Written bs (writes q)) m.memory m'.memory ∧
        m'.memory.contents = rs.foldl Runnable.effect m.memory.contents :=
    fun hm hready => Runnable.forM_idle hm fun r hr => ⟨h.total hshaped hready r hr, h.written r hr⟩
  refine ⟨fun s hs => ?_, fun hm hready => ?_,
    fun {m₁ m₂ m₁' m₂'} hm₁ hm₂ hready₁ hready₂ hagree hrun₁ hrun₂ s hs t ht => ?_⟩
  · rcases List.mem_append.1 hs with hs | hs
    · obtain ⟨t, ht, -⟩ := h.accesses.read s hs
      exact ⟨t, ht⟩
    · obtain ⟨t, ht, -⟩ := h.accesses.written s hs
      exact ⟨t, ht⟩
  · obtain ⟨m', hrun, hidle', hmem, -⟩ := hidle hm hready
    exact ⟨m', hrun, hidle', hready.rewritten hmem, hmem,
      fun s hs t ht => hmem.same _ (hn.not_written hself hs ht)⟩
  · obtain ⟨m, hrun, -, -, hcontents₁⟩ := hidle hm₁ hready₁
    rw [hrun₁] at hrun
    cases hrun
    obtain ⟨m, hrun, -, -, hcontents₂⟩ := hidle hm₂ hready₂
    rw [hrun₂] at hrun
    cases hrun
    have hdetermined : Determined m₁.memory m₂.memory
        ((reads q).filterMap fun s => (tensorAt bs s).map Tensor.cell) rs :=
      h.determined hshaped hready₁ hready₂ fun s hs t ht =>
        List.mem_filterMap.2 ⟨s, hs, by rw [ht, Option.map_some]⟩
    obtain ⟨t', ht', r, hr, hout⟩ := h.accesses.written s hs
    rw [ht, Option.some.injEq] at ht'
    subst ht'
    rw [hcontents₁, hcontents₂]
    refine (hdetermined.agree (h.total hshaped hready₁) (h.total hshaped hready₂) (fun _ => rfl)
      (fun _ => rfl) (fun c hc => ?_) (.inr ⟨r, hr, hout⟩)).symm
    obtain ⟨s', hs', hc⟩ := List.mem_filterMap.1 hc
    obtain ⟨t', ht', rfl⟩ := Option.map_eq_some_iff.1 hc
    exact (hagree s' hs' t' ht').symm

/-! ## Stages -/

/-- The tensors of operands have the shapes of their operands, and every tensor has a cell of its
own. -/
structure Assembly.Furnished (os : Operands) (a : Assembly) : Prop where
  shaped : Shaped os a.builders
  apart : Apart a.builders
  bound : ∀ t ∈ tensorsOf a.builders, t.cell < a.machine.memory.length

/-- An assembly under way is furnished. -/
theorem Assembling.furnished {m₀ : Machine} {bs₀ : List TensorBuilder} {sites : List Site}
    (h : Assembling m₀ bs₀ a) (htable : Table os sites bs₀) : a.Furnished os :=
  ⟨(h.table htable).shaped, h.laid.cells, h.laid.bound⟩

theorem Assembly.GainsScratch.furnished {info : TensorInfo} {u : Tensor}
    (h : GainsScratch info a a' u) (ha : a.Furnished os) : a'.Furnished os := by
  have htensors : (tensorsOf a'.builders).Perm (u :: tensorsOf a.builders) := by
    rw [tensorsOf, tensorsOf, entries_congr h.frames]
    exact (h.scratch.append_left _).trans List.perm_middle
  refine ⟨?_, ?_, fun t ht => ?_⟩
  · rw [Shaped, tensorAt_congr h.frames]
    exact ha.shaped
  · rw [Apart, (htensors.map _).nodup_iff, List.map_cons, List.nodup_cons]
    refine ⟨fun hu => ?_, ha.apart⟩
    obtain ⟨t, ht, hcell⟩ := List.mem_map.1 hu
    exact absurd (ha.bound t ht) (Nat.not_lt.2 (hcell ▸ h.new))
  · rcases List.mem_cons.1 (htensors.subset ht) with rfl | ht
    · exact h.bound
    · exact Nat.lt_of_lt_of_le (ha.bound t ht) (h.new.trans h.bound.le)

/-- Applying a stage leaves an assembly furnished. -/
theorem Binds.furnished {s : Stage} (h : Binds a s a') (ha : a.Furnished os) : a'.Furnished os := by
  cases h with
  | host | device | permute => exact ⟨ha.shaped, ha.apart, ha.bound⟩
  | flattened label₀ label label' _ _ hu _ =>
    obtain ⟨hshaped, hapart, hbound⟩ := hu.furnished ha
    exact ⟨hshaped, hapart, hbound⟩

/-- What the stage of an operation is bound to are the steps of the operation. -/
theorem Binds.bound {s : Stage} (h : Binds a s a') (hs : Staged os q s) :
    ∃ rs, a'.runnables = a.runnables ++ rs ∧ Bound os a'.builders q rs := by
  cases hs with
  | host hp hk hplace =>
    cases h with
    | host label hts ht => exact ⟨_, rfl, .host label hp hk hplace hts ht⟩
  | @device op p ss o out k k' act fl hp hk hplace =>
    cases h with
    | device label label' hts ht hnone =>
      cases fl with
      | none => exact ⟨_, rfl, .device label label' hp hk hplace hts ht⟩
      | some f => exact absurd (hnone.resolve_left (by simp)) hp.inputs_ne_nil
    | flattened label₀ label label' hts ht hu hup =>
      have htensors := tensorAt_congr hu.frames
      refine ⟨_, rfl, .flattened label₀ label label' hp hk hplace ?_ ?_
        (hu.scratch.symm.subset List.mem_cons_self) hup hu.info⟩
      · rw [TensorsAt, htensors]
        exact hts
      · rw [htensors]
        exact ht
  | permute ha hx ho hxs hos =>
    cases h with
    | permute label hsource htarget =>
      exact ⟨_, rfl, .permute label ha hx ho hxs hos hsource htarget⟩

theorem reads_not_written (h : ∀ i ∈ q.1.outputs, i ∉ q.1.inputs) : ∀ s ∈ reads q, s ∉ writes q := by
  intro s hs hw
  obtain ⟨i, hi, rfl⟩ := List.mem_map.1 hs
  obtain ⟨j, hj, he⟩ := List.mem_map.1 hw
  obtain ⟨-, rfl⟩ := Prod.mk.inj he
  exact h j hj hi

/-- **The stage of an accepted operation leaves no stale word.** However the operation was planned, if
it does not read what it writes and its backend is a default one, then wherever its stage is applied,
the steps that it appends overwrite what the operation writes. -/
theorem Planner.visit_overwrites {contexts : SortedMap BackendId Context} {op : Operation}
    {p : Placement} {d d' : PlanDraft}
    (hbackend : ∀ c, contexts.find? p.backend = some c →
      c.backend.IsDefault ∧ c.backend.id = p.backend)
    (hself : ∀ i ∈ op.outputs, i ∉ op.inputs)
    (h : (Planner.visit os contexts op p).run d = .ok ((), d')) :
    ∃ stage, d'.stages = d.stages ++ [stage] ∧ ∀ {a a' : Assembly}, a.Furnished os →
      outcome stage.apply a = (.ok (), a') → a'.Furnished os ∧
        ∃ rs, a'.runnables = a.runnables ++ rs ∧ Overwrites a'.builders (op, p) rs := by
  obtain ⟨stage, hvisited, hstages⟩ := (visit_ok h).stages
  refine ⟨stage, hstages, fun {a a'} ha hrun => ?_⟩
  have hbinds := (apply_binds stage).of_eq hrun
  have ha' := hbinds.furnished ha
  obtain ⟨rs, hrs, hbound⟩ := hbinds.bound (hvisited.staged hbackend)
  exact ⟨ha', rs, hrs, hbound.overwrites ha'.shaped ha'.apart (reads_not_written hself)⟩

/-- The operands of a layer of one unit, which reads two words of a feature map. -/
def unitOperands : Operands :=
  let float (shape : Shape) : Operand := { shape, type := { element := .float32 } }
  [float [1, 1, 1, 2], float [1, 2], float [1],
    { shape := [], type := { element := .int32 }, data := some [1, 0, 0, 0] }, float [1, 1]]

/-- The layer, with an activation. -/
def unitLayer : Operation × Placement := (⟨[0, 1, 2], [4], .fullyConnected 3⟩, ⟨"gpu", .nchw⟩)

/-- Its four tensors on the device, with their memory. -/
def unitAssembly : Assembly :=
  let tensor (shape : Shape) (cell : CellId) : Tensor :=
    ⟨⟨shape, { element := .float32 }⟩, .device, "gpu", cell⟩
  let cell (n : Nat) : Cell := { place := .device, words := Buffer.zeros n, reserved := true }
  let builder : TensorBuilder :=
    { backend := "gpu", place := .device, phase := .allocated, marked := [0, 1, 2, 4]
      tensors := [(0, tensor [1, 1, 1, 2] 0), (1, tensor [1, 2] 1), (2, tensor [1] 2),
        (4, tensor [1, 1] 3)] }
  { builders := [builder], machine := { memory := [cell 2, cell 2, cell 1, cell 1] } }

def unitContexts : SortedMap BackendId Context := [("gpu", Context.new Backend.device)]

/-- The stage of the layer flattens what it reads. -/
def unitStage : Stage :=
  .device "gpu" (.fullyConnected 1 2 .none) .relu [0, 1, 2] 4
    (some ⟨.reshape [1, 1, 1, 2] [1, 2], ⟨[1, 2], { element := .float32 }⟩⟩)

theorem unitAssembly_furnished : unitAssembly.Furnished unitOperands where
  shaped s t ht := by
    have he := entry_of_tensorAt ht
    simp only [entries, unitAssembly, List.flatMap_cons, List.flatMap_nil, List.append_nil,
      List.map_cons, List.map_nil, List.mem_cons, List.not_mem_nil, or_false, Prod.mk.injEq] at he
    rcases he with ⟨rfl, rfl⟩ | ⟨rfl, rfl⟩ | ⟨rfl, rfl⟩ | ⟨rfl, rfl⟩ <;> exact ⟨_, rfl, rfl⟩
  apart := by unfold Apart; decide
  bound := by decide

/-- The stage of the layer flattens, computes and activates: it appends three steps, which overwrite
the output of the layer. -/
theorem visit_overwrites_unit : ∃ d' a' rs,
    (Planner.visit unitOperands unitContexts unitLayer.1 unitLayer.2).run {} = .ok ((), d') ∧
      d'.stages = [unitStage] ∧ outcome unitStage.apply unitAssembly = (.ok (), a') ∧
      a'.machine.Idle ∧ AllReady a'.builders a'.machine.memory ∧
      a'.runnables = rs ∧ rs.length = 3 ∧ Overwrites a'.builders unitLayer rs := by
  have hstages : (fun r : Unit × PlanDraft => r.2.stages) <$>
      (Planner.visit unitOperands unitContexts unitLayer.1 unitLayer.2).run {} = .ok [unitStage] := by
    decide +kernel
  obtain ⟨⟨⟨⟩, d'⟩, hvisit, hstages⟩ := map_eq_ok.1 hstages
  have hbackend : ∀ c, unitContexts.find? unitLayer.2.backend = some c →
      c.backend.IsDefault ∧ c.backend.id = unitLayer.2.backend := by
    intro c hc
    cases hc
    exact ⟨.inr rfl, rfl⟩
  obtain ⟨stage, hstage, happly⟩ := Planner.visit_overwrites hbackend (by decide) hvisit
  obtain rfl : unitStage = stage := by simpa using hstages.symm.trans hstage
  have hrun : (outcome unitStage.apply unitAssembly).1 = .ok () := by decide +kernel
  have hready : ∀ t ∈ tensorsOf (outcome unitStage.apply unitAssembly).2.builders,
      let mem := (outcome unitStage.apply unitAssembly).2.machine.memory
      t.cell < mem.length ∧ (mem.cell t.cell).reserved = true ∧ (mem.cell t.cell).damaged = false ∧
        (mem.contents t.cell).size = t.info.elements := by decide +kernel
  have hlength : (outcome unitStage.apply unitAssembly).2.runnables.length = 3 := by decide +kernel
  obtain ⟨-, rs, hrs, hover⟩ := happly unitAssembly_furnished (outcome_eq hrun)
  refine ⟨d', _, rs, hvisit, hstages, outcome_eq hrun, ⟨rfl, rfl⟩, fun t ht => ?_, hrs, ?_, hover⟩
  · obtain ⟨hbound, hreserved, hwhole, hsize⟩ := hready t ht
    exact ⟨hbound, hreserved, hwhole, hsize⟩
  · rwa [hrs] at hlength

/-! ## Plans -/

/-- Every operation of a plan overwrites what it writes, since none reads it. -/
theorem Plan.Made.overwrites {p : Plan} {ops : List (Operation × Placement)} (h : p.Made ops) :
    ∃ groups, p.runnables = groups.flatten ∧ List.Forall₂ (Overwrites p.builders) ops groups := by
  obtain ⟨groups, hgroups, hbound⟩ := h.steps
  refine ⟨groups, hgroups, ((List.forall₂_and_left _ _).2
    ⟨h.runs.ordered.outputs_not_read, hbound⟩).imp fun q rs hq => ?_⟩
  exact hq.2.overwrites h.table.shaped h.apart (reads_not_written hq.1)

end HeteroNet
