import HeteroNet.Plan
import HeteroNet.Proofs.Machine.Going

/-
The steps of a plan. What a step does to memory is a function on the words of all cells
(`Runnable.effect`), and it has a result on any words, as long as the cells have the sizes they had
when the plan was made (`Runnable.Total`). So a run of steps either ends with the effects of all
steps in memory and every command completed, or it stops and reports the fault that struck.
-/

namespace HeteroNet

variable {W : CellId → Prop} {D : Prop} {m₀ m : Machine} {E : CellId → Buffer} {n : Nat}

theorem Task.on_eq {α : Type} (t : Task α) (m : Machine) : t.on m = outcome t m := rfl

/-! ## Waiting for the device -/

namespace Plan

/-- Nothing is reported if no builder has anything to report. -/
theorem synchronizeAll_quiet : ∀ {bs : List TensorBuilder} {m : Machine},
    (∀ b ∈ bs, outcome b.synchronize m = (.ok (), m)) →
      outcome (synchronizeAll bs) m = (.ok (), m)
  | [], _, _ => rfl
  | b :: bs, m, h => by
    have hobserve : ∀ {t : Task Unit}, outcome t m = (.ok (), m) →
        outcome (synchronizeAll.observing t) m = (.ok (.ok ()), m) := by
      intro t ht
      change outcome t m = _ at ht
      rw [synchronizeAll.observing, outcome_bind_of_ok (outcome_get m)]
      change outcome (do set (outcome t m).2; return (outcome t m).1) m = _
      rw [ht]
      rfl
    rw [synchronizeAll, outcome_bind_of_ok (hobserve (h b (by simp))), outcome_bind_of_ok
      (hobserve (synchronizeAll_quiet fun b' hb' => h b' (List.mem_cons_of_mem _ hb')))]
    rfl

theorem synchronizeAll_idle {bs : List TensorBuilder} {m : Machine} (h : m.device.failure = none) :
    outcome (synchronizeAll bs) m = (.ok (), m) :=
  synchronizeAll_quiet fun b _ => by
    cases hp : b.place with
    | host => simp [TensorBuilder.synchronize, hp]
    | device => simp [TensorBuilder.synchronize, hp, Machine.synchronize, outcome_bind, h]

theorem synchronizeAll_failed : ∀ {bs : List TensorBuilder} {m : Machine} {text : String},
    (∃ b ∈ bs, b.place = .device) → m.device.failure = some text →
      outcome (synchronizeAll bs) m = (.error (.error (.execution (.backend Machine.deviceName text))),
        { m with device := { m.device with failure := none } })
  | b :: bs, m, text, hb, h => by
    have hobserve : ∀ {t : Task Unit} {r : Except Failure Unit} {m m' : Machine},
        outcome t m = (r, m') → outcome (synchronizeAll.observing t) m = (.ok r, m') := by
      intro t r m m' ht
      rw [synchronizeAll.observing, outcome_bind_of_ok (outcome_get m)]
      change outcome (do set (outcome t m).2; return (outcome t m).1) m = _
      rw [ht]
      rfl
    cases hp : b.place with
    | host =>
      have hfirst : outcome b.synchronize m = (.ok (), m) := by
        simp [TensorBuilder.synchronize, hp]
      have hrest : ∃ b ∈ bs, b.place = .device := by
        obtain ⟨b', hb', hp'⟩ := hb
        rcases List.mem_cons.1 hb' with rfl | hb'
        · rw [hp] at hp'
          cases hp'
        · exact ⟨b', hb', hp'⟩
      rw [synchronizeAll, outcome_bind_of_ok (hobserve hfirst),
        outcome_bind_of_ok (hobserve (synchronizeAll_failed hrest h))]
      rfl
    | device =>
      have hfirst : outcome b.synchronize m
          = (.error (.error (.execution (.backend Machine.deviceName text))),
            { m with device := { m.device with failure := none } }) := by
        simp [TensorBuilder.synchronize, hp, Machine.synchronize, outcome_bind, h]
      rw [synchronizeAll, outcome_bind_of_ok (hobserve hfirst),
        outcome_bind_of_ok (hobserve (synchronizeAll_idle rfl))]
      rfl

/-- Waiting for all tensors fails only with what the device has to report. -/
theorem synchronizeAll_reports (bs : List TensorBuilder) (m : Machine) :
    Ends (outcome (synchronizeAll bs) m) (fun _ m' => m' = m) fun e _ =>
      ∃ text, m.device.failure = some text ∧
        e = .error (.execution (.backend Machine.deviceName text)) := by
  cases hf : m.device.failure with
  | none =>
    rw [synchronizeAll_idle hf]
    exact rfl
  | some text =>
    by_cases hb : ∃ b ∈ bs, b.place = .device
    · rw [synchronizeAll_failed hb hf]
      exact ⟨text, rfl, rfl⟩
    · have hquiet : ∀ b ∈ bs, outcome b.synchronize m = (.ok (), m) := fun b hmem => by
        cases hp : b.place with
        | host => simp [TensorBuilder.synchronize, hp]
        | device => exact absurd ⟨b, hmem, hp⟩ hb
      rw [synchronizeAll_quiet hquiet]
      exact rfl

/-- After a wait for all tensors the device has nothing to report, unless none of them is on it. -/
theorem synchronizeAll_returns (bs : List TensorBuilder) (m : Machine) :
    Returns (outcome (synchronizeAll bs) m) fun _ m' =>
      m' = m ∧ (m.device.failure = none ∨ ∀ b ∈ bs, b.place = .host) := by
  by_cases hb : ∃ b ∈ bs, b.place = .device
  · cases hf : m.device.failure with
    | none =>
      rw [synchronizeAll_idle hf]
      exact ⟨rfl, .inl rfl⟩
    | some text =>
      rw [synchronizeAll_failed hb hf]
      trivial
  · have hhost : ∀ b ∈ bs, b.place = .host := fun b hmem => by
      cases hp : b.place with
      | host => rfl
      | device => exact absurd ⟨b, hmem, hp⟩ hb
    rw [synchronizeAll_quiet fun b hmem => by simp [TensorBuilder.synchronize, hhost b hmem]]
    exact ⟨rfl, .inr hhost⟩

/-- A wait for all tensors of a plan reports the fault, if it struck. -/
theorem synchronizeAll_ends {bs : List TensorBuilder} (hD : D → ∃ b ∈ bs, b.place = .device)
    (h : Going W D m₀ E n m) :
    Ends (outcome (synchronizeAll bs) m) (fun _ m' => m' = m ∧ Healthy m₀ E n m)
      (Stopped W m₀) := by
  rcases h.state with hh | ⟨hd, hs⟩
  · rw [synchronizeAll_idle hh.failure]
    exact ⟨rfl, hh⟩
  · obtain ⟨text, hf, hi⟩ := hs.failure
    rw [synchronizeAll_failed (hD hd) hf]
    exact ⟨h.memory, rfl, hs.fault, hs.allocated, text, hi, rfl⟩

end Plan

/-! ## One step -/

/-- The words of every cell have the number they have in `mem`. -/
def SizedAs (mem : Memory) (E : CellId → Buffer) : Prop :=
  ∀ i, (E i).size = (mem.contents i).size

theorem SizedAs.update {mem : Memory} (h : SizedAs mem E) {i : CellId} {w : Buffer}
    (hw : w.size = (E i).size) : SizedAs mem (Function.update E i w) := by
  intro j
  by_cases hij : j = i
  · subst hij
    rw [Function.update_self, hw, h j]
  · rw [Function.update_of_ne hij, h j]

namespace Runnable

/-- The cell that the step writes. -/
def output : Runnable → CellId
  | host _ _ _ output => output
  | device _ _ _ output => output
  | permute _ _ target => target.cell

/-- The number of commands that the step submits. -/
def commands : Runnable → Nat
  | host .. => 0
  | device .. => 1
  | permute _ _ target => target.commands

/-- What the step leaves in the cell that it writes, given the words of all cells. -/
def result (r : Runnable) (E : CellId → Buffer) : Option Buffer :=
  match r with
  | host _ k ins out => k.compute .nhwc (ins.map E) (E out)
  | device _ k ins out => k.compute .nchw (ins.map E) (E out)
  | permute _ s t =>
    (Layout.convert s.layout .nhwc s.info.shape (E s.cell)).bind
      (Layout.convert .nhwc t.layout t.info.shape)

/-- What the step does to the words of all cells. -/
def effect (E : CellId → Buffer) (r : Runnable) : CellId → Buffer :=
  Function.update E r.output ((r.result E).getD #[])

/-- The step has a result on any words, if there are as many in each cell as there are in `mem`. -/
structure Total (mem : Memory) (r : Runnable) : Prop where
  bound : r.output < mem.length
  result : ∀ E, SizedAs mem E → ∃ w, r.result E = some w ∧ w.size = (E r.output).size
  whole : ∀ {label k ins out}, r = .device label k ins out →
    (mem.cell out).damaged = false ∧ ∀ i ∈ ins, (mem.cell i).damaged = false
  ready : ∀ {label s t}, r = .permute label s t →
    s.Ready mem ∧ t.Ready mem ∧ s.info.shape = t.info.shape

theorem Total.effect_sized {mem : Memory} {r : Runnable} (h : r.Total mem) (hE : SizedAs mem E) :
    SizedAs mem (r.effect E) := by
  obtain ⟨w, hw, hs⟩ := h.result E hE
  rw [effect, hw]
  exact hE.update hs

theorem Total.effect_eq {mem : Memory} {r : Runnable} (h : r.Total mem) (hE : SizedAs mem E) :
    ∃ w, r.result E = some w ∧ w.size = (E r.output).size ∧
      r.effect E = Function.update E r.output w := by
  obtain ⟨w, hw, hs⟩ := h.result E hE
  exact ⟨w, hw, hs, by rw [effect, hw]; rfl⟩

theorem sizedAs_contents {mem mem' : Memory} (h : Memory.Rewritten W mem mem') :
    SizedAs mem mem'.contents := h.size

/-- Storing the result of a step in memory. -/
theorem Total.store {mem mem' : Memory} {r : Runnable} (h : r.Total mem) (hW : W r.output)
    (hm : Memory.Rewritten W mem mem') :
    ∃ w, r.result mem'.contents = some w ∧
      Memory.Rewritten W mem' (mem'.store r.output w) ∧
      (mem'.store r.output w).contents = r.effect mem'.contents := by
  obtain ⟨w, hw, hs, he⟩ := h.effect_eq (sizedAs_contents hm)
  have hbound : r.output < mem'.length := hm.length ▸ h.bound
  exact ⟨w, hw, .store hW hbound hs, by rw [he, Memory.contents_store hbound]⟩

theorem mapM_load {mem : Memory} : ∀ {ins : List CellId},
    (∀ i ∈ ins, (mem.cell i).damaged = false) →
      ins.mapM mem.load = .ok (ins.map mem.contents)
  | [], _ => rfl
  | i :: ins, h => by
    rw [List.mapM_cons, Memory.load_eq_ok (h i (by simp)),
      mapM_load fun j hj => h j (List.mem_cons_of_mem _ hj)]
    rfl

/-- **A step of a plan does what its effect says**, or it stops with the fault that struck. -/
theorem Total.run_ends {r : Runnable} (hr : r.Total m₀.memory) (hW : W r.output)
    (hD : 0 < r.commands → D) (h : Going W D m₀ E n m) :
    Ends (outcome r.run m) (fun _ m' => Going W D m₀ (r.effect E) (n + r.commands) m')
      (Stopped W m₀) := by
  cases r with
  | host label k ins out =>
    obtain ⟨w, hw, hmem, he⟩ := hr.store hW h.memory
    have hrun : outcome (run (.host label k ins out)) m
        = (.ok (), { m with memory := m.memory.store out w }) := by
      rw [run, outcome_bind_of_ok (outcome_get m)]
      have hw : k.compute .nhwc (ins.map fun i => (m.memory.cell i).words)
        (m.memory.cell out).words = some w := hw
      simp only [hw]
      rfl
    rw [hrun]
    exact h.host hmem fun hE => by rw [← hE]; exact he
  | device label k ins out =>
    refine h.submit (hD Nat.one_pos) fun mem hm hE => ?_
    obtain ⟨w, hw, hmem, he⟩ := hr.store hW hm
    obtain ⟨hout, hins⟩ := hr.whole rfl
    refine ⟨mem.store out w, ?_, hmem, by rw [← hE]; exact he⟩
    have hw : k.compute .nchw (ins.map mem.contents) (mem.contents out) = some w := hw
    have hload : ins.mapM mem.load = .ok (ins.map mem.contents) :=
      mapM_load fun i hi => (hm.damaged i).trans (hins i hi)
    have hloadout : mem.load out = .ok (mem.contents out) :=
      Memory.load_eq_ok ((hm.damaged out).trans hout)
    simp only [kernelCommand, hload, hloadout, hw]
  | permute label s t =>
    obtain ⟨hs, ht, hshape⟩ := hr.ready rfl
    refine Ends.bind ((s.readLogical_ends hs h).mono (fun x m' hx => ?_) fun _ _ he => he.2)
    obtain ⟨rfl, hsize, hx⟩ := hx
    have hsize : x.size = Shape.elements t.info.shape := by
      rw [hsize, TensorInfo.elements, hshape]
    obtain ⟨y, hy⟩ := Layout.exists_stores (l := t.layout) hsize
    have hDt : t.place = .device → D := fun hp => hD (by simp [commands, Tensor.commands, hp])
    obtain ⟨m', hrun, hgoing, hstruck⟩ := t.writeLogical_going ht hW hDt hy h
    rw [hrun]
    rcases h.state with hh | ⟨hd, hs⟩
    · have he : effect E (.permute label s t) = Function.update E t.cell y := by
        have hr : Runnable.result (.permute label s t) E = some y := by
          rw [Runnable.result, (hx hh).back, Option.bind_some, hy.converted]
        rw [effect, hr]
        rfl
      rw [he]
      exact hgoing
    · exact ⟨hgoing.memory, .inr ⟨hd, hstruck hs⟩⟩

end Runnable

/-! ## All steps -/

/-- The number of commands of a list of steps. -/
def commandsOf (rs : List Runnable) : Nat := (rs.map (·.commands)).sum

/-- Steps do what their effects say one after another, or one of them stops with the fault that
struck. -/
theorem Runnable.forM_ends {rs : List Runnable} (hall : ∀ r ∈ rs, r.Total m₀.memory ∧
      W r.output ∧ (0 < r.commands → D)) (h : Going W D m₀ E n m) :
    Ends (outcome (rs.forM Runnable.run) m)
      (fun _ m' => Going W D m₀ (rs.foldl Runnable.effect E) (n + commandsOf rs) m')
      (Stopped W m₀) := by
  refine Ends.forM (fun done m' =>
    Going W D m₀ (done.foldl Runnable.effect E) (n + commandsOf done) m')
    (fun done r rest m' hl hI => ?_) h
  obtain ⟨htotal, hW, hD⟩ := hall r (by simp [hl])
  have hn : n + commandsOf (done ++ [r]) = n + commandsOf done + r.commands := by
    simp [commandsOf, Nat.add_assoc]
  rw [hn, List.foldl_append]
  exact htotal.run_ends hW hD hI

/-- **A run of steps does what their effects say one after another**, or it stops with the fault
that struck. -/
theorem Plan.runAll_ends {p : Plan} (hD : D → ∃ b ∈ p.builders, b.place = .device) :
    ∀ {rs : List Runnable} {m : Machine} {E : CellId → Buffer} {n : Nat},
      (∀ r ∈ rs, r.Total m₀.memory ∧ W r.output ∧ (0 < r.commands → D)) → Going W D m₀ E n m →
        Ends (outcome (p.runAll rs) m)
          (fun _ m' => Memory.Rewritten W m₀.memory m'.memory ∧
            Healthy m₀ (rs.foldl Runnable.effect E) (n + commandsOf rs) m')
          (Stopped W m₀)
  | [], m, E, n, _, h => by
    refine (synchronizeAll_ends hD h).mono (fun _ m' hm => ?_) fun _ _ he => he
    obtain ⟨rfl, hh⟩ := hm
    exact ⟨h.memory, hh⟩
  | r :: rs, m, E, n, hall, h => by
    obtain ⟨hr, hW, hd⟩ := hall r (by simp)
    have hstep := hr.run_ends hW hd h
    rw [runAll, outcome_bind_of_ok (outcome_get m)]
    rw [Task.on_eq]
    revert hstep
    obtain ⟨a, m'⟩ := outcome r.run m
    cases a with
    | ok u =>
      intro hgoing
      have hrest := runAll_ends hD (fun r' hr' => hall r' (List.mem_cons_of_mem _ hr')) hgoing
      have hn : n + r.commands + commandsOf rs = n + commandsOf (r :: rs) := by
        rw [commandsOf, commandsOf, List.map_cons, List.sum_cons, Nat.add_assoc]
      rw [hn] at hrest
      rw [outcome_bind_of_ok (outcome_set _ _)]
      exact hrest
    | error e =>
      intro hstop
      have hidle : p.synchronize.on m' = (.ok (), m') := synchronizeAll_idle hstop.failure
      change Ends (outcome (do set (p.synchronize.on m').2; throw e : Task Unit) m) _ _
      rw [hidle, outcome_bind_of_ok (outcome_set _ _)]
      exact hstop

end HeteroNet
