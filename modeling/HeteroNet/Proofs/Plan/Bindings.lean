import HeteroNet.Proofs.Machine.Queue
import HeteroNet.Proofs.Plan.Assembled

/-
What a stage that was applied is bound to (`Binds`). It found a tensor for every operand that it
names, where it may have got a scratch tensor it found a cell for it that no tensor had, and it
appended its steps. For this nothing need be known of the builders: only calls that return are of
interest, and looking up a tensor changes nothing.
-/

namespace HeteroNet

variable {id : BackendId} {i : OperandId} {info : TensorInfo} {a a' : Assembly} {m : Machine}

namespace Assembly

/-! ## Looking up -/

theorem tensor_returns : Returns (outcome (tensor id i) a) fun t a' =>
    a' = a ∧ tensorAt a.builders (id, i) = some t := by
  rw [tensor, outcome_bind_of_ok (outcome_get a)]
  split
  · rename_i b hb
    refine Returns.check fun t ht => ⟨rfl, ?_⟩
    rw [tensorAt, hb, Option.bind_some]
    unfold TensorBuilder.tensor at ht
    split at ht
    · rename_i t' ht'
      cases ht
      exact ht'
    · cases ht
  · exact Returns.check fun t ht => by cases ht

theorem hostCell_returns : Returns (outcome (hostCell id i) a) fun c a' =>
    a' = a ∧ ∃ t, tensorAt a.builders (id, i) = some t ∧ c = t.cell := by
  refine tensor_returns.bind fun t a' h => ?_
  obtain ⟨rfl, ht⟩ := h
  split
  · trivial
  · exact ⟨rfl, t, ht, rfl⟩

theorem deviceCellOf_returns {t : Tensor} : Returns (outcome (deviceCellOf t) a) fun c a' =>
    a' = a ∧ t.place = .device ∧ c = t.cell := by
  unfold deviceCellOf
  split
  · trivial
  · rename_i hplace
    have hready : Returns (outcome (onMachine t.requireReserved) a) fun _ a' => a' = a := by
      refine onMachine_ends ?_
      rw [outcome_requireReserved]
      split
      · trivial
      · exact rfl
    exact hready.bind fun _ a' h => ⟨h, not_not.1 hplace, rfl⟩

theorem deviceCell_returns : Returns (outcome (deviceCell id i) a) fun c a' =>
    a' = a ∧ ∃ t, tensorAt a.builders (id, i) = some t ∧ c = t.cell := by
  refine tensor_returns.bind fun t a' h => ?_
  obtain ⟨rfl, ht⟩ := h
  exact deviceCellOf_returns.mono fun c a' h => ⟨h.1, t, ht, h.2.2⟩

/-- The cells of several operands, one after another. -/
theorem mapM_returns {f : OperandId → Assemble CellId}
    (hf : ∀ i, Returns (outcome (f i) a) fun c a' =>
      a' = a ∧ ∃ t, tensorAt a.builders (id, i) = some t ∧ c = t.cell) (is : List OperandId) :
    Returns (outcome (is.mapM f) a) fun cs a' =>
      a' = a ∧ ∃ ts, TensorsAt a.builders id is ts ∧ cs = ts.map Tensor.cell := by
  refine Ends.mapM (fun done cs a' =>
    a' = a ∧ ∃ ts, TensorsAt a.builders id done ts ∧ cs = ts.map Tensor.cell)
    (fun done cs i rest a₁ _ h => ?_) ⟨rfl, [], .nil, rfl⟩
  obtain ⟨rfl, ts, hts, rfl⟩ := h
  refine (hf i).mono fun c a₂ h => ?_
  obtain ⟨rfl, t, ht, rfl⟩ := h
  exact ⟨rfl, ts ++ [t], List.rel_append hts (.cons ht .nil), by rw [List.map_append]; rfl⟩

/-! ## Scratch tensors -/

/-- One of the builders of that name got the scratch tensor. -/
theorem addScratchTo_returns : ∀ {bs : List TensorBuilder} {m : Machine},
    Returns (outcome (addScratchTo id info bs) m) fun r m' =>
      ∃ front b b' back, bs = front ++ b :: back ∧ r.1 = front ++ b' :: back ∧
        outcome (b.addScratch info) m = (.ok (b', r.2), m')
  | [], m => trivial
  | b :: bs, m => by
    unfold addScratchTo
    split
    · have hself : Returns (outcome (b.addScratch info) m) fun r m' =>
          outcome (b.addScratch info) m = (.ok r, m') := by
        obtain ⟨r, m'⟩ := outcome (b.addScratch info) m
        cases r with
        | ok r => exact rfl
        | error e => trivial
      exact hself.bind fun r m' hr => ⟨[], b, r.1, bs, rfl, rfl, hr⟩
    · refine addScratchTo_returns.bind fun r m' h => ?_
      obtain ⟨front, b', b'', back, rfl, hr, hrun⟩ := h
      exact ⟨b :: front, b', b'', back, rfl, congrArg (b :: ·) hr, hrun⟩

/-- A builder got the scratch tensor `u`, whose cell is new. -/
structure GainsScratch (info : TensorInfo) (a a' : Assembly) (u : Tensor) : Prop where
  frames : a'.builders.map TensorBuilder.frame = a.builders.map TensorBuilder.frame
  scratch : (scratchOf a'.builders).Perm (u :: scratchOf a.builders)
  info : u.info = info
  runnables : a'.runnables = a.runnables
  new : a.machine.memory.length ≤ u.cell
  bound : u.cell < a'.machine.memory.length

theorem addScratch_returns {b : TensorBuilder} : Returns (outcome (b.addScratch info) m) fun r m' =>
    r.1.frame = b.frame ∧ r.1.scratch = b.scratch ++ [r.2] ∧ r.2.info = info ∧
      m.memory.length ≤ r.2.cell ∧ r.2.cell < m'.memory.length := by
  by_cases hphase : b.phase = .allocated
  · refine (addScratch_laid hphase info (.nil m)).mono (fun r m' h => ?_) fun _ _ _ => trivial
    obtain ⟨hframe, -, hscratch, -, hinfo, hlaid, -⟩ := h
    exact ⟨hframe, hscratch, hinfo, hlaid.new _ (by simp), hlaid.bound _ (by simp)⟩
  · unfold TensorBuilder.addScratch
    rw [if_pos hphase]
    trivial

theorem scratch_returns : Returns (outcome (scratch id info) a) fun u a' =>
    GainsScratch info a a' u := by
  rw [scratch, outcome_bind_of_ok (outcome_get a)]
  have hadd : Returns (outcome (onMachine (addScratchTo id info a.builders)) a) fun r a' =>
      GainsScratch info a { a' with builders := r.1 } r.2 := by
    refine onMachine_ends (addScratchTo_returns.mono fun r m' h => ?_)
    obtain ⟨front, b, b', back, hbs, hr, hrun⟩ := h
    obtain ⟨hframe, hscratch, hinfo, hnew, hbound⟩ := addScratch_returns.of_eq hrun
    refine ⟨?_, ?_, hinfo, rfl, hnew, hbound⟩
    · rw [hbs, hr, List.map_append, List.map_append, List.map_cons, List.map_cons, hframe]
    · rw [hbs, hr, scratchOf, scratchOf, List.flatMap_append, List.flatMap_append,
        List.flatMap_cons, List.flatMap_cons, hscratch, List.append_assoc b.scratch]
      have hmiddle : (b.scratch ++ r.2 :: back.flatMap (·.scratch)).Perm
          (r.2 :: (b.scratch ++ back.flatMap (·.scratch))) := List.perm_middle
      exact (hmiddle.append_left _).trans List.perm_middle
  exact hadd.bind fun r a' h => h

end Assembly

/-! ## Stages -/

open Assembly

/-- The tensors that a stage found, and the steps that it appended. -/
inductive Binds (a : Assembly) : Stage → Assembly → Prop
  | host {id k is o ts t} (label : String) :
    TensorsAt a.builders id is ts → tensorAt a.builders (id, o) = some t →
    Binds a (.host id k is o)
      { a with runnables := a.runnables ++ [.host label k (ts.map Tensor.cell) t.cell] }
  | device {id k act is o fl ts t} (label label' : String) :
    TensorsAt a.builders id is ts → tensorAt a.builders (id, o) = some t → fl = none ∨ is = [] →
    Binds a (.device id k act is o fl)
      { a with
        runnables := a.runnables ++ deviceSteps label label' k act (ts.map Tensor.cell) t.cell }
  | flattened {id k act is o f first rest t u a'} (label₀ label label' : String) :
    TensorsAt a.builders id is (first :: rest) → tensorAt a.builders (id, o) = some t →
    GainsScratch f.scratch a a' u → u.place = .device →
    Binds a (.device id k act is o (some f))
      { a' with
        runnables := a.runnables ++ .device label₀ f.kernel [first.cell] u.cell ::
          deviceSteps label label' k act (u.cell :: rest.map Tensor.cell) t.cell }
  | permute {x o b b' source target} (label : String) :
    tensorAt a.builders (b, x) = some source → tensorAt a.builders (b', o) = some target →
    Binds a (.permute x o b b') { a with runnables := a.runnables ++ [.permute label source target] }

/-- Where a device stage reads its inputs. -/
theorem applyFlatten_returns {id' : BackendId} {flatten : Option Flatten} {is : List OperandId}
    {ts : List Tensor} (hts : TensorsAt a.builders id' is ts) :
    Returns (outcome (Stage.applyFlatten id flatten is (ts.map Tensor.cell)) a) fun ins a' =>
      ((flatten = none ∨ is = []) ∧ a' = a ∧ ins = ts.map Tensor.cell) ∨
        ∃ f first rest u a₁ label₀, flatten = some f ∧ ts = first :: rest ∧
          GainsScratch f.scratch a a₁ u ∧ u.place = .device ∧
          ins = u.cell :: rest.map Tensor.cell ∧
          a' = { a₁ with
            runnables := a.runnables ++ [.device label₀ f.kernel [first.cell] u.cell] } := by
  cases flatten with
  | none => exact .inl ⟨.inl rfl, rfl, rfl⟩
  | some f =>
    cases hts with
    | nil => exact .inl ⟨.inr rfl, rfl, rfl⟩
    | @cons i first is rest hfirst hrest =>
      refine scratch_returns.bind fun u a₁ hu => deviceCellOf_returns.bind fun c a₂ h₂ => ?_
      obtain ⟨rfl, hplace, rfl⟩ := h₂
      exact .inr ⟨f, first, rest, u, a₂, _, rfl, rfl, hu, hplace, rfl, by rw [← hu.runnables]⟩

/-- **A stage that was applied is bound to tensors.** -/
theorem apply_binds (s : Stage) : Returns (outcome s.apply a) fun _ a' => Binds a s a' := by
  cases s with
  | host id kernel inputs output =>
    refine (mapM_returns (fun i => hostCell_returns) inputs).bind fun ins a₁ h₁ => ?_
    obtain ⟨rfl, ts, hts, rfl⟩ := h₁
    refine hostCell_returns.bind fun out a₂ h₂ => ?_
    obtain ⟨rfl, t, ht, rfl⟩ := h₂
    exact .host _ hts ht
  | device id kernel activation inputs output flatten =>
    refine deviceCell_returns.bind fun out a₁ h₁ => ?_
    obtain ⟨rfl, t, ht, rfl⟩ := h₁
    refine (mapM_returns (fun i => deviceCell_returns) inputs).bind fun ins a₂ h₂ => ?_
    obtain ⟨rfl, ts, hts, rfl⟩ := h₂
    refine (applyFlatten_returns hts).bind fun ins a₃ h₃ => ?_
    rw [outcome_deviceSteps]
    rcases h₃ with ⟨hnone, rfl, rfl⟩ | ⟨f, first, rest, u, a₁, label₀, rfl, rfl, hu, hplace, rfl, rfl⟩
    · exact .device _ _ hts ht hnone
    · have hbinds : Binds a₂ (.device id kernel activation inputs output (some f)) _ :=
        .flattened label₀ s!"gpu {kernel.name} #{output}" s!"gpu activation #{output}" hts ht hu
          hplace
      rwa [List.append_cons] at hbinds
  | permute input output source target =>
    refine tensor_returns.bind fun src a₁ h₁ => ?_
    obtain ⟨rfl, hsrc⟩ := h₁
    refine tensor_returns.bind fun dst a₂ h₂ => ?_
    obtain ⟨rfl, hdst⟩ := h₂
    exact .permute _ hsrc hdst

end HeteroNet
