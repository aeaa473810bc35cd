import HeteroNet.Proofs.Plan.Grants
import HeteroNet.Proofs.Plan.Prepared
import HeteroNet.Proofs.Plan.Statistics

/-
What calls on a builder leave behind when they fail. Marking, preparing and adding a scratch tensor
change a builder at their end, so that a failure leaves it as it was. Allocating gives memory to one
tensor after another. The tensors before the first that gets none keep theirs, the builder has counted
them, and since it would give memory to all its tensors once more, it cannot go on from there: a
failed call can be repeated only if it failed at the very first tensor (`failed_call_leaves`).
-/

namespace HeteroNet

namespace TensorBuilder

variable {b b' : TensorBuilder} {m m' m'' : Machine} {t : Tensor} {e : Failure} {err : Error}

/-! ## Reached states -/

/-- These cells lie where they did, and have memory exactly if they had. -/
structure Undisturbed (is : List CellId) (m m' : Machine) : Prop where
  length : m.memory.length ≤ m'.memory.length
  place : ∀ i ∈ is, (m'.memory.cell i).place = (m.memory.cell i).place
  reserved : ∀ i ∈ is, (m'.memory.cell i).reserved = (m.memory.cell i).reserved

/-- These cells are as they were, contents and holders included. -/
structure Unaltered (is : List CellId) (m m' : Machine) : Prop extends Undisturbed is m m' where
  cell : ∀ i ∈ is, m'.memory.cell i = m.memory.cell i

/-- The states that a builder comes to, of either place, on a machine that it shares with others. It
does not come back from a call that breaks off. -/
inductive Reached : TensorBuilder → Machine → Prop
  | new (backend : BackendId) (place : Place) (m : Machine) : Reached { backend, place } m
  | call {b : TensorBuilder} {m : Machine} (c : BuilderCall) : Reached b m →
    (c.on b m).1 ≠ .error .oversized → Reached (c.on b m).2.1 (c.on b m).2.2
  /-- Whatever others do, with cells of their own. -/
  | elsewhere {b : TensorBuilder} {m m' : Machine} : Reached b m → Undisturbed b.cells m m' →
    Reached b m'

/-- None of the builder's operands has memory yet. -/
def Untouched (b : TensorBuilder) (m : Machine) : Prop := Unreserved m (b.tensors.map (·.2))

/-- The first of its operands has memory already. -/
def Begun (b : TensorBuilder) (m : Machine) : Prop :=
  ∃ t ts, b.tensors.map (·.2) = t :: ts ∧ (m.memory.cell t.cell).reserved = true

/-- The operands that have memory are the same. -/
def SameReserved (b : TensorBuilder) (m m' : Machine) : Prop :=
  ∀ t ∈ b.tensors.map (·.2),
    (m'.memory.cell t.cell).reserved = (m.memory.cell t.cell).reserved

theorem Undisturbed.same (h : Undisturbed b.cells m m') : b.SameReserved m m' := fun _ ht =>
  h.reserved _ (List.mem_map_of_mem (List.mem_append_left _ ht))

theorem Untouched.congr (h : b.Untouched m) (hm : b.SameReserved m m') : b.Untouched m' :=
  fun t ht => (hm t ht).trans (h t ht)

theorem Begun.congr (h : b.Begun m) (hm : b.SameReserved m m') : b.Begun m' := by
  obtain ⟨t, ts, hts, ht⟩ := h
  exact ⟨t, ts, hts, (hm t (hts ▸ List.mem_cons_self)).trans ht⟩

/-- Where a builder's tensors are, and which of them have memory while it has not allocated. -/
structure Housed (b : TensorBuilder) (m : Machine) : Prop where
  bare : b.phase = .marking → b.tensors = []
  unscratched : b.phase ≠ .allocated → b.scratch = []
  cells : b.cells.Nodup
  sits : ∀ t ∈ b.allTensors, t.Sits m
  places : ∀ t ∈ b.allTensors, t.place = b.place
  backends : ∀ t ∈ b.allTensors, t.backend = b.backend
  /-- A host builder does not ask whether a tensor has memory. -/
  begun : b.phase = .prepared → b.place = .device → b.Untouched m ∨ b.Begun m

theorem Housed.new (backend : BackendId) (place : Place) (m : Machine) :
    Housed { backend, place } m where
  bare _ := rfl
  unscratched _ := rfl
  cells := List.nodup_nil
  sits t ht := by cases ht
  places t ht := by cases ht
  backends t ht := by cases ht
  begun h := by cases h

theorem Housed.elsewhere (h : Housed b m) (hm : Undisturbed b.cells m m') : Housed b m' where
  bare := h.bare
  unscratched := h.unscratched
  cells := h.cells
  sits t ht := by
    have hcell : t.cell ∈ b.cells := List.mem_map_of_mem ht
    exact ⟨Nat.lt_of_lt_of_le (h.sits t ht).1 hm.length, (hm.place _ hcell).trans (h.sits t ht).2⟩
  places := h.places
  backends := h.backends
  begun hphase hplace := (h.begun hphase hplace).imp (·.congr hm.same) (·.congr hm.same)

theorem Housed.mark {i : OperandId} (h : Housed b m) (hmark : b.mark i = .ok b') : Housed b' m := by
  unfold TensorBuilder.mark at hmark
  split at hmark
  · cases hmark
  · cases hmark
    exact { h with }

theorem createTensors_backends {wanted : List (OperandId × TensorInfo)} :
    Returns (outcome (b.createTensors wanted) m) fun es _ => ∀ e ∈ es, e.2.backend = b.backend := by
  refine Ends.mapM (fun _ (es : List (OperandId × Tensor)) _ => ∀ e ∈ es, e.2.backend = b.backend)
    (fun done es w rest m₁ _ hI => ?_) (by simp)
  have hcreate : Returns (outcome (Tensor.create b.place b.backend w.2) m₁) fun t _ =>
    t.backend = b.backend := (Returns.any _).bind fun _ _ _ => rfl
  refine hcreate.bind fun t m₂ ht e he => ?_
  rcases List.mem_append.1 he with he | he
  · exact hI e he
  · obtain rfl := List.mem_singleton.1 he
    exact ht

/-- Preparing fails before it makes the first tensor. -/
theorem Housed.prepare (h : Housed b m) (constraints : ShapeConstraints) :
    Ends (outcome (b.prepare constraints) m) Housed fun _ m' => m' = m := by
  unfold TensorBuilder.prepare
  split
  · rfl
  · rename_i hphase
    have hscratch : b.scratch = [] := h.unscratched fun hp => hphase (by simp [hp])
    refine Ends.bind (Ends.check (fun wanted _ => ?_) fun _ _ => rfl)
    refine Ends.bind (((createTensors_laid (Laid.nil m) (fun t ht => by cases ht)).and
      createTensors_backends).mono (fun es m' hes => ?_) fun _ _ he => he.1.elim)
    obtain ⟨⟨hcreated, hlaid, hfree⟩, hbackends⟩ := hes
    rw [List.append_nil] at hlaid hfree
    have hplaces : ∀ e ∈ es, e.2.place = b.place := fun e he => by
      obtain ⟨w, -, hw⟩ := (mem_of_forall₂ hcreated).1 e he
      exact hw.2.1
    have hall : ∀ {P : Tensor → Prop}, (∀ t ∈ es.map Prod.snd, P t) →
        ∀ t ∈ es.map Prod.snd ++ b.scratch, P t := by
      simp [hscratch]
    refine ⟨nofun, fun _ => hscratch, ?_, hall fun t ht => ⟨hlaid.bound t ht, hlaid.sited t ht⟩,
      hall (List.forall_mem_map.2 hplaces), hall (List.forall_mem_map.2 hbackends),
      fun _ _ => .inl hfree⟩
    change ((es.map Prod.snd ++ b.scratch).map Tensor.cell).Nodup
    rw [hscratch, List.append_nil]
    exact hlaid.cells

/-! ### Allocating -/

/-- The builder after it tried to allocate, and gave memory to these tensors. -/
def tried (b : TensorBuilder) (got : List Tensor) : TensorBuilder :=
  counting { b with stats := { b.stats with allocateCalls := b.stats.allocateCalls + 1 } } got

/-- The tensors that get memory when a prepared builder allocates. -/
def granted (b : TensorBuilder) (m : Machine) : List Tensor :=
  grants m.memory m.device (b.tensors.map (·.2))

/-- How allocating ends. -/
inductive Allocates (b : TensorBuilder) (m : Machine) :
    Except Failure Unit × TensorBuilder × Machine → Prop
  | all {m' : Machine} : b.granted m = b.tensors.map (·.2) → Granted (b.granted m) m m' →
    Allocates b m (.ok (), { b.tried (b.granted m) with phase := .allocated }, m')
  | some {m' : Machine} {e : Failure} {t : Tensor} {behind : List Tensor} :
    b.tensors.map (·.2) = b.granted m ++ t :: behind → t.Denied m.memory e →
    Granted (b.granted m) m m' →
    (e ≠ .oversized → m'.device = m.device.charged ((b.granted m).map Tensor.taken).sum) →
    Allocates b m (.error e, b.tried (b.granted m), m')

theorem Housed.operands (h : Housed b m) : ((b.tensors.map (·.2)).map Tensor.cell).Nodup := by
  have hcells := h.cells
  rw [b.cells_eq, List.nodup_append] at hcells
  rw [List.map_map]
  exact hcells.1

theorem Housed.allocates (h : Housed b m) (hphase : b.phase = .prepared) :
    Allocates b m (b.allocate m) := by
  obtain ⟨r, m', hrun, hgranted, hdevice, hends⟩ := reserveAll_grants
    (b := { b with stats := { b.stats with allocateCalls := b.stats.allocateCalls + 1 } })
    (fun t ht => h.sits t (List.mem_append_left _ ht)) h.operands
  unfold TensorBuilder.allocate
  split
  · rename_i hp
    cases hphase.symm.trans hp
  · rename_i hp
    cases hphase.symm.trans hp
  · dsimp only
    rw [hrun]
    cases r with
    | ok u => exact .all hends hgranted
    | error e =>
      obtain ⟨t, behind, hts, hdenied⟩ := hends
      exact .some hts hdenied hgranted fun he => hdevice fun hr => he (by injection hr)

theorem Housed.allocate (h : Housed b m) : Housed (b.allocate m).2.1 (b.allocate m).2.2 := by
  by_cases hphase : b.phase = .prepared
  · have hallocates := h.allocates hphase
    revert hallocates
    generalize b.allocate m = r
    rintro (⟨-, hgranted⟩ | @⟨m', e, u, behind, hts, -, hgranted, -⟩)
    · exact { h with
        bare := nofun, unscratched := fun hne => absurd rfl hne, begun := nofun,
        sits := fun t ht => (h.sits t ht).granted hgranted }
    · refine { h with
        sits := fun t ht => (h.sits t ht).granted hgranted, begun := fun _ hplace => ?_ }
      have hreserved : ∀ t ∈ b.tensors.map (·.2), (m'.memory.cell t.cell).reserved =
          ((m.memory.cell t.cell).reserved || decide (t.cell ∈ (b.granted m).map Tensor.cell)) :=
        fun t ht => hgranted.reserved _ (h.sits t (List.mem_append_left _ ht)).1
      rcases hgot : b.granted m with _ | ⟨t, got⟩
      · -- No tensor got memory, so all is as it was.
        have hsame : b.SameReserved m m' := fun t ht => by simp [hreserved t ht, hgot]
        exact (h.begun hphase hplace).imp (·.congr hsame) (·.congr hsame)
      · rw [hgot] at hts
        refine .inr ⟨t, _, hts, ?_⟩
        rw [hreserved t (hts ▸ by simp), hgot]
        simp
  · unfold TensorBuilder.allocate
    split
    · exact h
    · exact h
    · exact absurd ‹_› hphase

/-! ### Scratch -/

theorem Unaltered.of_cells {is : List CellId} (hlength : m.memory.length ≤ m'.memory.length)
    (hcell : ∀ i ∈ is, m'.memory.cell i = m.memory.cell i) : Unaltered is m m' where
  length := hlength
  place i hi := congrArg Cell.place (hcell i hi)
  reserved i hi := congrArg Cell.reserved (hcell i hi)
  cell := hcell

theorem Unaltered.refl {is : List CellId} : Unaltered is m m :=
  .of_cells (Nat.le_refl _) fun _ _ => rfl

theorem Unaltered.append {is : List CellId} {cs : List Cell} (h : ∀ i ∈ is, i < m.memory.length) :
    Unaltered is m { m with memory := m.memory ++ cs } :=
  .of_cells (by simp) fun i hi => Memory.cell_append_left (h i hi)

theorem Unaltered.of_memory {is : List CellId} (h : Unaltered is m m')
    (hm : m''.memory = m'.memory) : Unaltered is m m'' :=
  .of_cells (hm ▸ h.length) (hm ▸ h.cell)

theorem Housed.bound (h : Housed b m) {i : CellId} (hi : i ∈ b.cells) : i < m.memory.length := by
  obtain ⟨t, ht, rfl⟩ := List.mem_map.1 hi
  exact (h.sits t ht).1

/-- The cell of a scratch tensor that gets no memory is left behind. -/
theorem Housed.addScratch (h : Housed b m) (info : TensorInfo) :
    Ends (outcome (b.addScratch info) m) (fun r m' => Housed r.1 m')
      fun e m' => Unaltered b.cells m m' ∧ (e ≠ .oversized → m'.device = m.device) := by
  unfold TensorBuilder.addScratch
  by_cases hphase : b.phase = .allocated
  · rw [if_neg (not_not.2 hphase)]
    let t : Tensor := ⟨info, b.place, b.backend, m.memory.length⟩
    let m₁ : Machine := { m with memory := m.memory ++ [{ place := b.place }] }
    have hcreate : outcome (Tensor.create b.place b.backend info) m = (.ok t, m₁) := rfl
    have hkept : Unaltered b.cells m m₁ := .append fun i hi => h.bound hi
    have hsits : t.Sits m₁ := ⟨by simp [m₁, t], congrArg Cell.place (Memory.cell_append_new _)⟩
    rw [outcome_bind_of_ok hcreate]
    refine Ends.bind (hsits.allocate.mono ?_ ?_)
    · rintro bytes m₂ ⟨-, rfl, hgiven⟩
      have hkept' := h.elsewhere hkept.toUndisturbed
      have hnew : t.cell ∉ b.cells := fun hi => Nat.lt_irrefl _ (h.bound hi)
      have hall : ∀ {P : Tensor → Prop}, (∀ u ∈ b.allTensors, P u) → P t →
          ∀ u ∈ b.tensors.map (·.2) ++ (b.scratch ++ [t]), P u := by
        intro P hold ht u hu
        rw [← List.append_assoc] at hu
        rcases List.mem_append.1 hu with hu | hu
        · exact hold u hu
        · exact List.mem_singleton.1 hu ▸ ht
      refine ⟨fun hp => ?_, fun hne => absurd hphase hne, ?_, ?_, ?_, ?_, fun hp => ?_⟩
      · cases hphase.symm.trans hp
      · refine (congrArg List.Nodup (b.cells_scratch t)).mpr ?_
        exact List.nodup_append.2 ⟨h.cells, List.nodup_singleton _, fun i hi j hj he =>
          hnew (List.mem_singleton.1 hj ▸ he ▸ hi)⟩
      · exact hall (fun u hu => (hkept'.sits u hu).granted hgiven.toGranted)
          (hsits.granted hgiven.toGranted)
      · exact hall h.places rfl
      · exact hall h.backends rfl
      · cases hphase.symm.trans hp
    · rintro e m₂ ⟨hmemory, hdevice, -⟩
      exact ⟨hkept.of_memory hmemory, hdevice⟩
  · rw [if_pos hphase]
    exact ⟨.refl, fun _ => rfl⟩

/-! ### Any call -/

theorem Housed.becomes (h : Housed b m) {task : Task TensorBuilder}
    (hends : Ends (outcome task m) Housed fun _ m' => Unaltered b.cells m m') :
    Housed (b.becomes task m).2.1 (b.becomes task m).2.2 :=
  becomes_ends (P := fun _ => Housed) (hends.mono (fun _ _ hb => hb) fun _ _ hm =>
    h.elsewhere hm.toUndisturbed)

theorem Housed.call (h : Housed b m) (c : BuilderCall) :
    Housed (c.on b m).2.1 (c.on b m).2.2 := by
  cases c with
  | mark i => exact h.becomes (Ends.check (fun _ hmark => h.mark hmark) fun _ _ => .refl)
  | prepare constraints =>
    refine h.becomes ((h.prepare constraints).mono (fun _ _ hb => hb) ?_)
    rintro e _ rfl
    exact .refl
  | allocate => exact h.allocate
  | scratch info =>
    exact h.becomes (Ends.bind ((h.addScratch info).mono (fun _ _ hb => hb) fun _ _ hm => hm.1))

/-- A call that fails changes nothing, unless a prepared builder was to allocate. -/
theorem Housed.refused (h : Housed b m) {c : BuilderCall}
    (hc : ¬(c = .allocate ∧ b.phase = .prepared)) (hfail : (c.on b m).1 = .error (.error err)) :
    (c.on b m).2.1 = b ∧ (c.on b m).2.2.device = m.device ∧
      Unaltered b.cells m (c.on b m).2.2 := by
  have hbecomes : ∀ {task : Task TensorBuilder}, (b.becomes task m).1 = .error (.error err) →
      Ends (outcome task m) (fun _ _ => True)
        (fun e m' => Unaltered b.cells m m' ∧ (e ≠ .oversized → m'.device = m.device)) →
      (b.becomes task m).2.1 = b ∧ (b.becomes task m).2.2.device = m.device ∧
        Unaltered b.cells m (b.becomes task m).2.2 := by
    intro task hfail hends
    obtain ⟨m', herror, hbecomes⟩ := becomes_error hfail
    rw [herror] at hends
    rw [hbecomes]
    exact ⟨rfl, hends.2 (Failure.error_ne_oversized err), hends.1⟩
  cases c with
  | mark i =>
    exact hbecomes hfail (Ends.check (fun _ _ => trivial) fun _ _ => ⟨.refl, fun _ => rfl⟩)
  | prepare constraints =>
    refine hbecomes hfail ((h.prepare constraints).mono (fun _ _ _ => trivial) ?_)
    rintro e _ rfl
    exact ⟨.refl, fun _ => rfl⟩
  | scratch info =>
    exact hbecomes hfail
      (Ends.bind ((h.addScratch info).mono (fun _ _ _ => trivial) fun _ _ hm => hm))
  | allocate =>
    change (b.allocate m).2.1 = b ∧ (b.allocate m).2.2.device = m.device ∧
      Unaltered b.cells m (b.allocate m).2.2
    unfold TensorBuilder.allocate
    split
    · exact ⟨rfl, rfl, .refl⟩
    · exact ⟨rfl, rfl, .refl⟩
    · exact absurd ⟨rfl, ‹_›⟩ hc

theorem Reached.housed (h : Reached b m) : Housed b m := by
  induction h with
  | new backend place m => exact .new backend place m
  | call c _ _ ih => exact ih.call c
  | elsewhere _ hm ih => exact ih.elsewhere hm

/-! ## Trying once more -/

/-- A builder whose first operand has memory does not get past it. -/
theorem Begun.allocate (hbegun : b.Begun m) (h : Housed b m) (hphase : b.phase = .prepared)
    (hplace : b.place = .device) :
    b.allocate m = (fail (.alreadyAllocated b.backend), b.tried [], m) := by
  obtain ⟨t, ts, hts, hreserved⟩ := hbegun
  have ht : t ∈ b.allTensors := List.mem_append_left _ (hts ▸ List.mem_cons_self)
  have hrun : t.allocate.on m = (.error (.error (.allocation (.alreadyAllocated b.backend))), m) := by
    rw [Task.on_eq, Tensor.allocate, outcome_bind_of_ok (outcome_get m), hreserved,
      h.places t ht, hplace, h.backends t ht]
    rfl
  unfold TensorBuilder.allocate
  split
  · rename_i hp
    cases hphase.symm.trans hp
  · rename_i hp
    cases hphase.symm.trans hp
  · rw [hts]
    dsimp only [reserveAll]
    rw [hrun]
    rfl

/-- A builder none of whose operands has memory allocates if buffers can be as large and there is enough
for all of them. -/
theorem Untouched.allocate (hfree : b.Untouched m) (h : Housed b m) (hphase : b.phase = .prepared)
    (hplace : b.place = .device) (hne : b.tensors ≠ [])
    (hcounts : m.device.Counts (bytesFor (b.tensors.map (·.2)))) :
    (b.allocate m).1 = .ok () ↔ (∀ t ∈ b.tensors.map (·.2), t.Fits) ∧
      m.device.Affords (bytesFor (b.tensors.map (·.2))) := by
  have hall : b.granted m = b.tensors.map (·.2) ↔ _ :=
    grants_eq_self (by simpa using hne)
      (fun t ht => ⟨(h.places t (List.mem_append_left _ ht)).trans hplace, hfree t ht⟩) hcounts
  rw [← hall]
  have hallocates := h.allocates hphase
  revert hallocates
  generalize b.allocate m = r
  rintro (⟨hgot, -⟩ | ⟨hts, -⟩)
  · exact iff_of_true rfl hgot
  · refine iff_of_false nofun fun hgot => ?_
    rw [hgot] at hts
    exact absurd hts (by simp)

/-- What a call on a builder leaves that fails halfway, and what comes of the next attempt, whatever
happened in between. -/
structure Halfway (b : TensorBuilder) (m : Machine) (err : Error) (b' : TensorBuilder)
    (m' : Machine) : Prop where
  place : b.place = .device
  /-- It was another tensor's turn. -/
  behind : ∃ t behind, b.tensors.map (·.2) = b.granted m ++ t :: behind
  builder : b' = b.tried (b.granted m)
  device : m'.device = m.device.charged (bytesFor (b.granted m))
  reserved : ∀ t ∈ b.tensors.map (·.2), (m'.memory.cell t.cell).reserved =
    ((m.memory.cell t.cell).reserved || decide (t ∈ b.granted m))
  retried : b.granted m = [] → OutOfMemory (.error err) → ∀ m'', Undisturbed b.cells m' m'' →
    m''.device.Counts (bytesFor (b.tensors.map (·.2))) →
    ((b'.allocate m'').1 = .ok () ↔ (∀ t ∈ b.tensors.map (·.2), t.Fits) ∧
      m''.device.Affords (bytesFor (b.tensors.map (·.2))))
  stuck : ¬(b.granted m = [] ∧ OutOfMemory (.error err)) → ∀ m'', Undisturbed b.cells m' m'' →
    b'.allocate m'' = (fail (.alreadyAllocated b.backend), b'.tried [], m'')

theorem mem_granted_iff (h : Housed b m) {t : Tensor} (ht : t ∈ b.tensors.map (·.2)) :
    t.cell ∈ (b.granted m).map Tensor.cell ↔ t ∈ b.granted m := by
  refine ⟨fun hi => ?_, fun hi => List.mem_map_of_mem hi⟩
  obtain ⟨u, hu, he⟩ := List.mem_map.1 hi
  rwa [← List.inj_on_of_nodup_map h.operands (grants_subset _ _ hu) ht he]

/-- The tensors that were granted memory have theirs now, and the others what they had. -/
theorem Housed.reserved_granted (h : Housed b m) {m' : Machine}
    (hgranted : Granted (b.granted m) m m') {t : Tensor} (ht : t ∈ b.tensors.map (·.2)) : (m'.memory.cell t.cell).reserved =
      ((m.memory.cell t.cell).reserved || decide (t ∈ b.granted m)) := by
  rw [hgranted.reserved _ (h.sits t (List.mem_append_left _ ht)).1,
    decide_eq_decide.2 (mem_granted_iff h ht)]

theorem Housed.halfway (h : Housed b m) (hphase : b.phase = .prepared)
    (hfail : (b.allocate m).1 = .error (.error err)) :
    Halfway b m err (b.allocate m).2.1 (b.allocate m).2.2 := by
  have h' := h.allocate
  have hallocates := h.allocates hphase
  revert hfail h' hallocates
  generalize b.allocate m = r
  rintro hfail h' (_ | @⟨m', e, t, behind, hts, hdenied, hgranted, hdevice⟩)
  · cases hfail
  cases hfail
  have hb : b.place = .device :=
    (h.places t (List.mem_append_left _ (hts ▸ by simp))).symm.trans hdenied.place
  have htaken : ((b.granted m).map Tensor.taken).sum = bytesFor (b.granted m) :=
    congrArg List.sum (List.map_congr_left fun u hu => by
      simp [Tensor.taken, h.places u (List.mem_append_left _ (grants_subset _ _ hu)), hb])
  have hreserved : ∀ u ∈ b.tensors.map (·.2), (m'.memory.cell u.cell).reserved =
      ((m.memory.cell u.cell).reserved || decide (u ∈ b.granted m)) :=
    fun _ hu => h.reserved_granted hgranted hu
  refine ⟨hb, ⟨t, behind, hts⟩, rfl, by rw [hdevice (Failure.error_ne_oversized err), htaken], hreserved,
    fun hnone hout m'' hm hcounts => ?_, fun hnot m'' hm => ?_⟩
  · -- The first tensor had no memory, so none had.
    rw [hnone, List.nil_append] at hts
    have hfree : b.Untouched m := by
      refine (h.begun hphase hb).resolve_right ?_
      rintro ⟨u, us, hus, hu⟩
      obtain ⟨rfl, rfl⟩ := List.cons.inj (hts.symm.trans hus)
      rw [hdenied.outOfMemory_iff.1 hout] at hu
      cases hu
    have hsame : b.SameReserved m m' := fun u hu => by simp [hreserved u hu, hnone]
    have hfree'' : (b.tried (b.granted m)).Untouched m'' := (hfree.congr hsame).congr hm.same
    have hne : b.tensors ≠ [] := fun hnil => by simp [hnil] at hts
    exact hfree''.allocate (h'.elsewhere hm) hphase hb hne hcounts
  · have hbegun : (b.tried (b.granted m)).Begun m' := by
      refine (h'.begun hphase hb).resolve_left fun hfree => hnot ?_
      have hnone : b.granted m = [] := List.eq_nil_iff_forall_not_mem.2 fun u hu => by
        have hmem := grants_subset _ _ hu
        have hfree' := hfree u hmem
        simp [hreserved u hmem, hu] at hfree'
      have ht := hfree t (hts ▸ by simp)
      rw [hreserved t (hts ▸ by simp), Bool.or_eq_false_iff] at ht
      exact ⟨hnone, hdenied.outOfMemory_iff.2 ht.1⟩
    exact (hbegun.congr hm.same).allocate (h'.elsewhere hm) hphase hb

/-- **What a call leaves behind that returns an error.** Nothing, unless a prepared builder of device
tensors was to allocate. Then the tensors before the one that got no memory have theirs; and the
builder can allocate later on if there were none, and enough memory has been let go by then, but never
if there were some, whatever has been let go. -/
theorem failed_call_leaves (h : Reached b m) {c : BuilderCall}
    (hfail : (c.on b m).1 = .error (.error err)) :
    (¬(c = .allocate ∧ b.phase = .prepared) → (c.on b m).2.1 = b ∧
      (c.on b m).2.2.device = m.device ∧ Unaltered b.cells m (c.on b m).2.2) ∧
    (c = .allocate → b.phase = .prepared → Halfway b m err (c.on b m).2.1 (c.on b m).2.2) := by
  refine ⟨fun hc => h.housed.refused hc hfail, ?_⟩
  rintro rfl hphase
  exact h.housed.halfway hphase hfail

/-- A builder that wants eight bytes and sixteen of a device of 24, of which somebody has taken eight
already. -/
def crampedRows : TensorBuilder × Machine :=
  let words (n : Nat) : TensorInfo := ⟨[n], { element := .float32 }⟩
  [.mark 0, .mark 1, .prepare [(0, words 2), (1, words 4)]].foldl
    (fun (p : TensorBuilder × Machine) (c : BuilderCall) => (c.on p.1 p.2).2)
    ({ backend := "gpu", place := .device },
      ((Machine.allocate 2).on { device := { limit := some 24 } }).2)

theorem crampedRows_reached : Reached crampedRows.1 crampedRows.2 :=
  .call _ (.call _ (.call _ (.new "gpu" .device _) (by decide)) (by decide)) (by decide)

/-- Letting go of another's buffer leaves the builder's tensors alone. -/
theorem undisturbed_release {is : List CellId} {i : CellId} : Undisturbed is m (m.release i) where
  length := by simp [Machine.release]
  place j _ := Memory.cell_modify_holds (P := fun c => c.place = (m.memory.cell j).place)
    (fun _ hc => hc) rfl
  reserved j _ := Memory.cell_modify_holds (P := fun c => c.reserved = (m.memory.cell j).reserved)
    (fun _ hc => hc) rfl

/-- The first row got its memory. Not even the eight bytes of the other one help the second then. -/
theorem failed_call_leaves_cramped :
    let p := crampedRows.1.allocate crampedRows.2
    p.1 = .error (.error (.allocation (.outOfMemory 16 8))) ∧
      p.2.1.allocate (p.2.2.release 0)
        = (fail (.alreadyAllocated "gpu"), p.2.1.tried [], p.2.2.release 0) := by
  intro p
  have hfail : p.1 = .error (.error (.allocation (.outOfMemory 16 8))) := rfl
  refine ⟨hfail, ((failed_call_leaves crampedRows_reached (c := .allocate) hfail).2 rfl rfl).stuck
    (fun h => ?_) _ undisturbed_release⟩
  exact absurd (congrArg List.length h.1) (by decide)

/-- A call that fails may change the builder and take memory, and letting go of what was short need
not help. -/
theorem failed_call_changes_cramped :
    (¬∀ (b : TensorBuilder) (m : Machine) (c : BuilderCall) (err : Error), Reached b m →
      (c.on b m).1 = .error (.error err) →
      (c.on b m).2.1 = b ∧ (c.on b m).2.2.device.allocated = m.device.allocated) ∧
    ¬∀ (b : TensorBuilder) (m m' : Machine) (requested available : Nat), Reached b m →
      (b.allocate m).1 = .error (.error (.allocation (.outOfMemory requested available))) →
      Undisturbed b.cells (b.allocate m).2.2 m' → m'.device.Affords requested →
      ((b.allocate m).2.1.allocate m').1 = .ok () := by
  constructor
  · intro h
    have hsame := (h _ _ .allocate _ crampedRows_reached rfl).2
    exact absurd hsame (by decide)
  · intro h
    have hok := h _ _ _ 16 8 crampedRows_reached rfl (undisturbed_release (i := 0)) (by decide)
    cases hok

end TensorBuilder

end HeteroNet
