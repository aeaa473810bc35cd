import HeteroNet.Proofs.Machine.Holders
import HeteroNet.Proofs.Plan.Owned
import HeteroNet.Tenants

/-
What a builder of device tensors says of itself. `Counted` is what its statistics have to do with
its operands, its tensors and the memory these have. Every call that does not break off keeps it, and
the accounts of the device, whatever else the device has given away. A call that is refused memory
changes nothing.
-/

namespace HeteroNet

variable {limit : Option Nat} {rest : List CellId} {b b' : TensorBuilder} {m m' : Machine}
  {mem mem' : Memory} {t : Tensor}

namespace Memory

/-- The memory of cells that have some. -/
def bytesIn (mem : Memory) (is : List CellId) : Nat := (is.map fun i => bytesOf (mem.buffer i)).sum

/-- How many of the cells have a buffer. -/
def buffersIn (mem : Memory) (is : List CellId) : Nat := is.countP fun i => (mem.buffer i).isSome

theorem bytesIn_congr {is : List CellId} (h : ∀ i ∈ is, mem'.buffer i = mem.buffer i) :
    mem'.bytesIn is = mem.bytesIn is := by
  rw [bytesIn, List.map_congr_left fun i hi => congrArg bytesOf (h i hi), bytesIn]

theorem buffersIn_congr {is : List CellId} (h : ∀ i ∈ is, mem'.buffer i = mem.buffer i) :
    mem'.buffersIn is = mem.buffersIn is :=
  List.countP_congr fun i hi => by rw [h i hi]

theorem buffersIn_eq_sum (mem : Memory) (is : List CellId) :
    mem.buffersIn is = (is.map fun i => (mem.buffer i).isSome.toNat).sum := by
  induction is with
  | nil => rfl
  | cons i is ih =>
    rw [buffersIn, List.countP_cons, ← buffersIn, ih, List.map_cons, List.sum_cons]
    cases (mem.buffer i).isSome <;> simp [Nat.add_comm]

theorem bytesIn_bare {is : List CellId} (h : ∀ i ∈ is, mem.buffer i = none) :
    mem.bytesIn is = 0 := by
  rw [bytesIn, List.map_congr_left fun i hi => congrArg bytesOf (h i hi)]
  simp [bytesOf]

theorem buffersIn_bare {is : List CellId} (h : ∀ i ∈ is, mem.buffer i = none) :
    mem.buffersIn is = 0 :=
  List.countP_eq_zero.2 fun i hi => by simp [h i hi]

/-- One more cell has a buffer. -/
theorem bytesIn_filled {is : List CellId} (his : is.Nodup) {i : CellId} (hi : i ∈ is) {n : Nat}
    (hnone : mem.buffer i = none) (hsome : mem'.buffer i = some (Buffer.zeros n))
    (hother : ∀ j, j ≠ i → mem'.buffer j = mem.buffer j) :
    mem'.bytesIn is = mem.bytesIn is + 4 * n := by
  have h := sum_map_at his hi fun j _ hj => congrArg bytesOf (hother j hj)
  rw [hnone, hsome] at h
  simpa [bytesIn, bytesOf] using h

theorem buffersIn_filled {is : List CellId} (his : is.Nodup) {i : CellId} (hi : i ∈ is) {n : Nat}
    (hnone : mem.buffer i = none) (hsome : mem'.buffer i = some (Buffer.zeros n))
    (hother : ∀ j, j ≠ i → mem'.buffer j = mem.buffer j) :
    mem'.buffersIn is = mem.buffersIn is + 1 := by
  have h := sum_map_at his hi
    (f := fun j => (mem.buffer j).isSome.toNat) (g := fun j => (mem'.buffer j).isSome.toNat)
    fun j _ hj => by rw [hother j hj]
  rw [hnone, hsome] at h
  simpa [buffersIn_eq_sum] using h

end Memory

/-! ## The statistics of a builder -/

/-- The cells of its operands' tensors. -/
def TensorBuilder.operandCells (b : TensorBuilder) : List CellId := b.tensors.map (·.2.cell)

theorem TensorBuilder.cells_eq (b : TensorBuilder) :
    b.cells = b.operandCells ++ b.scratch.map Tensor.cell := by
  simp [cells, allTensors, operandCells, Function.comp_def]

theorem TensorBuilder.operandCells_subset (b : TensorBuilder) : b.operandCells ⊆ b.cells := by
  rw [b.cells_eq]
  exact List.subset_append_left _ _

theorem TensorBuilder.cells_unscratched (h : b.scratch = []) : b.cells = b.operandCells := by
  rw [b.cells_eq, h, List.map_nil, List.append_nil]

theorem TensorBuilder.cells_scratch (b : TensorBuilder) (t : Tensor) :
    TensorBuilder.cells { b with scratch := b.scratch ++ [t] } = b.cells ++ [t.cell] := by
  simp [cells_eq, operandCells]

/-- What the statistics of a builder of device tensors count. -/
structure Counted (b : TensorBuilder) (mem : Memory) : Prop where
  place : b.place = .device
  places : ∀ t ∈ b.allTensors, t.place = .device
  cells : b.cells.Nodup
  ascending : b.marked.Pairwise (· < ·)
  marked : b.stats.marked = b.marked.length
  bare : b.phase = .marking → b.tensors = []
  unscratched : b.phase ≠ .allocated → b.scratch = []
  keys : b.phase ≠ .marking → b.tensors.map Prod.fst = b.marked
  tensors : b.stats.tensors = mem.buffersIn b.operandCells
  scratch : b.stats.scratch = b.scratch.length
  bytes : b.stats.bytes = mem.bytesIn b.cells
  full : b.phase = .allocated → ∀ i ∈ b.cells, mem.buffer i ≠ none

theorem Counted.new (backend : BackendId) (mem : Memory) :
    Counted { backend, place := .device } mem where
  place := rfl
  places t ht := by cases ht
  cells := List.nodup_nil
  ascending := List.Pairwise.nil
  marked := rfl
  bare _ := rfl
  unscratched _ := rfl
  keys h := absurd rfl h
  tensors := rfl
  scratch := rfl
  bytes := rfl
  full h := by cases h

theorem Counted.operandCells (h : Counted b mem) : b.operandCells.Nodup := by
  have hcells := h.cells
  rw [b.cells_eq] at hcells
  exact (List.nodup_append.1 hcells).1

theorem Counted.congr (h : Counted b mem) (hsame : ∀ i ∈ b.cells, mem'.buffer i = mem.buffer i) :
    Counted b mem' where
  place := h.place
  places := h.places
  cells := h.cells
  ascending := h.ascending
  marked := h.marked
  bare := h.bare
  unscratched := h.unscratched
  keys := h.keys
  tensors := by
    rw [h.tensors, Memory.buffersIn_congr fun i hi => hsame i (b.operandCells_subset hi)]
  scratch := h.scratch
  bytes := by rw [h.bytes, Memory.bytesIn_congr hsame]
  full hphase i hi := by
    rw [hsame i hi]
    exact h.full hphase i hi

theorem Counted.mem_cells {e : OperandId × Tensor} (he : e ∈ b.tensors) : e.2.cell ∈ b.cells :=
  b.operandCells_subset (List.mem_map_of_mem he)

/-- In the end every operand has its tensor, and every tensor its memory. -/
theorem Counted.complete (h : Counted b mem) (hphase : b.phase = .allocated) :
    b.stats.tensors = b.stats.marked := by
  have hall : mem.buffersIn b.operandCells = b.operandCells.length := by
    refine List.countP_eq_length.2 fun i hi => ?_
    obtain ⟨e, he, rfl⟩ := List.mem_map.1 hi
    exact Option.isSome_iff_ne_none.2 (h.full hphase _ (mem_cells he))
  rw [h.tensors, hall, h.marked, ← h.keys (by simp [hphase]), TensorBuilder.operandCells,
    List.length_map, List.length_map]

/-- A builder was called that has `b.cells`, and others have `rest`. -/
structure Advanced (limit : Option Nat) (rest : List CellId) (b : TensorBuilder) (m : Machine)
    (b' : TensorBuilder) (m' : Machine) : Prop where
  accounted : Accounted limit (b'.cells ++ rest) m'
  counted : Counted b' m'.memory
  /-- New cells are behind the old ones, so that no other builder has them. -/
  new : ∀ i ∈ b'.cells, i ∈ b.cells ∨ m.memory.length ≤ i
  same : ∀ i < m.memory.length, i ∉ b.cells → m'.memory.buffer i = m.memory.buffer i

theorem Advanced.same_machine (h : Accounted limit (b.cells ++ rest) m) (hb : Counted b' m.memory)
    (hcells : b'.cells = b.cells) : Advanced limit rest b m b' m where
  accounted := hcells ▸ h
  counted := hb
  new _ hi := .inl (hcells ▸ hi)
  same _ _ _ := rfl

/-- How calls of the form `becomes` end. -/
theorem becomes_ends {t : Task TensorBuilder}
    {P : Except Failure Unit → TensorBuilder → Machine → Prop}
    (h : Ends (outcome t m) (P (.ok ())) fun e m' => P (.error e) b m') :
    P (b.becomes t m).1 (b.becomes t m).2.1 (b.becomes t m).2.2 := by
  unfold TensorBuilder.becomes
  rw [Task.on_eq]
  revert h
  obtain ⟨r, m'⟩ := outcome t m
  cases r <;> exact fun h => h

/-! ## Marking -/

theorem mark_advanced (h : Accounted limit (b.cells ++ rest) m) (hb : Counted b m.memory)
    (i : OperandId) : Advanced limit rest b m (b.becomes (b.mark i) m).2.1
      (b.becomes (b.mark i) m).2.2 := by
  refine becomes_ends (P := fun _ => Advanced limit rest b m) (Ends.check (fun b' hmark => ?_)
    fun e _ => .same_machine h hb rfl)
  unfold TensorBuilder.mark at hmark
  split at hmark
  · cases hmark
  · rename_i hphase
    have hphase := not_not.1 hphase
    cases hmark
    exact .same_machine h { hb with
      ascending := insertSorted_ascending hb.ascending, marked := rfl,
      keys := fun hne => absurd hphase hne } rfl

/-! ## Preparing -/

/-- New device tensors, each with a cell of its own that has no buffer, and nothing else. -/
structure Minted (limit : Option Nat) (rest : List CellId) (m : Machine) (ts : List Tensor)
    (m' : Machine) : Prop where
  accounted : Accounted limit (ts.map Tensor.cell ++ rest) m'
  places : ∀ t ∈ ts, t.place = .device
  cells : (ts.map Tensor.cell).Nodup
  length : m.memory.length ≤ m'.memory.length
  new : ∀ t ∈ ts, m.memory.length ≤ t.cell
  bare : ∀ t ∈ ts, m'.memory.buffer t.cell = none
  same : ∀ i < m.memory.length, m'.memory.buffer i = m.memory.buffer i

theorem Minted.nil (h : Accounted limit rest m) : Minted limit rest m [] m :=
  ⟨h, by simp, by simp, Nat.le_refl _, by simp, by simp, fun _ _ => rfl⟩

/-- One more. -/
theorem Minted.create {ts : List Tensor} (h : Minted limit rest m ts m') (backend : BackendId)
    (info : TensorInfo) : ∃ t, t.info = info ∧ outcome (Tensor.create .device backend info) m' =
      (.ok t, { m' with memory := m'.memory ++ [{ place := .device }] }) ∧
      Minted limit rest m (ts ++ [t]) { m' with memory := m'.memory ++ [{ place := .device }] } := by
  have hne : ∀ t ∈ ts, t.cell ≠ m'.memory.length := fun t ht =>
    Nat.ne_of_lt (h.accounted.bound _ (by simp [List.mem_map_of_mem ht]))
  have hsame : ∀ i, i ≠ m'.memory.length →
      Memory.buffer (m'.memory ++ [{ place := .device }]) i = m'.memory.buffer i := fun i hi =>
    congrArg Cell.buffer (Memory.cell_append_other hi)
  refine ⟨⟨info, .device, backend, m'.memory.length⟩, rfl, rfl, ?_, ?_, ?_, ?_, ?_, ?_, ?_⟩
  · refine h.accounted.newCell.perm ?_
    rw [List.map_append, List.append_assoc]
    exact List.perm_middle.symm
  · intro t ht
    rcases List.mem_append.1 ht with ht | ht
    · exact h.places t ht
    · rw [List.mem_singleton.1 ht]
  · rw [List.map_append, List.nodup_append]
    refine ⟨h.cells, List.nodup_singleton _, fun i hi j hj => ?_⟩
    obtain ⟨t, ht, rfl⟩ := List.mem_map.1 hi
    rw [List.map_singleton, List.mem_singleton] at hj
    exact hj ▸ hne t ht
  · exact Nat.le_trans h.length (by simp)
  · intro t ht
    rcases List.mem_append.1 ht with ht | ht
    · exact h.new t ht
    · rw [List.mem_singleton.1 ht]
      exact h.length
  · intro t ht
    rcases List.mem_append.1 ht with ht | ht
    · exact (hsame _ (hne t ht)).trans (h.bare t ht)
    · rw [List.mem_singleton.1 ht, Memory.buffer, Memory.cell_append_new]
      rfl
  · exact fun i hi => (hsame i (Nat.ne_of_lt (Nat.lt_of_lt_of_le hi h.length))).trans (h.same i hi)

theorem createTensors_minted (h : Accounted limit rest m) (hplace : b.place = .device)
    (wanted : List (OperandId × TensorInfo)) : Ends (outcome (b.createTensors wanted) m)
      (fun es m' => es.map Prod.fst = wanted.map Prod.fst ∧
        Minted limit rest m (es.map Prod.snd) m') (fun _ _ => False) := by
  refine Ends.mapM (fun done es m' => es.map Prod.fst = done.map Prod.fst ∧
    Minted limit rest m (es.map Prod.snd) m') (fun done es w rest' m₁ _ hI => ?_) ⟨rfl, .nil h⟩
  obtain ⟨hkeys, hminted⟩ := hI
  obtain ⟨t, -, hcreate, hminted⟩ := hminted.create b.backend w.2
  change Ends (outcome (do return (w.1, ← Tensor.create b.place b.backend w.2)) m₁) _ _
  rw [hplace, outcome_bind_of_ok hcreate]
  exact ⟨by simp [hkeys], by simpa using hminted⟩

/-- What a builder that only marked says of itself when it has its tensors. -/
theorem Counted.prepared (hb : Counted b m.memory) (hphase : b.phase = .marking)
    {es : SortedMap OperandId Tensor} (hkeys : es.map Prod.fst = b.marked)
    (hminted : Minted limit rest m (es.map Prod.snd) m') :
    Counted { b with tensors := es, phase := .prepared, stats :=
      { b.stats with prepareCalls := b.stats.prepareCalls + 1 } } m'.memory := by
  have hscratch : b.scratch = [] := hb.unscratched (by simp [hphase])
  have hbefore : b.operandCells = [] := by
    rw [TensorBuilder.operandCells, hb.bare hphase]
    rfl
  have hes : es.map (·.2.cell) = (es.map Prod.snd).map Tensor.cell := by simp
  have hbare : ∀ i ∈ es.map (·.2.cell), m'.memory.buffer i = none := by
    rw [hes]
    exact List.forall_mem_map.2 hminted.bare
  have hcells : TensorBuilder.cells { b with tensors := es } = es.map (·.2.cell) :=
    TensorBuilder.cells_unscratched (b := { b with tensors := es }) hscratch
  refine {
    place := hb.place, places := fun t ht => hminted.places t ?_,
    cells := (congrArg List.Nodup (hcells.trans hes)).mpr hminted.cells,
    ascending := hb.ascending, marked := hb.marked, bare := nofun, unscratched := fun _ => hscratch,
    keys := fun _ => hkeys, tensors := ?_, scratch := hb.scratch, bytes := ?_, full := nofun }
  · simpa [TensorBuilder.allTensors, hscratch] using ht
  · have hnone : b.stats.tensors = 0 := by
      rw [hb.tensors, hbefore]
      rfl
    exact hnone.trans (Memory.buffersIn_bare hbare).symm
  · have hnone : b.stats.bytes = 0 := by
      rw [hb.bytes, TensorBuilder.cells_unscratched hscratch, hbefore]
      rfl
    exact hnone.trans ((congrArg m'.memory.bytesIn hcells).trans (Memory.bytesIn_bare hbare)).symm

theorem prepare_advanced (h : Accounted limit (b.cells ++ rest) m) (hb : Counted b m.memory)
    (constraints : ShapeConstraints) : Advanced limit rest b m
      (b.becomes (b.prepare constraints) m).2.1 (b.becomes (b.prepare constraints) m).2.2 := by
  refine becomes_ends (P := fun _ => Advanced limit rest b m) ?_
  have hkept := Advanced.same_machine h hb rfl
  unfold TensorBuilder.prepare
  by_cases hphase : b.phase = .marking
  · rw [if_neg (not_not.2 hphase)]
    -- It has no cells yet.
    have hscratch : b.scratch = [] := hb.unscratched (by simp [hphase])
    have hnone : b.cells = [] := by
      rw [TensorBuilder.cells_unscratched hscratch, TensorBuilder.operandCells, hb.bare hphase]
      rfl
    rw [hnone, List.nil_append] at h
    refine Ends.bind (Ends.check (fun wanted hwanted => ?_) fun _ _ => hkept)
    refine Ends.bind ((createTensors_minted h hb.place wanted).mono (fun es m' hes => ?_)
      fun _ _ => False.elim)
    obtain ⟨hkeys, hminted⟩ := hes
    have hcells : TensorBuilder.cells { b with tensors := es }
        = (es.map Prod.snd).map Tensor.cell := by
      simp [TensorBuilder.cells, TensorBuilder.allTensors, hscratch]
    refine ⟨?_, hb.prepared hphase (hkeys.trans (wanted_keys hwanted)) hminted, fun i hi => .inr ?_,
      fun i hi _ => hminted.same i hi⟩
    · change Accounted limit (TensorBuilder.cells { b with tensors := es } ++ rest) m'
      rw [hcells]
      exact hminted.accounted
    · change i ∈ TensorBuilder.cells { b with tensors := es } at hi
      rw [hcells] at hi
      obtain ⟨t, ht, rfl⟩ := List.mem_map.1 hi
      exact hminted.new t ht
  · rw [if_pos hphase]
    exact hkept

/-! ## Allocating -/

/-- One more operand tensor has memory. -/
theorem Counted.countTensor (hb : Counted b mem) (hphase : b.phase = .prepared)
    (ht : t ∈ b.tensors.map (·.2)) {n : Nat} (hnone : mem.buffer t.cell = none)
    (hsome : mem'.buffer t.cell = some (Buffer.zeros n))
    (hother : ∀ j, j ≠ t.cell → mem'.buffer j = mem.buffer j) :
    Counted (b.countTensor (4 * n)) mem' := by
  have hoperand : t.cell ∈ b.operandCells := by
    obtain ⟨e, he, rfl⟩ := List.mem_map.1 ht
    exact List.mem_map_of_mem he
  have hcell : t.cell ∈ b.cells := b.operandCells_subset hoperand
  refine { hb with tensors := ?_, bytes := ?_, full := fun hp => ?_ }
  · exact (congrArg (· + 1) hb.tensors).trans
      (Memory.buffersIn_filled hb.operandCells hoperand hnone hsome hother).symm
  · exact (congrArg (· + 4 * n) hb.bytes).trans
      (Memory.bytesIn_filled hb.cells hcell hnone hsome hother).symm
  · exact absurd (hphase.symm.trans hp) (by simp)

/-- What giving memory to tensors of a prepared builder leaves, up to the first that gets none. -/
structure Reserved (limit : Option Nat) (rest : List CellId) (b : TensorBuilder) (m : Machine)
    (ts : List Tensor) (answer : Except Failure Unit) (b' : TensorBuilder) (m' : Machine) :
    Prop where
  frame : b' = { b with stats := b'.stats }
  accounted : Accounted limit (b.cells ++ rest) m'
  counted : Counted b' m'.memory
  same : ∀ i, i ∉ b.cells → m'.memory.buffer i = m.memory.buffer i
  kept : ∀ i, m.memory.buffer i ≠ none → m'.memory.buffer i = m.memory.buffer i
  filled : answer = .ok () → ∀ t ∈ ts, m'.memory.buffer t.cell ≠ none

/-- By induction on the tensors, each of which either gets memory, or stops the call. -/
theorem reserveAll_reserved : ∀ (ts : List Tensor) {b : TensorBuilder} {m : Machine},
    Accounted limit (b.cells ++ rest) m → Counted b m.memory → b.phase = .prepared →
    (∀ t ∈ ts, t ∈ b.tensors.map (·.2)) → (TensorBuilder.reserveAll ts b m).1 ≠ .error .oversized →
    Reserved limit rest b m ts (TensorBuilder.reserveAll ts b m).1
      (TensorBuilder.reserveAll ts b m).2.1 (TensorBuilder.reserveAll ts b m).2.2
  | [], b, m, h, hb, _, _, _ => ⟨rfl, h, hb, fun _ _ => rfl, fun _ _ => rfl, by simp⟩
  | t :: ts, b, m, h, hb, hphase, hts, hends => by
    have ht : t ∈ b.tensors.map (·.2) := hts t (by simp)
    have hall : t ∈ b.allTensors := List.mem_append_left _ ht
    have hcell : t.cell ∈ b.cells := List.mem_map_of_mem hall
    have hone := h.allocate_tensor (hb.places t hall) (List.mem_append_left _ hcell)
    unfold TensorBuilder.reserveAll at hends ⊢
    rw [Task.on_eq] at hends ⊢
    revert hone hends
    obtain ⟨r, m₁⟩ := outcome t.allocate m
    cases r with
    | error e =>
      rintro (rfl | ⟨rfl, -⟩) hends
      · exact absurd rfl hends
      · exact ⟨rfl, h, hb, fun _ _ => rfl, fun _ _ => rfl, fun hok => by cases hok⟩
    | ok bytes =>
      rintro ⟨rfl, h₁, hnone, hsome, hother⟩ hends
      have hb₁ := hb.countTensor hphase ht hnone hsome hother
      have hrest := reserveAll_reserved ts (b := b.countTensor (4 * t.info.elements)) h₁ hb₁ hphase
        (fun u hu => hts u (List.mem_cons_of_mem _ hu)) hends
      have hkept : ∀ i, m.memory.buffer i ≠ none → m₁.memory.buffer i = m.memory.buffer i :=
        fun i hi => hother i fun he => hi (he ▸ hnone)
      refine ⟨hrest.frame, hrest.accounted, hrest.counted, fun i hi => ?_, fun i hi => ?_,
        fun hok u hu => ?_⟩
      · exact (hrest.same i hi).trans (hother i fun he => hi (he ▸ hcell))
      · exact (hrest.kept i (hkept i hi ▸ hi)).trans (hkept i hi)
      · rcases List.mem_cons.1 hu with rfl | hu
        · rw [hrest.kept u.cell (by simp [hsome]), hsome]
          simp
        · exact hrest.filled hok u hu

/-- When the tensors all have memory, that is all there is to allocate. -/
theorem Counted.allocated (hb : Counted b mem) (hphase : b.phase = .prepared)
    (hfull : ∀ t ∈ b.tensors.map (·.2), mem.buffer t.cell ≠ none) :
    Counted { b with phase := .allocated } mem := by
  have hscratch : b.scratch = [] := hb.unscratched (by simp [hphase])
  refine { hb with
    bare := nofun, unscratched := fun h => absurd rfl h,
    keys := fun _ => hb.keys (by simp [hphase]), full := fun _ i hi => ?_ }
  change i ∈ b.cells at hi
  rw [TensorBuilder.cells_unscratched hscratch] at hi
  obtain ⟨e, he, rfl⟩ := List.mem_map.1 hi
  exact hfull e.2 (List.mem_map_of_mem he)

theorem allocate_advanced (h : Accounted limit (b.cells ++ rest) m) (hb : Counted b m.memory)
    (hends : (b.allocate m).1 ≠ .error .oversized) :
    Advanced limit rest b m (b.allocate m).2.1 (b.allocate m).2.2 := by
  have hkept := Advanced.same_machine h hb rfl
  revert hends
  unfold TensorBuilder.allocate
  split
  · exact fun _ => hkept
  · exact fun _ => hkept
  · rename_i hphase
    have hreserved := reserveAll_reserved (b.tensors.map (·.2)) (b := { b with stats :=
      { b.stats with allocateCalls := b.stats.allocateCalls + 1 } }) h { hb with } hphase
      fun t ht => ht
    dsimp only
    revert hreserved
    generalize TensorBuilder.reserveAll (b.tensors.map (·.2)) { b with stats :=
      { b.stats with allocateCalls := b.stats.allocateCalls + 1 } } m = r
    obtain ⟨answer, b₁, m₁⟩ := r
    intro hreserved hends
    have hbroken : answer ≠ .error .oversized := fun he => hends (by rw [he])
    obtain ⟨hframe, haccounted, hcounted, hsame, -, hfilled⟩ := hreserved hbroken
    dsimp only at hframe haccounted hcounted hsame hfilled
    have hcells : b₁.cells = b.cells := (congrArg TensorBuilder.cells hframe).trans rfl
    have hadvanced : Advanced limit rest b m b₁ m₁ :=
      ⟨hcells ▸ haccounted, hcounted, fun i hi => .inl (hcells ▸ hi), fun i _ hi => hsame i hi⟩
    cases answer with
    | error e => exact hadvanced
    | ok u =>
      have hphase₁ : b₁.phase = .prepared := (congrArg TensorBuilder.phase hframe).trans hphase
      have htensors : b₁.tensors = b.tensors := (congrArg TensorBuilder.tensors hframe).trans rfl
      exact { hadvanced with
        counted := hcounted.allocated hphase₁ (htensors ▸ hfilled rfl) }

theorem allocate_ok (h : (b.allocate m).1 = .ok ()) : (b.allocate m).2.1.phase = .allocated := by
  revert h
  unfold TensorBuilder.allocate
  split
  · exact nofun
  · exact nofun
  · dsimp only
    split
    · exact fun _ => rfl
    · exact nofun

/-! ## Scratch -/

/-- What a builder says of itself when it has one tensor more that stands for no operand. -/
theorem Counted.scratched (hb : Counted b mem) (hphase : b.phase = .allocated)
    (hplace : t.place = .device) (hnew : t.cell ∉ b.cells) {n : Nat}
    (hsome : mem'.buffer t.cell = some (Buffer.zeros n))
    (hother : ∀ i ∈ b.cells, mem'.buffer i = mem.buffer i) :
    Counted { b with scratch := b.scratch ++ [t], stats := { b.stats with
      bytes := b.stats.bytes + 4 * n, scratch := b.stats.scratch + 1 } } mem' := by
  have hb' := hb.congr hother
  have hcells := b.cells_scratch t
  have hbytes : mem'.bytesIn (b.cells ++ [t.cell]) = mem'.bytesIn b.cells + 4 * n := by
    simp [Memory.bytesIn, hsome, bytesOf]
  refine { hb' with
    places := fun u hu => ?_, cells := ?_, unscratched := fun h => absurd hphase h,
    scratch := ?_, bytes := ?_, full := fun _ i hi => ?_ }
  · rcases List.mem_append.1 (List.append_assoc _ _ _ ▸ hu : u ∈ b.allTensors ++ [t]) with hu | hu
    · exact hb.places u hu
    · exact List.mem_singleton.1 hu ▸ hplace
  · refine (congrArg List.Nodup hcells).mpr
      (List.nodup_append.2 ⟨hb.cells, List.nodup_singleton _, ?_⟩)
    rintro i hi _ hj rfl
    exact hnew (List.mem_singleton.1 hj ▸ hi)
  · simp [hb.scratch]
  · have hold : mem'.bytesIn b.cells = b.stats.bytes := hb'.bytes.symm
    refine Eq.trans ?_ (congrArg mem'.bytesIn hcells).symm
    rw [hbytes, hold]
  · rcases List.mem_append.1 (hcells ▸ hi : i ∈ b.cells ++ [t.cell]) with hi | hi
    · exact hb'.full hphase i hi
    · rw [List.mem_singleton.1 hi, hsome]
      simp

theorem addScratch_advanced (h : Accounted limit (b.cells ++ rest) m) (hb : Counted b m.memory)
    (info : TensorInfo) : Ends (outcome (b.addScratch info) m)
      (fun r m' => Advanced limit rest b m r.1 m')
      (fun e m' => e = .oversized ∨ Advanced limit rest b m b m') := by
  have hkept := Advanced.same_machine h hb rfl
  unfold TensorBuilder.addScratch
  by_cases hphase : b.phase = .allocated
  · rw [if_neg (not_not.2 hphase)]
    obtain ⟨t, rfl, hcreate, hminted⟩ := (Minted.nil h).create b.backend info
    rw [outcome_bind_of_ok (by rw [hb.place]; exact hcreate)]
    generalize ({ m with memory := m.memory ++ [{ place := .device }] } : Machine) = m₁ at hminted ⊢
    have hplace : t.place = .device := hminted.places t (by simp)
    have hnew : m.memory.length ≤ t.cell := hminted.new t (by simp)
    have hne : ∀ i < m.memory.length, i ≠ t.cell := fun i hi =>
      Nat.ne_of_lt (Nat.lt_of_lt_of_le hi hnew)
    have howned : t.cell ∉ b.cells ++ rest := fun hi => Nat.not_le.2 (h.bound _ hi) hnew
    have hold : ∀ i ∈ b.cells, i < m.memory.length := fun i hi => h.bound i (by simp [hi])
    refine Ends.bind ((hminted.accounted.allocate_tensor hplace (by simp)).mono ?_ ?_)
    · rintro _ m₂ ⟨rfl, haccounted, -, hsome, hother⟩
      have hsame : ∀ i < m.memory.length, m₂.memory.buffer i = m.memory.buffer i := fun i hi =>
        (hother i (hne i hi)).trans (hminted.same i hi)
      have hcells := b.cells_scratch t
      refine ⟨?_, hb.scratched hphase hplace (fun hi => howned (List.mem_append_left _ hi)) hsome
        fun i hi => hsame i (hold i hi), fun i hi => ?_, fun i hi _ => hsame i hi⟩
      · refine haccounted.perm (List.Perm.trans ?_ (.of_eq (congrArg (· ++ rest) hcells).symm))
        rw [List.append_assoc]
        change (t.cell :: (b.cells ++ rest)).Perm (b.cells ++ t.cell :: rest)
        exact List.perm_middle.symm
      · rcases List.mem_append.1 (hcells ▸ hi : i ∈ b.cells ++ [t.cell]) with hi | hi
        · exact .inl hi
        · exact .inr (List.mem_singleton.1 hi ▸ hnew)
    · rintro e _ (he | ⟨rfl, -⟩)
      · exact .inl he
      -- Nobody holds the tensor that got no memory.
      exact .inr ⟨hminted.accounted.forget howned (hminted.bare t (by simp)),
        hb.congr fun i hi => hminted.same i (hold i hi), fun i hi => .inl hi,
        fun i hi _ => hminted.same i hi⟩
  · rw [if_pos hphase]
    exact .inr hkept

theorem scratch_advanced (h : Accounted limit (b.cells ++ rest) m) (hb : Counted b m.memory)
    (info : TensorInfo)
    (hends : (b.becomes (do return (← b.addScratch info).1) m).1 ≠ .error .oversized) :
    Advanced limit rest b m (b.becomes (do return (← b.addScratch info).1) m).2.1
      (b.becomes (do return (← b.addScratch info).1) m).2.2 :=
  becomes_ends (P := fun answer b' m' => answer ≠ .error .oversized → Advanced limit rest b m b' m')
    (Ends.bind ((addScratch_advanced h hb info).mono (fun _ _ hr _ => hr) fun _ _ he hne =>
      he.resolve_left fun he => hne (congrArg _ he))) hends

/-- **Every call on a builder keeps its statistics and the accounts of the device**, unless it breaks
off. -/
theorem BuilderCall.on_advanced (h : Accounted limit (b.cells ++ rest) m) (hb : Counted b m.memory)
    {c : BuilderCall} (hends : (c.on b m).1 ≠ .error .oversized) :
    Advanced limit rest b m (c.on b m).2.1 (c.on b m).2.2 := by
  cases c with
  | mark i => exact mark_advanced h hb i
  | prepare constraints => exact prepare_advanced h hb constraints
  | allocate => exact allocate_advanced h hb hends
  | scratch info => exact scratch_advanced h hb info hends

/-! ## Refusals -/

/-- What a call leaves that asked for more memory than there was. Of a scratch tensor it leaves an
empty cell that nobody holds. When tensors get memory one after another, those before the one that
got none keep theirs, and the refusal itself changes nothing. -/
inductive BuilderCall.Refused (b : TensorBuilder) (m : Machine) :
    BuilderCall → Nat → TensorBuilder → Machine → Prop
  | scratch (info : TensorInfo) :
    Refused b m (.scratch info) (Machine.wordBytes info.elements).toNat b
      { m with memory := m.memory ++ [{ place := .device }] }
  | allocate {done rest : List Tensor} {t : Tensor} {b' : TensorBuilder} {m' : Machine}
      {e : Failure} : b.tensors.map (·.2) = done ++ t :: rest →
      TensorBuilder.reserveAll done { b with stats :=
        { b.stats with allocateCalls := b.stats.allocateCalls + 1 } } m = (.ok (), b', m') →
      t.allocate.on m' = (.error e, m') →
      Refused b m .allocate (Machine.wordBytes t.info.elements).toNat b' m'

theorem Refusal.reports {owners : List CellId} {bytes : UInt64} {requested available : Nat}
    (h : Accounted limit owners m) (hcounts : m.memory.charged < Size.modulus)
    (hr : Refusal limit m bytes (.error (.allocation (.outOfMemory requested available)))) :
    requested = bytes.toNat ∧ ∃ l, limit = some l ∧ available = l - m.device.allocated.toNat ∧
      available < requested := by
  obtain ⟨l, hl, hlt, he⟩ := hr
  have hwithin := h.within hcounts l hl
  rw [← h.allocated_toNat hcounts] at hwithin
  have hsum : (m.device.allocated + bytes).toNat ≤ m.device.allocated.toNat + bytes.toNat := by
    rw [UInt64.toNat_add]
    exact Nat.mod_le _ _
  cases he
  exact ⟨rfl, l, hl, rfl, by omega⟩

variable {requested available : Nat}

theorem becomes_error {t : Task TensorBuilder} {e : Failure} (h : (b.becomes t m).1 = .error e) :
    ∃ m', outcome t m = (.error e, m') ∧ b.becomes t m = (.error e, b, m') := by
  revert h
  unfold TensorBuilder.becomes
  rw [Task.on_eq]
  obtain ⟨r, m'⟩ := outcome t m
  cases r with
  | error e' =>
    rintro ⟨⟩
    exact ⟨m', rfl, rfl⟩
  | ok b' => exact nofun

/-- The failure is another one than that memory is short. -/
def Failure.Unrefused (e : Failure) : Prop :=
  ∀ requested available, e ≠ .error (.allocation (.outOfMemory requested available))

theorem fails_mark (i : OperandId) : Fails Failure.Unrefused (b.mark i) := by
  unfold TensorBuilder.mark
  rw [fails_ite]
  exact ⟨fun _ => fails_error.2 nofun, fun _ => fails_ok _⟩

theorem fails_wanted (constraints : ShapeConstraints) :
    Fails Failure.Unrefused (b.wanted constraints) := by
  refine fails_mapM (fun i => ?_) _
  split
  · exact fails_ok _
  · exact fails_error.2 nofun

/-- Making tensors does not take memory. -/
theorem prepare_unrefused (h : Accounted limit (b.cells ++ rest) m) (hb : Counted b m.memory)
    (constraints : ShapeConstraints) : Ends (outcome (b.prepare constraints) m) (fun _ _ => True)
      (fun e _ => e.Unrefused) := by
  unfold TensorBuilder.prepare
  by_cases hphase : b.phase ≠ .marking
  · rw [if_pos hphase]
    exact nofun
  · rw [if_neg hphase]
    refine Ends.bind (Ends.check (fun wanted _ => ?_) fun e he => fails_wanted constraints e he)
    exact Ends.bind ((createTensors_minted h hb.place wanted).mono (fun _ _ _ => trivial)
      fun _ _ => False.elim)

theorem addScratch_refused (h : Accounted limit (b.cells ++ rest) m) (hb : Counted b m.memory)
    (info : TensorInfo) : Ends (outcome (b.addScratch info) m) (fun _ _ => True) (fun e m' =>
      e.Unrefused ∨ (m' = { m with memory := m.memory ++ [{ place := .device }] } ∧
        Refusal limit m' (Machine.wordBytes info.elements) e)) := by
  unfold TensorBuilder.addScratch
  by_cases hphase : b.phase ≠ .allocated
  · rw [if_pos hphase]
    exact .inl nofun
  · rw [if_neg hphase]
    obtain ⟨t, rfl, hcreate, hminted⟩ := (Minted.nil h).create b.backend info
    rw [outcome_bind_of_ok (by rw [hb.place]; exact hcreate)]
    refine Ends.bind ((hminted.accounted.allocate_tensor (hminted.places t (by simp)) (by simp)).mono
      (fun _ _ _ => trivial) ?_)
    rintro e _ (rfl | ⟨rfl, rfl | hrefusal⟩)
    · exact .inl nofun
    · exact .inl nofun
    · exact .inr ⟨rfl, hrefusal⟩

theorem allocate_error_keeps (t : Tensor) (m : Machine) :
    Ends (outcome t.allocate m) (fun _ _ => True) (fun e m' => e ≠ .oversized → m' = m) :=
  t.allocate_ends (fun _ _ _ => rfl) fun _ => Machine.reserve_ends (fun _ _ _ => trivial)
    (fun _ _ _ _ => rfl) fun _ _ _ he => absurd rfl he

/-- Where giving memory to tensors one after another stops. -/
theorem reserveAll_error {e : Failure} (hends : e ≠ .oversized) :
    ∀ {ts : List Tensor} {b b' : TensorBuilder} {m m' : Machine},
    TensorBuilder.reserveAll ts b m = (.error e, b', m') → ∃ done t behind, ts = done ++ t :: behind ∧
      TensorBuilder.reserveAll done b m = (.ok (), b', m') ∧ t.allocate.on m' = (.error e, m')
  | [], _, _, _, _, h => by cases h
  | t :: ts, b, b', m, m', h => by
    have hkeeps := allocate_error_keeps t m
    unfold TensorBuilder.reserveAll at h
    rw [← Task.on_eq] at hkeeps
    rcases hrun : t.allocate.on m with ⟨r, m₁⟩
    rw [hrun] at h hkeeps
    cases r with
    | error e' =>
      cases h
      obtain rfl : m' = m := hkeeps hends
      exact ⟨[], t, ts, rfl, rfl, hrun⟩
    | ok bytes =>
      obtain ⟨done, u, behind, rfl, hdone, hu⟩ := reserveAll_error hends h
      refine ⟨t :: done, u, behind, rfl, ?_, hu⟩
      rw [TensorBuilder.reserveAll, hrun]
      exact hdone

theorem allocate_refused (h : Accounted limit (b.cells ++ rest) m) (hb : Counted b m.memory)
    (hcounts : m'.memory.charged < Size.modulus) (hcall : b.allocate m =
      (.error (.error (.allocation (.outOfMemory requested available))), b', m')) :
    BuilderCall.allocate.Refused b m requested b' m' ∧ ∃ l, limit = some l ∧
      available = l - m'.device.allocated.toNat ∧ available < requested := by
  unfold TensorBuilder.allocate at hcall
  split at hcall
  · cases hcall
  · cases hcall
  · rename_i hphase
    dsimp only at hcall
    split at hcall
    · cases hcall
    · rename_i e b₁ m₁ hreserve
      cases hcall
      obtain ⟨done, t, behind, htensors, hdone, ht⟩ :=
        reserveAll_error (Failure.error_ne_oversized _) hreserve
      -- The tensors before this one have got their memory.
      have hreserved := reserveAll_reserved done (b := { b with stats :=
        { b.stats with allocateCalls := b.stats.allocateCalls + 1 } }) h { hb with } hphase
        (fun u hu => by simp [htensors, hu]) (by rw [hdone]; exact nofun)
      rw [hdone] at hreserved
      have hall : t ∈ b.allTensors := List.mem_append_left _ (by simp [htensors])
      have hends := hreserved.accounted.allocate_tensor (hb.places t hall)
        (List.mem_append_left _ (List.mem_map_of_mem hall))
      rw [← Task.on_eq, ht] at hends
      obtain hother | ⟨-, hother | hrefusal⟩ := hends
      · cases hother
      · cases hother
      · obtain ⟨rfl, hreports⟩ := hrefusal.reports hreserved.accounted hcounts
        exact ⟨.allocate htensors hdone ht, hreports⟩

/-- **Who is refused memory hears how much there is, and nothing else happens.** -/
theorem BuilderCall.on_refused (h : Accounted limit (b.cells ++ rest) m) (hb : Counted b m.memory)
    {c : BuilderCall} {answer : Except Failure Unit} (hcall : c.on b m = (answer, b', m'))
    (hanswer : answer = .error (.error (.allocation (.outOfMemory requested available))))
    (hcounts : m'.memory.charged < Size.modulus) :
    c.Refused b m requested b' m' ∧ ∃ l, limit = some l ∧
      available = l - m'.device.allocated.toNat ∧ available < requested := by
  subst hanswer
  have haccounted : Accounted limit (b'.cells ++ rest) m' := by
    have hadvanced := (c.on_advanced h hb (by rw [hcall]; exact nofun)).accounted
    rwa [hcall] at hadvanced
  cases c with
  | mark i =>
    obtain ⟨m₁, herror, -⟩ := becomes_error (congrArg Prod.fst hcall)
    exact absurd rfl (fails_mark i _ (congrArg Prod.fst herror) requested available)
  | prepare constraints =>
    obtain ⟨m₁, herror, -⟩ := becomes_error (congrArg Prod.fst hcall)
    have hends := prepare_unrefused h hb constraints
    rw [herror] at hends
    exact absurd rfl (hends requested available)
  | scratch info =>
    obtain ⟨m₁, herror, hbecomes⟩ := becomes_error (congrArg Prod.fst hcall)
    cases hcall.symm.trans hbecomes
    have hends : Ends (outcome (do return (← b.addScratch info).1) m) (fun _ _ => True) _ :=
      Ends.bind ((addScratch_refused h hb info).mono (fun _ _ _ => trivial) fun _ _ he => he)
    rw [herror] at hends
    obtain hother | ⟨rfl, hrefusal⟩ := hends
    · exact absurd rfl (hother requested available)
    · obtain ⟨rfl, hreports⟩ := hrefusal.reports haccounted hcounts
      exact ⟨.scratch info, hreports⟩
  | allocate => exact allocate_refused h hb hcounts hcall

end HeteroNet
