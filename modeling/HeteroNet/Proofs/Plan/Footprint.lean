import HeteroNet.Proofs.Plan.Owners
import HeteroNet.Proofs.Plan.Tallied

/-
The footprint of a plan: what each of its builders has made and counted, in terms of the lowered
model (`Footprint`), and what the device has given away for it.
-/

namespace HeteroNet

open Model

/-! ## Scratch tensors -/

/-- The shape of the input of a fully connected layer, if it has rank 4. -/
def Operation.flattened (op : Operation) (os : Operands) : Option Shape :=
  if op.kind = .fullyConnected then
    (op.inputs.head?.bind fun i => (os[i]?).map (·.shape)).filter (·.rank = 4)
  else none

section

variable {os : Operands} {op : Operation} {stage : Stage} {place : Place} {id id' : BackendId}

theorem Operation.flattened_of_kind (h : op.kind ≠ .fullyConnected) : op.flattened os = none :=
  if_neg h

theorem Operation.flattened_eq (h : op.kind = .fullyConnected) {x : OperandId} {s : Shape}
    (hx : op.input 0 = .ok x) (hs : HasShape os x s) :
    op.flattened os = if s.rank = 4 then some s else none := by
  obtain ⟨o, ho, rfl⟩ := hs
  rw [flattened, if_pos h, List.head?_eq_getElem?, Operation.input_eq_ok.1 hx, Option.bind_some, ho]
  by_cases hr : o.shape.rank = 4 <;> simp [Option.filter, hr]

theorem ofKernel_scratchOn {kernel : Activation → Kernel} {act : Activation}
    (h : Stage.ofKernel place id op kernel act = .ok stage) : stage.scratchOn id' = [] := by
  obtain ⟨o, -, h⟩ := bind_eq_ok.1 h
  cases place <;> cases h
  · rfl
  · cases op.inputs <;> rfl

/-- What a stage asks of the device is what its operation has to flatten there. -/
theorem generate_scratchOn (h : Stage.generate place id op os = .ok stage) :
    (stage.scratchOn id').map (·.elements) = if place = .device ∧ id = id' then
      ((op.flattened os).map Shape.elements).toList else [] := by
  cases generate_generated h with
  | kernel hhost h =>
    rw [ofKernel_scratchOn h]
    by_cases hk : op.kind = .fullyConnected
    · simp [hhost hk]
    · simp [Operation.flattened_of_kind hk]
  | @dense dense x s type kernel act o hk hplace hx hs helements ho =>
    obtain ⟨is, his⟩ : ∃ is, op.inputs = x :: is := by
      rw [← List.head?_eq_some_iff, List.head?_eq_getElem?]
      exact Operation.input_eq_ok.1 hx
    rw [Operation.flattened_eq hk hx hs, his]
    by_cases hr : s.rank = 4 <;> by_cases hid : id = id' <;>
      simp [Stage.scratchOn, hr, hid, hplace, TensorInfo.elements, Shape.elements, helements]
  | permute ha ho =>
    have hk : op.kind ≠ .fullyConnected := by simp [Operation.kind, ha, Attributes.kind]
    simp [Operation.flattened_of_kind hk, Stage.scratchOn]

theorem Staged.scratchOn {q : Operation × Placement} (h : Staged os q stage) (id : BackendId) :
    (stage.scratchOn id).map (·.elements) = if placeOf id = .device then
      ((if q.2.backend = id then q.1.flattened os else none).map Shape.elements).toList
    else [] := by
  cases h with
  | @host op p _ _ _ _ _ _ _ hp hk hplace =>
    rw [generate_scratchOn (hp.host p.backend)]
    by_cases hid : p.backend = id
    · simp [← hid, hplace]
    · simp [hid]
  | @device op p _ _ _ _ _ _ _ hp hk hplace =>
    rw [generate_scratchOn (hp.device p.backend)]
    by_cases hid : p.backend = id
    · simp [← hid, hplace]
    · simp [hid]
  | @permute op _ _ _ _ _ _ ha =>
    have hk : op.kind ≠ .fullyConnected := by simp [Operation.kind, ha, Attributes.kind]
    rw [Operation.flattened_of_kind hk]
    simp [Stage.scratchOn]

end

/-! ## What a lowered model needs -/

namespace Model

variable {m : Model} {id : BackendId} {i : OperandId}

/-- The operands that operations read or write on a backend, each once. A `permute` reads on the
backend that it copies from. -/
def dataOn (m : Model) (id : BackendId) : List OperandId :=
  ((sites (m.operations.zip m.placements)).filterMap fun s =>
    if s.1 = id then some s.2 else none).dedup

/-- The inputs of rank 4 of the fully connected layers on a backend. -/
def flattenedOn (m : Model) (id : BackendId) : List Shape :=
  (m.operations.zip m.placements).filterMap fun q =>
    if q.2.backend = id then q.1.flattened m.operands else none

/-- The inputs that a backend flattens, which only the device does. -/
def scratchOn (m : Model) (id : BackendId) : List Shape :=
  if id = Backend.device.id then m.flattenedOn id else []

/-- The number of elements of an operand. -/
def elementsOf (m : Model) (i : OperandId) : Nat :=
  ((m.operands[i]?).map (·.shape.elements)).getD 0

theorem nodup_dataOn (m : Model) (id : BackendId) : (m.dataOn id).Nodup := List.nodup_dedup _

theorem mem_dataOn : i ∈ m.dataOn id ↔ (id, i) ∈ sites (m.operations.zip m.placements) := by
  rw [dataOn, List.mem_dedup, List.mem_filterMap]
  constructor
  · rintro ⟨⟨id', j⟩, hs, he⟩
    split at he
    · rename_i hid
      cases he
      rwa [← hid]
    · cases he
  · intro hs
    exact ⟨_, hs, if_pos rfl⟩

end Model

/-- What a builder of a plan has made and counted: one tensor for each operand that the operations
of the lowered model read or write on its backend, and one scratch tensor for each input that is
flattened there. -/
structure Footprint (m : Model) (b : TensorBuilder) : Prop where
  prepares : b.stats.prepareCalls = 1
  allocates : b.stats.allocateCalls = 1
  operands : (b.tensors.map Prod.fst).Perm (m.dataOn b.backend)
  marked : b.stats.marked = (m.dataOn b.backend).length
  tensors : b.stats.tensors = (m.dataOn b.backend).length
  scratch : b.stats.scratch = (m.scratchOn b.backend).length
  bytes : b.stats.bytes = 4 * (((m.dataOn b.backend).map m.elementsOf).sum +
    ((m.scratchOn b.backend).map Shape.elements).sum)

variable {p : Plan} {stages : List Stage} {ops : List (Operation × Placement)} {b : TensorBuilder}

/-- The elements of the scratch tensors that the stages of the operations ask for. -/
theorem scratch_elements {os : Operands} (h : List.Forall₂ (Staged os) ops stages)
    (id : BackendId) : (stages.flatMap (·.scratchOn id)).map (·.elements)
      = if placeOf id = .device then (ops.filterMap fun q =>
          if q.2.backend = id then q.1.flattened os else none).map Shape.elements
        else [] := by
  induction h with
  | nil => simp
  | @cons q stage ops stages hq _ ih =>
    rw [List.flatMap_cons, List.map_append, ih, hq.scratchOn id, List.filterMap_cons]
    by_cases hplace : placeOf id = .device
    · simp only [if_pos hplace]
      cases if q.2.backend = id then q.1.flattened os else none <;> rfl
    · simp only [if_neg hplace]
      rfl

theorem placeOf_eq_device {id : BackendId} : placeOf id = .device ↔ id = Backend.device.id := by
  unfold placeOf
  split
  · simp [*]
  · simp [*]

theorem bytesFor_eq (ts : List Tensor) :
    bytesFor ts = 4 * (ts.map fun t => t.info.elements).sum := by
  rw [bytesFor, List.sum_map_mul_left]

section

variable {m : Model} {bs : List TensorBuilder}

/-- A builder has marked the operands of its backend. -/
theorem Table.marked_perm (h : Table m.operands (sites ops) bs)
    (hperm : ops.Perm (m.operations.zip m.placements)) (hb : b ∈ bs) :
    b.marked.Perm (m.dataOn b.backend) := by
  refine (List.perm_ext_iff_of_nodup (h.once b hb) (nodup_dataOn _ _)).2 fun i => ?_
  rw [h.marked b hb, mem_dataOn]
  exact (hperm.flatMap_right _).mem_iff

/-- Its tensors are as large as the operands. -/
theorem Table.elements (h : Table m.operands (sites ops) bs) (hb : b ∈ bs) :
    b.tensors.map (·.2.info.elements) = b.marked.map m.elementsOf := by
  rw [← h.keys b hb, List.map_map]
  refine List.map_congr_left fun e he => ?_
  obtain ⟨-, o, ho, hinfo⟩ := h.known b hb he
  simp [elementsOf, ho, hinfo, TensorInfo.elements]

/-- The scratch tensors that the stages ask of a backend are as large as what is flattened there. -/
theorem scratch_perm (hstages : List.Forall₂ (Staged m.operands) ops stages)
    (hperm : ops.Perm (m.operations.zip m.placements)) (id : BackendId) :
    ((stages.flatMap (·.scratchOn id)).map (·.elements)).Perm
      ((m.scratchOn id).map Shape.elements) := by
  rw [scratch_elements hstages, scratchOn]
  simp only [placeOf_eq_device]
  split
  · exact (hperm.filterMap _).map _
  · exact .nil

end

/-- **The footprint of each builder.** -/
theorem Plan.Tallied.footprint (h : p.Tallied stages)
    (htable : Table p.model.operands (sites ops) p.builders)
    (hstages : List.Forall₂ (Staged p.model.operands) ops stages)
    (hperm : ops.Perm (p.model.operations.zip p.model.placements)) (hb : b ∈ p.builders) :
    Footprint p.model b := by
  obtain ⟨htallied, hscratch⟩ := h b hb
  have hoperands := htable.marked_perm hperm hb
  have hkeys := htable.keys b hb
  have hlayers : (b.scratch.map (·.info.elements)).Perm
      ((p.model.scratchOn b.backend).map Shape.elements) := by
    have hlayers := scratch_perm hstages hperm b.backend
    rwa [← hscratch, List.map_map] at hlayers
  have hlength : b.tensors.length = (p.model.dataOn b.backend).length := by
    rw [← hoperands.length_eq, ← hkeys, List.length_map]
  refine ⟨htallied.prepares, htallied.allocates, hkeys ▸ hoperands,
    htallied.marked.trans hoperands.length_eq, htallied.tensors.trans hlength, ?_, ?_⟩
  · simpa [htallied.scratch] using hlayers.length_eq
  · rw [htallied.bytes, bytesFor_eq, TensorBuilder.allTensors, List.map_append, List.sum_append,
      List.map_map]
    change 4 * ((b.tensors.map (·.2.info.elements)).sum + _) = _
    rw [htable.elements hb, (hoperands.map _).sum_eq, hlayers.sum_eq]

/-! ## The layers of the caller -/

/-- Only the shape of what is read counts. -/
theorem Operation.flattened_rewired {op : Operation} {os os' : Operands} (f : OperandId → OperandId)
    (h : ∀ i ∈ op.inputs, (os'[f i]?).map (·.shape) = (os[i]?).map (·.shape)) :
    Operation.flattened { op with inputs := op.inputs.map f } os' = op.flattened os := by
  have hkind : Operation.kind { op with inputs := op.inputs.map f } = op.kind := rfl
  unfold flattened
  rw [hkind]
  cases hl : op.inputs with
  | nil => rfl
  | cons i is =>
    have hi := h i (by simp [hl])
    simp only [List.map_cons, List.head?_cons, Option.bind_some, hi]

namespace Model

variable {m₀ m m' s : Model} {ps : List Placement} {copies : Copies} {policy : Policy}

/-- A copy has the shape of what it is a copy of. -/
theorem Split.read_shape (h : Split m ps copies s) (b : BackendId) {i : OperandId}
    (hi : i < m.operands.length) :
    (s.operands[copies.read b i]?).map (·.shape) = (m.operands[i]?).map (·.shape) := by
  rcases read_eq_or copies b i with he | hv
  · rw [he, h.operand (List.getElem?_eq_getElem hi), List.getElem?_eq_getElem hi]
  · obtain ⟨o, ho, hcopy⟩ := (h.copied hv).operand
    rw [hcopy, ho]
    rfl

/-- Lowering neither adds layers that flatten their input nor changes what they flatten. -/
theorem Split.flattenedOn (h : Split m ps copies s) (hc : m.Checked)
    (hlen : ps.length = m.operations.length) (id : BackendId) :
    s.flattenedOn id = (m.operations.zip ps).filterMap fun q =>
      if q.2.backend = id then q.1.flattened m.operands else none := by
  refine filterMap_of_extends (fun j q hq => ?_) fun j q hj hq => ?_
  · obtain ⟨hop, hp⟩ := List.getElem?_zip_eq_some.1 hq
    have hq' : (s.operations.zip s.placements)[j]?
        = some ({ q.1 with inputs := q.1.inputs.map (copies.read q.2.backend) }, q.2) :=
      List.getElem?_zip_eq_some.2 ⟨h.original hop hp, h.placed hp⟩
    refine ⟨_, hq', ?_⟩
    rw [Operation.flattened_rewired _ fun i hi =>
      h.read_shape _ (hc.input_lt (List.mem_of_getElem? hop) hi)]
  · -- What is added are copies.
    rw [List.length_zip, hlen, Nat.min_self] at hj
    obtain ⟨k, rfl⟩ := Nat.exists_eq_add_of_le hj
    obtain ⟨i, a, b, hop, -⟩ := h.permute (List.getElem?_zip_eq_some.1 hq).1
    rw [hop, Operation.flattened_of_kind (by simp [Operation.kind, Attributes.kind]), ite_self]

theorem Same.flattened (h : Same m m') (op : Operation) :
    op.flattened m'.operands = op.flattened m.operands := by
  have hshape : ∀ i : OperandId,
      (m'.operands[i]?).map (·.shape) = (m.operands[i]?).map (·.shape) := by
    intro i
    have hi := congrArg (fun l => (l[i]?).map Prod.fst) h.operands
    simp only [List.getElem?_map, Option.map_map] at hi
    exact hi
  have hrewired : Operation.flattened { op with inputs := op.inputs.map fun i => i } m'.operands
      = op.flattened m.operands := Operation.flattened_rewired _ fun i _ => hshape i
  rwa [List.map_id'] at hrewired

end Model

/-- **The layers that are flattened are the caller's**: all those with an input of rank 4, where the
policy chooses the backend for fully connected layers. -/
theorem Compiles.flattenedOn {m₀ m' : Model} {policy : Policy} (h : Compiles m₀ policy m' ops)
    (h₀ : m₀.Built) (id : BackendId) : m'.flattenedOn id
      = if policy.backendFor .fullyConnected = id then
          m₀.operations.filterMap (·.flattened m₀.operands) else [] := by
  obtain ⟨⟨r, hr, hplaced⟩, -⟩ := h
  obtain ⟨m, ps, copies, s, hps, hlow⟩ := placeModel_ok h₀ hplaced
  have hlowered : m'.flattenedOn id = s.flattenedOn id := by
    rw [Model.flattenedOn, Model.flattenedOn, hlow.lowered.operations, hlow.placements]
    exact List.filterMap_congr fun q _ => by rw [hlow.lowered.flattened]
  have hchoice : ∀ op : Operation,
      (if policy.backendFor op.kind = id then op.flattened m.operands else none)
        = if policy.backendFor .fullyConnected = id then op.flattened m₀.operands else none := by
    intro op
    rw [hlow.finished.flattened]
    by_cases hk : op.kind = .fullyConnected
    · rw [hk]
    · rw [Operation.flattened_of_kind hk, ite_self, ite_self]
  rw [hlowered, hlow.split.flattenedOn hlow.checked hlow.count, resolve_eq hr hps,
    hlow.finished.operations]
  generalize m₀.operations = operations
  induction operations with
  | nil => simp
  | cons op operations ih =>
    rw [List.map_cons, List.zip_cons_cons, List.filterMap_cons, List.filterMap_cons, ih]
    simp only [hchoice]
    by_cases hid : policy.backendFor .fullyConnected = id
    · simp only [if_pos hid]
    · simp only [if_neg hid]

/-! ## What a plan takes of the device -/

/-- What the tensor takes of the device. -/
def Tensor.deviceBytes (t : Tensor) : Nat := if t.place = .device then 4 * t.info.elements else 0

/-- What the builder of the device has counted. -/
def Plan.deviceBytes (p : Plan) : Nat :=
  (p.builders.map fun b => if b.backend = Backend.device.id then b.stats.bytes else 0).sum

/-- The builder of the device has counted what all tensors of the plan take of it. -/
theorem Plan.Tallied.deviceBytes (h : p.Tallied stages)
    (hplace : ∀ b ∈ p.builders, b.place = placeOf b.backend) :
    ((tensorsOf p.builders).map Tensor.deviceBytes).sum = p.deviceBytes := by
  have hbuilder : ∀ b ∈ p.builders, (b.allTensors.map Tensor.deviceBytes).sum
      = if b.backend = Backend.device.id then b.stats.bytes else 0 := by
    intro b hb
    obtain ⟨htallied, -⟩ := h b hb
    have htensors : ∀ t ∈ b.allTensors, t.deviceBytes
        = if b.backend = Backend.device.id then 4 * t.info.elements else 0 := fun t ht => by
      simp only [Tensor.deviceBytes, htallied.places t ht, hplace b hb, placeOf_eq_device]
    rw [List.map_congr_left htensors, htallied.bytes]
    split
    · rfl
    · simp
  rw [((tensorsOf_perm p.builders).map _).sum_eq, tensorsBy, List.map_flatMap, List.flatMap_def,
    List.sum_flatten, List.map_map, Plan.deviceBytes]
  exact congrArg List.sum (List.map_congr_left hbuilder)

/-- What the device charges for a tensor that has its memory. -/
theorem Tensor.Ready.charge {t : Tensor} {mem : Memory} (h : t.Ready mem)
    (hplace : (mem.cell t.cell).place = t.place) :
    (mem.cell t.cell).charge = if (mem.cell t.cell).holders = 0 then 0 else t.deviceBytes := by
  have hsize : (mem.cell t.cell).words.size = t.info.elements := h.size
  cases hp : t.place <;> by_cases hh : (mem.cell t.cell).holders = 0 <;>
    simp [Cell.charge, Cell.isCharged, Cell.bytes, Tensor.deviceBytes, h.reserved, hplace, hp, hh,
      hsize]

/-- A new plan takes what its tensors take. -/
theorem Finished.allocated {m₀ m : Machine} {model : Model} {ops : List (Operation × Placement)}
    {p : Plan} (h : Finished m₀ model ops p m) : m.device.allocated
      = m₀.device.allocated
        + UInt64.ofNat ((tensorsOf p.builders).map Tensor.deviceBytes).sum := by
  have hcharges : ∀ t ∈ tensorsOf p.builders, (m.memory.cell t.cell).charge = t.deviceBytes := by
    intro t ht
    rw [(h.kept.ready t ht).charge (h.lent.sited t ht), h.lent.held t ht]
    exact if_neg Nat.one_ne_zero
  rw [h.lent.allocated, chargeFor, List.map_map]
  exact congrArg (m₀.device.allocated + UInt64.ofNat ·.sum) (List.map_congr_left hcharges)

/-! ## Compilations -/

variable {m₀ : Model} {policy : Policy} {s : Platform}

/-- What is known of a new plan from what its builders have counted. -/
structure Plan.Measured (p : Plan) : Prop where
  names : p.backends.Pairwise (· < ·)
  /-- A builder for each backend on which there is something to do. -/
  backends : ∀ id, id ∈ p.backends ↔ p.model.dataOn id ≠ []
  footprint : ∀ b ∈ p.builders, Footprint p.model b
  deviceBytes : ((tensorsOf p.builders).map Tensor.deviceBytes).sum = p.deviceBytes

theorem compile_measured (policy : Policy) (h₀ : m₀.Built) (hs : s.Clean) :
    Returns (outcome (compile m₀ policy) s) fun p _ => p.Measured := by
  rw [compile_eq]
  refine Ends.bind ((accept_ends policy h₀ hs).mono (fun a s' ha => ?_) fun _ _ _ => trivial)
  obtain ⟨⟨hclean, -⟩, ops, hcompiles, hplanning⟩ := ha
  have hnames : (a.2.2.map (·.backend)).Nodup :=
    hplanning.marks.names.imp fun hlt => Std.ne_of_lt hlt
  refine Platform.onMachine_ends (((finalize_ends hplanning hclean.failure).and
    (finalize_tallied hnames hplanning.marks.fresh)).mono (fun p m hp => ?_) fun _ _ _ => trivial)
  obtain ⟨hfinished, htallied⟩ := hp
  have htable := hfinished.made.table
  have hmodel := hfinished.model_eq
  rw [← hmodel] at hcompiles
  have hperm := hcompiles.perm h₀
  refine ⟨htable.names, fun id => ?_, fun b hb => ?_, htallied.deviceBytes htable.place⟩
  · constructor
    · intro hid
      obtain ⟨b, hb, rfl⟩ := List.mem_map.1 hid
      obtain ⟨i, hi⟩ := htable.used b hb
      exact List.ne_nil_of_mem (mem_dataOn.2 ((hperm.flatMap_right _).subset hi))
    · intro hsome
      obtain ⟨i, hi⟩ := List.exists_mem_of_ne_nil _ hsome
      exact htable.backend ((hperm.flatMap_right _).symm.subset (mem_dataOn.1 hi))
  · exact htallied.footprint htable (hmodel ▸ hplanning.stages) hperm hb

end HeteroNet
