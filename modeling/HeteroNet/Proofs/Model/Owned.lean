import HeteroNet.Proofs.Model.Values

/-
The backends of an operand. Lowering records with every operand the backends that touch it, in one
pass over the operations as they are listed. The tensors that a compilation marks come from another
pass, over the operations as they run. Each of the two has its own case for the side on which a
`permute` reads; they find the same backends (`Touched`).

An operand that is written has one backend, its writer's: an operation that copies nothing reads
what its own backend writes, and a `permute` reads where its input is written.
-/

namespace HeteroNet

variable {b c : BackendId}

namespace OperandPlacement

variable {o : OperandPlacement}

/-- Adds the backend of a placement, once. -/
def collect (ids : List BackendId) (p : Placement) : List BackendId :=
  if p.backend ∈ ids then ids else ids ++ [p.backend]

theorem backends_eq (o : OperandPlacement) :
    o.backends = (o.writers ++ o.readers).foldl collect [] :=
  rfl

theorem mem_collect {ids : List BackendId} {p : Placement} :
    b ∈ collect ids p ↔ b ∈ ids ∨ b = p.backend := by
  unfold collect
  split
  · rename_i h
    exact ⟨.inl, fun hb => hb.elim id fun he => he ▸ h⟩
  · rw [List.mem_append, List.mem_singleton]

theorem nodup_collect {ids : List BackendId} {p : Placement} (h : ids.Nodup) :
    (collect ids p).Nodup := by
  unfold collect
  split
  · exact h
  · rename_i hp
    exact List.nodup_append.2 ⟨h, List.nodup_singleton _, fun a ha b hb he =>
      hp (List.mem_singleton.1 hb ▸ he ▸ ha)⟩

theorem mem_foldl_collect {ps : List Placement} : ∀ {ids : List BackendId},
    b ∈ ps.foldl collect ids ↔ b ∈ ids ∨ b ∈ ps.map (·.backend) := by
  induction ps with
  | nil => simp
  | cons p ps ih =>
    intro ids
    rw [List.foldl_cons, ih, mem_collect, List.map_cons, List.mem_cons, or_assoc]

theorem nodup_foldl_collect {ps : List Placement} : ∀ {ids : List BackendId}, ids.Nodup →
    (ps.foldl collect ids).Nodup := by
  induction ps with
  | nil => exact id
  | cons p ps ih => exact fun h => ih (nodup_collect h)

theorem mem_backends : b ∈ o.backends ↔
    b ∈ o.writers.map (·.backend) ∨ b ∈ o.readers.map (·.backend) := by
  rw [backends_eq, mem_foldl_collect, List.map_append, List.mem_append]
  simp

theorem nodup_backends (o : OperandPlacement) : o.backends.Nodup :=
  nodup_foldl_collect List.nodup_nil

theorem mem_insertBackend {ps : List Placement} {p : Placement} :
    b ∈ (insertBackend ps p).map (·.backend) ↔ b ∈ ps.map (·.backend) ∨ b = p.backend := by
  unfold insertBackend
  split
  · rename_i h
    obtain ⟨q, hq, he⟩ := List.any_eq_true.1 h
    refine ⟨.inl, fun hb => hb.elim id fun hb => ?_⟩
    rw [hb, ← eq_of_beq he]
    exact List.mem_map_of_mem hq
  · rw [List.map_append, List.mem_append, List.map_singleton, List.mem_singleton]

theorem mem_backends_addWriter {p : Placement} :
    b ∈ (o.addWriter p).backends ↔ b ∈ o.backends ∨ b = p.backend := by
  rw [mem_backends, mem_backends, addWriter, mem_insertBackend, or_right_comm]

theorem mem_backends_addReader {p : Placement} :
    b ∈ (o.addReader p).backends ↔ b ∈ o.backends ∨ b = p.backend := by
  rw [mem_backends, mem_backends, addReader, mem_insertBackend, or_assoc]

end OperandPlacement

namespace Model

open Operation

variable {m m₁ s : Model} {ps : List Placement} {i j : OperandId}

/-- The backends recorded for an operand. -/
def backendsOf (m : Model) (i : OperandId) : List BackendId :=
  ((m.operands[i]?.bind (·.placement)).map (·.backends)).getD []

theorem nodup_backendsOf (m : Model) (i : OperandId) : (m.backendsOf i).Nodup := by
  unfold backendsOf
  cases m.operands[i]?.bind (·.placement) with
  | none => exact List.nodup_nil
  | some o => exact o.nodup_backends

/-! ## Recording the backends -/

/-- A change of one operand that adds a backend. -/
theorem mem_backendsOf_update {f : OperandPlacement → OperandPlacement}
    (hf : ∀ o b, b ∈ (f o).backends ↔ b ∈ o.backends ∨ b = c) :
    b ∈ (m.updatePlacement j f).backendsOf i ↔
      b ∈ m.backendsOf i ∨ (i < m.operands.length ∧ i = j ∧ b = c) := by
  unfold backendsOf updatePlacement
  rw [List.getElem?_modify]
  cases ho : m.operands[i]? with
  | none =>
    have hi := Nat.not_lt.2 (List.getElem?_eq_none_iff.1 ho)
    simp [hi]
  | some o =>
    have hi := (List.getElem?_eq_some_iff.1 ho).1
    by_cases hij : j = i
    · have hempty : ({ dims := o.shape.lastFour } : OperandPlacement).backends = [] := rfl
      cases hp : o.placement <;> simp [hi, hij, hp, hf, hempty]
    · simp [hij, Ne.symm hij]

theorem length_updatePlacement (f : OperandPlacement → OperandPlacement) :
    (m.updatePlacement j f).operands.length = m.operands.length :=
  List.length_modify _ _ _

/-- The same change of several operands. -/
theorem mem_backendsOf_updates {f : OperandPlacement → OperandPlacement}
    (hf : ∀ o b, b ∈ (f o).backends ↔ b ∈ o.backends ∨ b = c) :
    ∀ (is : List OperandId) (m : Model),
      (is.foldl (fun m i => m.updatePlacement i f) m).operands.length = m.operands.length ∧
      (b ∈ (is.foldl (fun m i => m.updatePlacement i f) m).backendsOf i ↔
        b ∈ m.backendsOf i ∨ (i < m.operands.length ∧ i ∈ is ∧ b = c))
  | [], m => by simp
  | j :: is, m => by
    obtain ⟨hlen, hmem⟩ := mem_backendsOf_updates hf is (m.updatePlacement j f)
    refine ⟨hlen.trans (length_updatePlacement f), hmem.trans ?_⟩
    rw [mem_backendsOf_update hf, length_updatePlacement, List.mem_cons, or_assoc,
      ← and_or_left, ← or_and_right]

theorem readPlacement_backend (m : Model) (op : Operation) (p : Placement) :
    (m.readPlacement op p).backend = op.source p := by
  cases h : op.attributes <;> simp [readPlacement, Operation.source, h]

/-- Records the backends of one operation. -/
def placeOperation (m acc : Model) (q : Operation × Placement) : Model :=
  q.1.outputs.foldl (fun acc i => acc.updatePlacement i (·.addWriter q.2))
    (q.1.inputs.foldl (fun acc i => acc.updatePlacement i (·.addReader (m.readPlacement q.1 q.2))) acc)

theorem placeOperands_eq (m : Model) : m.placeOperands =
    (m.operations.zip m.placements).foldl m.placeOperation
      { m with operands := m.operands.map fun o => { o with placement := none } } := rfl

/-- An operation reads or writes operand `i`, and backend `b` is recorded for that. -/
def Recorded (q : Operation × Placement) (b : BackendId) (i : OperandId) : Prop :=
  (i ∈ q.1.inputs ∧ b = q.1.source q.2) ∨ (i ∈ q.1.outputs ∧ b = q.2.backend)

theorem placeOperation_spec (m acc : Model) (q : Operation × Placement) :
    (m.placeOperation acc q).operands.length = acc.operands.length ∧
      (b ∈ (m.placeOperation acc q).backendsOf i ↔
        b ∈ acc.backendsOf i ∨ (i < acc.operands.length ∧ Recorded q b i)) := by
  obtain ⟨hlen, hread⟩ := mem_backendsOf_updates (b := b) (i := i)
    (f := (·.addReader (m.readPlacement q.1 q.2)))
    (fun o b => OperandPlacement.mem_backends_addReader) q.1.inputs acc
  obtain ⟨hlen', hwrite⟩ := mem_backendsOf_updates (b := b) (i := i) (f := (·.addWriter q.2))
    (fun o b => OperandPlacement.mem_backends_addWriter) q.1.outputs
    (q.1.inputs.foldl
      (fun acc i => acc.updatePlacement i (·.addReader (m.readPlacement q.1 q.2))) acc)
  refine ⟨hlen'.trans hlen, hwrite.trans ?_⟩
  rw [hread, hlen, or_assoc, ← and_or_left, readPlacement_backend]
  rfl

theorem foldl_placeOperation : ∀ {qs : List (Operation × Placement)} {acc : Model},
    b ∈ (qs.foldl m.placeOperation acc).backendsOf i ↔
      b ∈ acc.backendsOf i ∨ (i < acc.operands.length ∧ ∃ q ∈ qs, Recorded q b i)
  | [], acc => by simp
  | q :: qs, acc => by
    obtain ⟨hlen, hmem⟩ := placeOperation_spec (b := b) (i := i) m acc q
    rw [List.foldl_cons, foldl_placeOperation, hmem, hlen, or_assoc, ← and_or_left]
    simp

/-- **What lowering records**: the backends on which operations read and write the operand. -/
theorem mem_backendsOf_placeOperands : b ∈ m.placeOperands.backendsOf i ↔
    i < m.operands.length ∧ ∃ q ∈ m.operations.zip m.placements, Recorded q b i := by
  have hcleared : ({ m with operands := m.operands.map fun o =>
      { o with placement := none } } : Model).backendsOf i = [] := by
    unfold backendsOf
    rw [List.getElem?_map]
    cases m.operands[i]? <;> rfl
  rw [placeOperands_eq, foldl_placeOperation, hcleared]
  simp

theorem lower_backendsOf (h : outcome (lower ps) m = (.ok (), s)) : b ∈ s.backendsOf i ↔
    i < s.operands.length ∧ ∃ q ∈ s.operations.zip s.placements, Recorded q b i := by
  obtain ⟨-, -, m₁, m₂, -, -, -, rfl⟩ := lower_ok h
  have hr := replaced_placeOperands m₂
  have hlen : m₂.placeOperands.operands.length = m₂.operands.length := by
    simpa using congrArg List.length hr.operands
  change b ∈ m₂.placeOperands.backendsOf i ↔ i < m₂.placeOperands.operands.length ∧
    ∃ q ∈ m₂.placeOperands.operations.zip m₂.placeOperands.placements, Recorded q b i
  rw [mem_backendsOf_placeOperands, hlen, hr.operations, hr.placements]

/-! ## The operations that touch an operand -/

/-- Some operation reads or writes operand `i` on backend `b`. -/
def Touched (m : Model) (b : BackendId) (i : OperandId) : Prop :=
  ∃ (j : OperationId) (op : Operation) (p : Placement), m.operations[j]? = some op ∧
    m.placements[j]? = some p ∧ (b, i) ∈ reads (op, p) ++ writes (op, p)

theorem mem_reads {q : Operation × Placement} :
    (b, i) ∈ reads q ↔ i ∈ q.1.inputs ∧ b = q.1.source q.2 := by
  simp [reads, eq_comm, and_comm]

theorem mem_writes {q : Operation × Placement} :
    (b, i) ∈ writes q ↔ i ∈ q.1.outputs ∧ b = q.1.target q.2 := by
  simp [writes, eq_comm, and_comm]

/-- The tensors that a run needs are those that operations touch. -/
theorem mem_sites_iff {order : List OperationId} {ops : List (Operation × Placement)}
    (hall : ∀ j, j ∈ order ↔ j < s.operations.length) (hops : s.placedOperations order = .ok ops) :
    (b, i) ∈ sites ops ↔ s.Touched b i := by
  obtain ⟨hright, hleft⟩ := mem_of_forall₂ (placedOperations_ok.1 hops)
  constructor
  · intro hs
    obtain ⟨⟨op, p⟩, hq, hs⟩ := List.mem_flatMap.1 hs
    obtain ⟨j, -, hop, hp⟩ := hright _ hq
    exact ⟨j, op, p, hop, hp, hs⟩
  · rintro ⟨j, op, p, hop, hp, hs⟩
    obtain ⟨⟨op', p'⟩, hq, hop', hp'⟩ := hleft j ((hall j).2 (List.getElem?_eq_some_iff.1 hop).1)
    rw [hop, Option.some.injEq] at hop'
    rw [hp, Option.some.injEq] at hp'
    subst hop' hp'
    exact List.mem_flatMap.2 ⟨_, hq, hs⟩

namespace SplitsCrossings

variable (h : SplitsCrossings m ps s)

include h

/-- Every operation writes on the backend it is placed on. -/
theorem target_eq {j : OperationId} {op : Operation} {p : Placement}
    (hop : s.operations[j]? = some op) (hp : s.placements[j]? = some p) :
    op.target p = p.backend := by
  by_cases hk : op.kind = .permute
  · obtain ⟨x, v, a, b, rfl, hon, -⟩ := h.across hop hk
    exact Split.on_unique hon ⟨p, hp, rfl⟩
  · exact target_of_kind hk p

/-- **The two passes agree**: what lowering records is where operations read and write. -/
theorem mem_backendsOf (hlower : outcome (lower ps) m₁ = (.ok (), s)) (hc : s.Checked) :
    b ∈ s.backendsOf i ↔ s.Touched b i := by
  rw [lower_backendsOf hlower]
  constructor
  · rintro ⟨-, ⟨op, p⟩, hq, hrec⟩
    obtain ⟨j, hj⟩ := List.mem_iff_getElem?.1 hq
    obtain ⟨hop, hp⟩ := List.getElem?_zip_eq_some.1 hj
    refine ⟨j, op, p, hop, hp, List.mem_append.2 (hrec.imp mem_reads.2 fun hw => ?_)⟩
    rw [mem_writes, h.target_eq hop hp]
    exact hw
  · rintro ⟨j, op, p, hop, hp, hs⟩
    have hq : (op, p) ∈ s.operations.zip s.placements :=
      List.mem_iff_getElem?.2 ⟨j, List.getElem?_zip_eq_some.2 ⟨hop, hp⟩⟩
    rcases List.mem_append.1 hs with hs | hs
    · have hr := mem_reads.1 hs
      exact ⟨hc.input_lt (List.mem_of_getElem? hop) hr.1, _, hq, .inl hr⟩
    · have hw := mem_writes.1 hs
      rw [h.target_eq hop hp] at hw
      exact ⟨hc.output_lt (List.mem_of_getElem? hop) hw.1, _, hq, .inr hw⟩

/-- **An operand that is written has one backend**, its writer's: whatever reads it reads it
there. -/
theorem touched_written (hl : s.Linked) (hc : s.Checked) {w : OperationId} {a : BackendId}
    (hw : s.Writes w i) (ha : On s.placements w a) : s.Touched b i ↔ b = a := by
  constructor
  · rintro ⟨j, op, p, hop, hp, hs⟩
    rcases List.mem_append.1 hs with hs | hs
    · obtain ⟨hi, rfl⟩ := mem_reads.1 hs
      by_cases hk : op.kind = .permute
      · obtain ⟨x, v, a', b', rfl, -, -, -, hall⟩ := h.across hop hk
        obtain rfl := List.mem_singleton.1 hi
        exact Split.on_unique (hall w hw) ha
      · obtain ⟨b', hb', hb''⟩ := h.within hop hk i hi w hw
        rw [source_of_kind hk, Split.on_unique ha hb'']
        exact Split.on_unique ⟨p, hp, rfl⟩ hb'
    · obtain ⟨hi, rfl⟩ := mem_writes.1 hs
      obtain rfl := hl.writes_unique hc hw ⟨op, hop, hi⟩
      rw [h.target_eq hop hp]
      exact Split.on_unique ⟨p, hp, rfl⟩ ha
  · rintro rfl
    obtain ⟨op, hop, hi⟩ := hw
    obtain ⟨p, hp, rfl⟩ := ha
    exact ⟨w, op, p, hop, hp,
      List.mem_append_right _ (mem_writes.2 ⟨hi, (h.target_eq hop hp).symm⟩)⟩

theorem backendsOf_written (hlower : outcome (lower ps) m₁ = (.ok (), s))
    (hcount : s.placements.length = s.operations.length) {w : OperationId} (hw : s.Writes w i) :
    ∃ a, On s.placements w a ∧ s.backendsOf i = [a] := by
  obtain ⟨hl, hc, -⟩ := lower_linked hlower
  obtain ⟨op, hop, -⟩ := id hw
  obtain ⟨a, ha⟩ : ∃ a, On s.placements w a :=
    ⟨_, _, List.getElem?_eq_getElem (hcount ▸ (List.getElem?_eq_some_iff.1 hop).1), rfl⟩
  exact ⟨a, ha, eq_singleton (nodup_backendsOf s i) fun b =>
    (h.mem_backendsOf hlower hc).trans (h.touched_written hl hc hw ha)⟩

/-- An operand that nothing writes has the backends of the operations that read it. -/
theorem touched_unwritten (hnot : ∀ w, ¬s.Writes w i) :
    s.Touched b i ↔ ∃ j, s.Reads j i ∧ On s.placements j b := by
  have hkind : ∀ {j : OperationId} {op : Operation}, s.operations[j]? = some op → i ∈ op.inputs →
      op.kind ≠ .permute := by
    intro j op hop hi hk
    obtain ⟨x, v, a, b, rfl, -, -, ⟨w, hw⟩, -⟩ := h.across hop hk
    obtain rfl := List.mem_singleton.1 hi
    exact hnot w hw
  constructor
  · rintro ⟨j, op, p, hop, hp, hs⟩
    rcases List.mem_append.1 hs with hs | hs
    · obtain ⟨hi, rfl⟩ := mem_reads.1 hs
      exact ⟨j, ⟨op, hop, hi⟩, p, hp, (source_of_kind (hkind hop hi) p).symm⟩
    · exact absurd ⟨op, hop, (mem_writes.1 hs).1⟩ (hnot j)
  · rintro ⟨j, ⟨op, hop, hi⟩, p, hp, rfl⟩
    exact ⟨j, op, p, hop, hp, List.mem_append_left _
      (mem_reads.2 ⟨hi, (source_of_kind (hkind hop hi) p).symm⟩)⟩

end SplitsCrossings

end Model

end HeteroNet
