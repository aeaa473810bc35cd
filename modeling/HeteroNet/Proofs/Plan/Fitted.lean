import HeteroNet.Proofs.Plan.Visits

/-
Copies between backends that a caller writes himself. Lowering splits the edges between the backends
that the policy names, but such an operation reads and writes on the backends that it names. So a
plan reads what is written if and only if, on every edge, the two agree (`Lowering.matched_iff`):
operations on one backend use one tensor for what the one writes and the other reads, and operations
on two backends use the tensors on their own, between which lowering copies.
-/

namespace HeteroNet

open Operation Model

variable {m₀ m s m' : Model} {policy : Policy} {ps : List Placement} {copies : Copies}

/-- What `w` writes on its backend comes to where `r` reads on its own. -/
def Operation.Joins (w r : Operation) (p q : Placement) : Prop :=
  if p.backend = q.backend then r.source q = w.target p
  else w.target p = p.backend ∧ r.source q = q.backend

/-- Every edge joins, where `ps` has the places of the operations. -/
def Model.Joined (m : Model) (ps : List Placement) : Prop :=
  ∀ {k j : OperationId} {w r : Operation} {p q : Placement}, m.operations[k]? = some w →
    ps[k]? = some p → m.operations[j]? = some r → ps[j]? = some q →
    ∀ {i : OperandId}, i ∈ w.outputs → i ∈ r.inputs → w.Joins r p q

/-- Where a policy places an operation on default backends. -/
def Policy.place (policy : Policy) (op : Operation) : Placement :=
  ⟨policy.backendFor op.kind, (placeOf (policy.backendFor op.kind)).layout⟩

/-- On every edge, the copies that the caller wrote agree with the backends that the policy names. -/
def Model.Fitted (m : Model) (policy : Policy) : Prop :=
  ∀ w ∈ m.operations, ∀ r ∈ m.operations, ∀ i ∈ w.outputs, i ∈ r.inputs →
    w.Joins r (policy.place w) (policy.place r)

instance (w r : Operation) (p q : Placement) : Decidable (w.Joins r p q) :=
  inferInstanceAs (Decidable (if p.backend = q.backend then r.source q = w.target p
    else w.target p = p.backend ∧ r.source q = q.backend))

instance (m : Model) (policy : Policy) : Decidable (m.Fitted policy) :=
  inferInstanceAs (Decidable (∀ w ∈ m.operations, ∀ r ∈ m.operations, ∀ i ∈ w.outputs,
    i ∈ r.inputs → w.Joins r (policy.place w) (policy.place r)))

namespace Model.Lowering

/-- An operation of the caller in the lowered model. -/
theorem lowered_original (h : Lowering m₀ m ps copies s m') {j : OperationId} {op : Operation}
    {p : Placement} (hop : m.operations[j]? = some op) (hp : ps[j]? = some p) :
    m'.operations[j]? = some { op with inputs := op.inputs.map (copies.read p.backend) } ∧
      m'.placements[j]? = some p := by
  rw [h.lowered.operations, h.placements]
  exact ⟨h.split.original hop hp, h.split.placed hp⟩

/-- The operation that lowering added for an operand that is read across. -/
theorem lowered_added (h : Lowering m₀ m ps copies s m') {i v : OperandId} {b : BackendId}
    (hv : copies.lookup (i, b) = some v) : ∃ (k w : OperationId) (p q : Placement),
      m'.operations[k]? = some ⟨[i], [v], .permute p.backend b⟩ ∧ m'.placements[k]? = some q ∧
        m.Writes w i ∧ ps[w]? = some p := by
  obtain ⟨k, a, -, hop, ⟨w, hw, p, hp, rfl⟩, -, q, hq, -⟩ := h.split.copy_eq hv
  rw [← h.lowered.operations] at hop
  rw [← h.placements] at hq
  exact ⟨_, w, p, q, hop, hq, hw, hp⟩

/-- The writer of an operand has one place. -/
theorem writer_place (h : Lowering m₀ m ps copies s m') {i : OperandId} {k l : OperationId}
    {p p' : Placement} (hk : m.Writes k i) (hp : ps[k]? = some p) (hl : m.Writes l i)
    (hp' : ps[l]? = some p') : p' = p := by
  obtain rfl := h.linked.writes_unique h.checked hk hl
  exact Option.some.inj (hp'.symm.trans hp)

/-- An operand has no copy for the backend of its writer. -/
theorem read_written (h : Lowering m₀ m ps copies s m') {i : OperandId} {k : OperationId}
    {p : Placement} (hk : m.Writes k i) (hp : ps[k]? = some p) : copies.read p.backend i = i := by
  unfold Copies.read
  cases hv : copies.lookup (i, p.backend) with
  | none => rfl
  | some v =>
    obtain ⟨l, a, hl, ⟨p', hp', rfl⟩, hne⟩ := (h.split.copied hv).crosses.1
    exact absurd (congrArg Placement.backend (h.writer_place hk hp hl hp')) hne

variable {k j : OperationId} {w r : Operation} {p q : Placement} {i v : OperandId}

/-- An operand that is read on another backend than its writer's has a copy there. -/
theorem read_across (h : Lowering m₀ m ps copies s m') (hw : m.operations[k]? = some w)
    (hp : ps[k]? = some p) (hr : m.operations[j]? = some r) (hq : ps[j]? = some q)
    (hiw : i ∈ w.outputs) (hir : i ∈ r.inputs) (hne : p.backend ≠ q.backend) :
    ∃ v, copies.lookup (i, q.backend) = some v ∧ copies.read q.backend i = v := by
  obtain ⟨v, hv⟩ := h.split.crossed
    ⟨⟨k, p.backend, ⟨w, hw, hiw⟩, ⟨p, hp, rfl⟩, hne⟩, j, ⟨r, hr, hir⟩, q, hq, rfl⟩
  exact ⟨v, hv, by simp [Copies.read, hv]⟩

/-- Operations that read where others write make every edge join. -/
theorem joined_of_matched (h : Lowering m₀ m ps copies s m') (hmatched : m'.Matched) :
    m.Joined ps := by
  intro k j w r p q hw hp hr hq i hiw hir
  obtain ⟨hw', hp'⟩ := h.lowered_original hw hp
  obtain ⟨hr', hq'⟩ := h.lowered_original hr hq
  unfold Joins
  split
  · rename_i hsame
    have hread := h.read_written ⟨w, hw, hiw⟩ hp
    rw [hsame] at hread
    have hsource := hmatched hr' hq' hw' hp' (i := i) (List.mem_map.2 ⟨i, hir, hread⟩) hiw
    exact hsource
  · -- Lowering added an operation between the two.
    rename_i hne
    obtain ⟨v, hv, hread⟩ := h.read_across hw hp hr hq hiw hir hne
    obtain ⟨l, w', p', q', hl, hq'', hwrites, hpw⟩ := h.lowered_added hv
    rw [h.writer_place ⟨w, hw, hiw⟩ hp hwrites hpw] at hl
    have htarget := hmatched hl hq'' hw' hp' (List.mem_singleton_self i) hiw
    have hsource := hmatched hr' hq' hl hq'' (i := v) (List.mem_map.2 ⟨i, hir, hread⟩)
      (List.mem_singleton_self v)
    exact ⟨htarget.symm, hsource⟩

/-- Where an operand has a copy, writer and reader are on two backends. -/
theorem joins_copied (h : Lowering m₀ m ps copies s m') (hjoined : m.Joined ps)
    (hw : m.operations[k]? = some w) (hp : ps[k]? = some p) (hr : m.operations[j]? = some r)
    (hq : ps[j]? = some q) (hiw : i ∈ w.outputs) (hir : i ∈ r.inputs)
    (hv : copies.lookup (i, q.backend) = some v) :
    w.target p = p.backend ∧ r.source q = q.backend := by
  obtain ⟨l, a, hl, ⟨p', hp', rfl⟩, hne⟩ := (h.split.copied hv).crosses.1
  rw [h.writer_place ⟨w, hw, hiw⟩ hp hl hp'] at hne
  have hjoin := hjoined hw hp hr hq hiw hir
  rwa [Joins, if_neg hne] at hjoin

/-- What an operation of the caller reads is written where it reads. -/
theorem original_matched (h : Lowering m₀ m ps copies s m') (hjoined : m.Joined ps)
    (hr : m.operations[j]? = some r) (hq : ps[j]? = some q) (hir : i ∈ r.inputs)
    (hw' : s.operations[k]? = some w) (hp : s.placements[k]? = some p)
    (hiw : copies.read q.backend i ∈ w.outputs) : r.source q = w.target p := by
  have hilt := h.checked.input_lt (List.mem_of_getElem? hr) hir
  rcases h.split.cases h.count hw' with
    ⟨w, p', hw, hp', hpp, rfl⟩ | ⟨l, y, a, b, -, rfl, hv, -⟩
  · rw [hp, Option.some.injEq] at hpp
    subst hpp
    have hself := h.root_original (root_read hilt)
      (h.checked.output_lt (List.mem_of_getElem? hw) hiw)
    rw [hself] at hiw
    have hjoin := hjoined hw hp' hr hq hiw hir
    unfold Joins at hjoin
    split at hjoin
    · exact hjoin
    · rename_i hne
      obtain ⟨v, hv, hread⟩ := h.read_across hw hp' hr hq hiw hir hne
      rw [← hread, hself] at hv
      obtain ⟨l, -, rfl, -⟩ := h.split.copy_eq hv
      exact absurd hilt (Nat.not_lt.2 (Nat.le_add_right _ _))
  · have hcopy := List.mem_singleton.1 hiw
    unfold Copies.read at hcopy
    cases hv' : copies.lookup (i, q.backend) with
    | none =>
      rw [hv', Option.getD_none] at hcopy
      rw [hcopy] at hilt
      exact absurd hilt (Nat.not_lt.2 (Nat.le_add_right _ _))
    | some v =>
      rw [hv', Option.getD_some] at hcopy
      subst hcopy
      obtain ⟨rfl, rfl⟩ := h.split.copy_injective hv' hv
      obtain ⟨l', a', ⟨w, hw, hiw⟩, ⟨p', hp', rfl⟩, -⟩ := (h.split.copied hv').crosses.1
      exact (h.joins_copied hjoined hw hp' hr hq hiw hir hv').2

/-- What an operation that lowering added reads is written where it reads. -/
theorem added_matched (h : Lowering m₀ m ps copies s m') (hjoined : m.Joined ps)
    {a b : BackendId} (hv : copies.lookup (i, b) = some v)
    (ha : ∃ l, m.Writes l i ∧ On ps l a) (hw' : s.operations[k]? = some w)
    (hp : s.placements[k]? = some p) (hiw : i ∈ w.outputs) : a = w.target p := by
  obtain ⟨l, hl, p', hp', rfl⟩ := ha
  rcases h.split.cases h.count hw' with
    ⟨w, p'', hw, hp'', hpp, rfl⟩ | ⟨l', y, a', b', -, rfl, -⟩
  · rw [hp, Option.some.injEq] at hpp
    subst hpp
    obtain rfl := h.writer_place hl hp' ⟨w, hw, hiw⟩ hp''
    obtain ⟨j, ⟨r, hr, hir⟩, q, hq, rfl⟩ := (h.split.copied hv).crosses.2
    exact (h.joins_copied hjoined hw hp'' hr hq hiw hir hv).1.symm
  · obtain ⟨op, hop, hi⟩ := hl
    have hlt := h.checked.output_lt (List.mem_of_getElem? hop) hi
    rw [List.mem_singleton.1 hiw] at hlt
    exact absurd hlt (Nat.not_lt.2 (Nat.le_add_right _ _))

/-- **Operations read where others write if and only if every edge joins.** -/
theorem matched_iff (h : Lowering m₀ m ps copies s m') : m'.Matched ↔ m.Joined ps := by
  refine ⟨h.joined_of_matched, fun hjoined j k r' w q p hr' hq hw hp i hir hiw => ?_⟩
  rw [h.lowered.operations] at hr' hw
  rw [h.placements] at hq hp
  rcases h.split.cases h.count hr' with
    ⟨r, q', hr, hq', hqq, rfl⟩ | ⟨l, x, a, b, -, rfl, hv, hwrites, -⟩
  · rw [hq, Option.some.injEq] at hqq
    subst hqq
    obtain ⟨x, hx, rfl⟩ := List.mem_map.1 hir
    have hsource := h.original_matched hjoined hr hq' (i := x) hx hw hp hiw
    exact hsource
  · obtain rfl := List.mem_singleton.1 hir
    exact h.added_matched hjoined hv hwrites hw hp hiw

end Model.Lowering

end HeteroNet
