import HeteroNet.Model.Lower
import HeteroNet.Proofs.Lists
import HeteroNet.Proofs.Model.Checked

/-
Lowering splits exactly the edges between two backends. While it goes through the edges, a model
is known by the copies made so far and the edges gone through (`SplitAt`): an operation reads, for
every edge gone through, the copy of the operand for its backend, if there is one. Each step adds
one edge, and at most one copy.

The edges are those of the model before the rewriting: a step changes the data inputs of one
operation and appends a copy, and never touches an output, a link or an operand that was there.
-/

namespace HeteroNet.Model

/-- What an operation on backend `b` reads for operand `i`: its copy, if there is one. -/
def Copies.read (copies : Copies) (b : BackendId) (i : OperandId) : OperandId :=
  (copies.lookup (i, b)).getD i

/-- The operation `j` is placed on backend `b`. -/
def On (ps : List Placement) (j : OperationId) (b : BackendId) : Prop :=
  ∃ p, ps[j]? = some p ∧ p.backend = b

/-- Operand `i` is written on another backend than `b`, and read on `b`. -/
def Crosses (m : Model) (ps : List Placement) (i : OperandId) (b : BackendId) : Prop :=
  (∃ w a, m.Writes w i ∧ On ps w a ∧ a ≠ b) ∧ ∃ j, m.Reads j i ∧ On ps j b

/-- The copy of operand `i` for backend `b`: operand `v`, and the operation that writes it. -/
structure Copied (m : Model) (ps : List Placement) (s : Model) (i : OperandId) (b : BackendId)
    (v : OperandId) : Prop where
  crosses : m.Crosses ps i b
  permute : ∃ k a, v = m.operands.length + k ∧
    s.operations[m.operations.length + k]? = some ⟨[i], [v], .permute a b⟩ ∧
    (∃ w, m.Writes w i ∧ On ps w a) ∧ a ≠ b ∧ On s.placements (m.operations.length + k) b
  operand : ∃ o, m.operands[i]? = some o ∧ s.operands[v]? = some { shape := o.shape, type := o.type }

/-- The model `s` is `m` with the edges in `done` split. -/
structure SplitAt (m : Model) (ps : List Placement) (done : List (OperandId × OperationId))
    (copies : Copies) (s : Model) : Prop where
  operandCount : s.operands.length = m.operands.length + copies.length
  operationCount : s.operations.length = m.operations.length + copies.length
  placementCount : s.placements.length = m.operations.length + copies.length
  operand : ∀ {i : OperandId} {o : Operand}, m.operands[i]? = some o → s.operands[i]? = some o
  placed : ∀ {j : OperationId} {p : Placement}, ps[j]? = some p → s.placements[j]? = some p
  original : ∀ {j : OperationId} {op : Operation} {p : Placement}, m.operations[j]? = some op →
    ps[j]? = some p →
    s.operations[j]? = some { op with inputs := op.inputs.map fun i =>
      if (i, j) ∈ done then copies.read p.backend i else i }
  copied : ∀ {i : OperandId} {b : BackendId} {v : OperandId}, copies.lookup (i, b) = some v →
    Copied m ps s i b v
  permute : ∀ {k : Nat} {op : Operation}, s.operations[m.operations.length + k]? = some op →
    ∃ i a b, op = ⟨[i], [m.operands.length + k], .permute a b⟩ ∧
      copies.lookup (i, b) = some (m.operands.length + k)
  covered : ∀ {i : OperandId} {j : OperationId}, (i, j) ∈ done →
    ∀ {p : Placement}, ps[j]? = some p → m.Crosses ps i p.backend →
    ∃ v, copies.lookup (i, p.backend) = some v
  same : s.inputs = m.inputs ∧ s.outputs = m.outputs ∧ s.phase = m.phase

namespace SplitAt

variable {m s : Model} {ps : List Placement} {done : List (OperandId × OperationId)}
  {copies : Copies}

theorem start (hlen : ps.length = m.operations.length) :
    SplitAt m ps [] [] { m with placements := ps } where
  operandCount := rfl
  operationCount := rfl
  placementCount := hlen
  operand := id
  placed := id
  original := by simp +contextual
  copied := by simp
  permute := by
    intro k op h
    obtain ⟨hk, -⟩ := List.getElem?_eq_some_iff.1 h
    change m.operations.length + k < m.operations.length at hk
    omega
  covered := by simp
  same := ⟨rfl, rfl, rfl⟩

/-- A copy is a new operand. -/
theorem length_le_copy (h : SplitAt m ps done copies s) {i : OperandId} {b : BackendId}
    {v : OperandId} (hv : copies.lookup (i, b) = some v) : m.operands.length ≤ v := by
  obtain ⟨k, a, rfl, -⟩ := (h.copied hv).permute
  exact Nat.le_add_right _ _

/-- An edge within one backend needs no copy. -/
theorem lookup_eq_none (h : SplitAt m ps done copies s) (hl : m.Linked) (hc : m.Checked)
    {i : OperandId} {w : OperationId} {b : BackendId} (hw : m.Writes w i) (hb : On ps w b) :
    copies.lookup (i, b) = none := by
  cases hv : copies.lookup (i, b) with
  | none => rfl
  | some v =>
    obtain ⟨⟨w', a, hw', ⟨q, hq, rfl⟩, hne⟩, -⟩ := (h.copied hv).crosses
    obtain rfl := hl.writes_unique hc hw hw'
    obtain ⟨p, hp, rfl⟩ := hb
    rw [hp, Option.some.injEq] at hq
    subst hq
    exact absurd rfl hne

/-- Nothing is to be done for an edge whose reader keeps reading the operand itself. -/
theorem skip (h : SplitAt m ps done copies s) {i : OperandId} {j : OperationId} {p : Placement}
    (hp : ps[j]? = some p) (hcross : ¬m.Crosses ps i p.backend)
    (hread : copies.lookup (i, p.backend) = none) :
    SplitAt m ps (done ++ [(i, j)]) copies s where
  operandCount := h.operandCount
  operationCount := h.operationCount
  placementCount := h.placementCount
  operand := h.operand
  placed := h.placed
  copied := h.copied
  permute := h.permute
  same := h.same
  original := by
    intro k op q hop hq
    rw [h.original hop hq]
    congr 2
    refine List.map_congr_left fun x _ => ?_
    by_cases hd : (x, k) ∈ done
    · simp [hd]
    · by_cases hx : (x, k) = (i, j)
      · obtain ⟨rfl, rfl⟩ := Prod.mk.inj hx
        rw [hp, Option.some.injEq] at hq
        subst hq
        simp [hd, Copies.read, hread]
      · simp [hd, hx]
  covered := by
    intro x k hd q hq hc
    rcases List.mem_append.1 hd with hd | hd
    · exact h.covered hd hq hc
    · simp only [List.mem_singleton, Prod.mk.injEq] at hd
      obtain ⟨rfl, rfl⟩ := hd
      rw [hp, Option.some.injEq] at hq
      subst hq
      exact absurd hc hcross

/-- A copy is not what is copied: what was replaced before is not replaced again. -/
theorem read_ne (h : SplitAt m ps done copies s) {i x v : OperandId} {b : BackendId}
    (hi : i < m.operands.length) (hv : copies.lookup (i, b) = some v) :
    copies.read b x ≠ i := by
  unfold Copies.read
  cases hu : copies.lookup (x, b) with
  | some u => exact Nat.ne_of_gt (Nat.lt_of_lt_of_le hi (h.length_le_copy hu))
  | none =>
    rintro rfl
    rw [Option.getD_none, hu] at hv
    cases hv

/-- What the operation `j` reads after one more of its operands was replaced. -/
theorem read_rewired (h : SplitAt m ps done copies s) {i v : OperandId} {j : OperationId}
    {b : BackendId} (hi : i < m.operands.length) (hv : copies.lookup (i, b) = some v)
    (x : OperandId) :
    (if (if (x, j) ∈ done then copies.read b x else x) = i then v
      else if (x, j) ∈ done then copies.read b x else x)
      = if (x, j) ∈ done ++ [(i, j)] then copies.read b x else x := by
  by_cases hd : (x, j) ∈ done
  · simp [hd, h.read_ne hi hv]
  · by_cases hxi : x = i
    · subst hxi
      simp [hd, Copies.read, hv]
    · simp [hd, hxi]

/-- An operation that is made to read the copy of an operand. -/
theorem rewire (h : SplitAt m ps done copies s) {i v : OperandId}
    {j : OperationId} {p : Placement} (hj : j < m.operations.length) (hp : ps[j]? = some p)
    (hi : i < m.operands.length) (hv : copies.lookup (i, p.backend) = some v) :
    SplitAt m ps (done ++ [(i, j)]) copies
      { s with operations := s.operations.modify j (·.replaceInput i v) } := by
  have hother : ∀ {k : OperationId}, j ≠ k →
      (s.operations.modify j (·.replaceInput i v))[k]? = s.operations[k]? := by
    intro k hk
    rw [List.getElem?_modify_ne _ _ hk]
  refine ⟨h.operandCount, by simpa using h.operationCount, h.placementCount, h.operand, h.placed,
    ?_, ?_, ?_, ?_, h.same⟩
  · intro k op q hop hq
    by_cases hk : j = k
    · subst hk
      rw [hp, Option.some.injEq] at hq
      subst hq
      rw [List.getElem?_modify_eq, h.original hop hp]
      simp only [Option.map_eq_map, Option.map_some, Operation.replaceInput, List.map_map,
        Option.some.injEq, Operation.mk.injEq, and_true]
      exact List.map_congr_left fun x _ => h.read_rewired hi hv x
    · rw [hother hk, h.original hop hq]
      congr 2
      refine List.map_congr_left fun x _ => ?_
      have : ¬(x = i ∧ k = j) := fun he => hk he.2.symm
      simp [this]
  · intro x b u hu
    obtain ⟨hcross, ⟨k, a, rfl, hop, hw⟩, hop'⟩ := h.copied hu
    refine ⟨hcross, ⟨k, a, rfl, ?_, hw⟩, hop'⟩
    have hne : j ≠ m.operations.length + k := Nat.ne_of_lt (Nat.lt_add_right k hj)
    rw [hother hne, hop]
  · intro k op hop
    have hne : j ≠ m.operations.length + k := Nat.ne_of_lt (Nat.lt_add_right k hj)
    rw [hother hne] at hop
    exact h.permute hop
  · intro x k hd q hq hcross
    rcases List.mem_append.1 hd with hd | hd
    · exact h.covered hd hq hcross
    · simp only [List.mem_singleton, Prod.mk.injEq] at hd
      obtain ⟨rfl, rfl⟩ := hd
      rw [hp, Option.some.injEq] at hq
      subst hq
      exact ⟨v, hv⟩

/-- The model after a copy of operand `i` for the placement `reader` was appended. -/
def withCopy (s : Model) (i : OperandId) (o : Operand) (source : BackendId) (reader : Placement) :
    Model :=
  { s with
    operands := s.operands ++ [{ shape := o.shape, type := o.type : Operand }]
    operations := s.operations ++
      [⟨[i], [s.operands.length], .permute source reader.backend⟩]
    placements := s.placements ++ [reader] }

theorem addCopy_eq {i : OperandId} {o : Operand} (ho : s.operands[i]? = some o)
    (source : BackendId) (reader : Placement) :
    outcome (addCopy i source reader) s
      = (.ok s.operands.length, withCopy s i o source reader) := by
  rw [addCopy, outcome_bind_of_ok (outcome_get s),
    outcome_bind_of_ok (outcome_check_of_ok (Operands.get_eq_ok.2 ho) s)]
  rfl

theorem lookup_copy {i x : OperandId} {b b' : BackendId} {v : OperandId} (v' : OperandId)
    (hnone : copies.lookup (i, b) = none) (hv : copies.lookup (x, b') = some v) :
    (((i, b), v') :: copies).lookup (x, b') = some v := by
  rw [List.lookup_cons]
  split
  · rename_i heq
    rw [beq_iff_eq] at heq
    rw [heq, hnone] at hv
    cases hv
  · exact hv

/-- A new copy changes nothing for the edges gone through: one that needed it would have made it. -/
theorem read_copy (h : SplitAt m ps done copies s) {i x : OperandId} {j : OperationId}
    {q : Placement} {b : BackendId} (v' : OperandId) (hcross : m.Crosses ps i b)
    (hnone : copies.lookup (i, b) = none) (hd : (x, j) ∈ done) (hq : ps[j]? = some q) :
    Copies.read (((i, b), v') :: copies) q.backend x = copies.read q.backend x := by
  unfold Copies.read
  cases hx : copies.lookup (x, q.backend) with
  | some v => rw [lookup_copy v' hnone hx]
  | none =>
    rw [List.lookup_cons]
    split
    · rename_i heq
      rw [beq_iff_eq, Prod.mk.injEq] at heq
      obtain ⟨rfl, hb⟩ := heq
      obtain ⟨v, hv⟩ := h.covered hd hq (hb ▸ hcross)
      rw [hx] at hv
      cases hv
    · rw [hx]

/-- The copies made before stay. -/
theorem copied_withCopy {x : OperandId} {b : BackendId} {v : OperandId}
    (h : Copied m ps s x b v) (i : OperandId) (o : Operand) (a : BackendId) (p : Placement) :
    Copied m ps (withCopy s i o a p) x b v := by
  obtain ⟨hc, ⟨k, a', hk, hop, hw, hne, q, hq, hb⟩, o', ho', hv⟩ := h
  exact ⟨hc, ⟨k, a', hk, getElem?_append_some hop, hw, hne, q, getElem?_append_some hq, hb⟩,
    o', ho', getElem?_append_some hv⟩

/-- The new copy is one. -/
theorem copied_new (h : SplitAt m ps done copies s) {i : OperandId} {o : Operand} {a : BackendId}
    {p : Placement} (ho : m.operands[i]? = some o) (hw : ∃ w, m.Writes w i ∧ On ps w a)
    (ha : a ≠ p.backend) (hcross : m.Crosses ps i p.backend) :
    Copied m ps (withCopy s i o a p) i p.backend s.operands.length := by
  refine ⟨hcross, ⟨copies.length, a, h.operandCount, ?_, hw, ha, p, ?_, rfl⟩, o, ho, ?_⟩
  · rw [← h.operationCount]
    simp [withCopy]
  · rw [← h.placementCount]
    simp [withCopy]
  · simp [withCopy]

/-- The operations that copy are those there were and the new one. -/
theorem permute_withCopy (h : SplitAt m ps done copies s) {i : OperandId} {o : Operand}
    {a : BackendId} {p : Placement} (hnone : copies.lookup (i, p.backend) = none) {k : Nat}
    {op : Operation} (hop : (withCopy s i o a p).operations[m.operations.length + k]? = some op) :
    ∃ x a' b, op = ⟨[x], [m.operands.length + k], .permute a' b⟩ ∧
      (((i, p.backend), s.operands.length) :: copies).lookup (x, b)
        = some (m.operands.length + k) := by
  simp only [withCopy, List.getElem?_append] at hop
  split at hop
  · obtain ⟨x, a', b, rfl, hv⟩ := h.permute hop
    exact ⟨x, a', b, rfl, lookup_copy _ hnone hv⟩
  · rename_i hk
    rw [h.operationCount] at hk hop
    obtain ⟨hlt, heq⟩ := List.getElem?_eq_some_iff.1 hop
    simp only [List.length_singleton] at hlt
    obtain rfl : k = copies.length := by omega
    simp only [Nat.sub_self, List.getElem_cons_zero] at heq
    exact ⟨i, a, p.backend, by rw [← heq, h.operandCount], by simp [h.operandCount]⟩

/-- **One copy.** An edge without a copy gets one; what the readers read stays. -/
theorem copy (h : SplitAt m ps done copies s) {i : OperandId} {o : Operand} {a : BackendId}
    {p : Placement} (ho : m.operands[i]? = some o) (hw : ∃ w, m.Writes w i ∧ On ps w a)
    (ha : a ≠ p.backend) (hr : ∃ j, m.Reads j i ∧ On ps j p.backend)
    (hnone : copies.lookup (i, p.backend) = none) :
    SplitAt m ps done (((i, p.backend), s.operands.length) :: copies) (withCopy s i o a p) := by
  have hcross : m.Crosses ps i p.backend := by
    obtain ⟨w, hw, hon⟩ := hw
    exact ⟨⟨w, a, hw, hon, ha⟩, hr⟩
  exact {
    operandCount := by simp [withCopy, h.operandCount, Nat.add_assoc]
    operationCount := by simp [withCopy, h.operationCount, Nat.add_assoc]
    placementCount := by simp [withCopy, h.placementCount, Nat.add_assoc]
    operand := fun hx => getElem?_append_some (h.operand hx)
    placed := fun hq => getElem?_append_some (h.placed hq)
    original := by
      intro j op q hop hq
      change (s.operations ++ _)[j]? = _
      rw [getElem?_append_some (h.original hop hq)]
      congr 2
      refine List.map_congr_left fun x _ => ?_
      by_cases hd : (x, j) ∈ done
      · simp only [hd, if_true, h.read_copy _ hcross hnone hd hq]
      · simp [hd]
    copied := by
      intro x b v hv
      rw [List.lookup_cons] at hv
      split at hv
      · rename_i heq
        rw [beq_iff_eq, Prod.mk.injEq] at heq
        obtain ⟨rfl, rfl⟩ := heq
        cases hv
        exact h.copied_new ho hw ha hcross
      · exact copied_withCopy (h.copied hv) i o a p
    permute := h.permute_withCopy hnone
    covered := by
      intro x j hd q hq hc
      obtain ⟨v, hv⟩ := h.covered hd hq hc
      exact ⟨v, lookup_copy _ hnone hv⟩
    same := h.same }

theorem placementOf_eq {j : OperationId} {p : Placement} (hp : s.placements[j]? = some p) :
    outcome (placementOf j) s = (.ok p, s) := by
  rw [placementOf, outcome_bind_of_ok (outcome_get s)]
  simp [hp]

/-- **One edge.** Whatever was split before, redirecting a reader succeeds, and splits the edge if
and only if it joins two backends. -/
theorem redirect (h : SplitAt m ps done copies s) (hl : m.Linked) (hc : m.Checked)
    (hlen : ps.length = m.operations.length) {w j : OperationId} {i : OperandId} {a : Placement}
    (hw : m.Writes w i) (ha : ps[w]? = some a) (hr : m.Reads j i) :
    ∃ copies' s', outcome (Model.redirect a i copies j) s = (.ok copies', s') ∧
      SplitAt m ps (done ++ [(i, j)]) copies' s' := by
  obtain ⟨op, hop, hi⟩ := hr
  have hj : j < m.operations.length := (List.getElem?_eq_some_iff.1 hop).1
  obtain ⟨p, hp⟩ : ∃ p, ps[j]? = some p := ⟨_, List.getElem?_eq_getElem (hlen ▸ hj)⟩
  have hlt := hc.input_lt (List.mem_of_getElem? hop) hi
  obtain ⟨o, ho⟩ : ∃ o, m.operands[i]? = some o := ⟨_, List.getElem?_eq_getElem hlt⟩
  rw [Model.redirect, outcome_bind_of_ok (placementOf_eq (h.placed hp))]
  by_cases hb : p.backend = a.backend
  · rw [if_pos hb]
    refine ⟨copies, s, rfl, h.skip hp ?_ (h.lookup_eq_none hl hc hw ⟨a, ha, hb.symm⟩)⟩
    rintro ⟨⟨w', b, hw', ⟨q, hq, rfl⟩, hne⟩, -⟩
    obtain rfl := hl.writes_unique hc hw hw'
    rw [ha, Option.some.injEq] at hq
    subst hq
    exact hne hb.symm
  · rw [if_neg hb]
    cases hv : copies.lookup (i, p.backend) with
    | some v =>
      refine ⟨copies, _, ?_, h.rewire hj hp hlt hv⟩
      simp only [hv]
      rfl
    | none =>
      have h' := h.copy (a := a.backend) ho ⟨w, hw, a, ha, rfl⟩ (fun he => hb he.symm)
        ⟨j, ⟨op, hop, hi⟩, p, hp, rfl⟩ hv
      refine ⟨_, _, ?_, h'.rewire (v := s.operands.length) hj hp hlt (by simp)⟩
      simp only [hv, outcome_bind_of_ok (addCopy_eq (h.operand ho) a.backend p)]
      rfl

/-- All readers of one operand. -/
theorem redirectAll (h : SplitAt m ps done copies s) (hl : m.Linked) (hc : m.Checked)
    (hlen : ps.length = m.operations.length) {w : OperationId} {i : OperandId} {a : Placement}
    (hw : m.Writes w i) (ha : ps[w]? = some a) {users : List OperationId}
    (hr : ∀ j ∈ users, m.Reads j i) :
    ∃ copies' s', outcome (users.foldlM (Model.redirect a i) copies) s = (.ok copies', s') ∧
      SplitAt m ps (done ++ users.map (i, ·)) copies' s' := by
  refine foldlM_total (fun l c s => SplitAt m ps (done ++ l.map (i, ·)) c s)
    (fun l j c s hj hs => ?_) (by simpa using h)
  obtain ⟨c', s', hok, hs'⟩ := hs.redirect hl hc hlen hw ha (hr j hj)
  exact ⟨c', s', hok, by simpa using hs'⟩

/-- All edges that leave one operation. -/
theorem splitEdges (h : SplitAt m ps done copies s) (hl : m.Linked) (hc : m.Checked)
    (hlen : ps.length = m.operations.length) {w : OperationId} (hw : w < m.operations.length) :
    ∃ copies' s' done', outcome (Model.splitEdges copies w) s = (.ok copies', s') ∧
      SplitAt m ps (done ++ done') copies' s' ∧
      ∀ i j, m.Writes w i → m.Reads j i → (i, j) ∈ done' := by
  obtain ⟨op, hop⟩ : ∃ op, m.operations[w]? = some op := ⟨_, List.getElem?_eq_getElem hw⟩
  obtain ⟨a, ha⟩ : ∃ a, ps[w]? = some a := ⟨_, List.getElem?_eq_getElem (hlen ▸ hw)⟩
  obtain ⟨i, hi⟩ := hc.output_eq (List.mem_of_getElem? hop)
  have hlt := hc.output_lt (List.mem_of_getElem? hop) (i := i) (by simp [hi])
  obtain ⟨o, ho⟩ : ∃ o, m.operands[i]? = some o := ⟨_, List.getElem?_eq_getElem hlt⟩
  have hwi : m.Writes w i := ⟨op, hop, by simp [hi]⟩
  obtain ⟨copies', s', hok, hs'⟩ := h.redirectAll hl hc hlen hwi ha fun j hj => (hl.uses ho j).1 hj
  refine ⟨copies', s', o.uses.map (i, ·), ?_, hs', ?_⟩
  · rw [Model.splitEdges, outcome_bind_of_ok (placementOf_eq (h.placed ha)),
      outcome_bind_of_ok (outcome_get s)]
    simp only [Model.operation, h.original hop ha, hi, List.foldlM_cons, List.foldlM_nil,
      outcome_bind, outcome_check, outcome_get, Operands.get_eq_ok.2 (h.operand ho), hok,
      outcome_pure]
  · rintro x j ⟨op', hop', hx⟩ hr
    rw [hop, Option.some.injEq] at hop'
    subst hop'
    rw [hi, List.mem_singleton] at hx
    subst hx
    exact List.mem_map.2 ⟨j, (hl.uses ho j).2 hr, rfl⟩

/-- **All edges.** Splitting the edges of a finished model succeeds and goes through every edge. -/
theorem splitAll (hl : m.Linked) (hc : m.Checked) (hlen : ps.length = m.operations.length) :
    ∃ copies s' done, outcome Model.splitAll { m with placements := ps } = (.ok (), s') ∧
      SplitAt m ps done copies s' ∧ ∀ w i j, m.Writes w i → m.Reads j i → (i, j) ∈ done := by
  let I (l : List OperationId) (c : Copies) (s : Model) : Prop := ∃ done, SplitAt m ps done c s ∧
    ∀ w ∈ l, ∀ i j, m.Writes w i → m.Reads j i → (i, j) ∈ done
  have step : ∀ l w c s, w ∈ List.range m.operations.length → I l c s →
      ∃ c' s', outcome (Model.splitEdges c w) s = (.ok c', s') ∧ I (l ++ [w]) c' s' := by
    rintro l w c s hw ⟨done, hs, hd⟩
    obtain ⟨c', s', done', hok, hs', hd'⟩ := hs.splitEdges hl hc hlen (List.mem_range.1 hw)
    refine ⟨c', s', hok, done ++ done', hs', fun v hv i j hvi hr => ?_⟩
    rcases List.mem_append.1 hv with hv | hv
    · exact List.mem_append_left _ (hd v hv i j hvi hr)
    · rw [List.mem_singleton] at hv
      subst hv
      exact List.mem_append_right _ (hd' i j hvi hr)
  obtain ⟨copies, s', hok, done, hs, hd⟩ :=
    foldlM_total I step (b := []) ⟨[], start hlen, by simp⟩
  refine ⟨copies, s', done, ?_, hs, fun w i j hw hr => hd w ?_ i j hw hr⟩
  · rw [Model.splitAll, outcome_bind_of_ok (outcome_get _), outcome_discard, hok]
    rfl
  · obtain ⟨op, hop, -⟩ := hw
    exact List.mem_range.2 (List.getElem?_eq_some_iff.1 hop).1

end SplitAt

end HeteroNet.Model
