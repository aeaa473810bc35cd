import HeteroNet.Proofs.Model.Splitting

/-
What lowering leaves. Once all edges are gone through, the lowered model is the finished one with
every operation reading the copies made for its backend, followed by the operations that write the
copies (`Split`). Linking and placing the operands afterwards changes neither the operations nor
where they run (`lower_leaves`).

`lower_splits_crossings` says it of the edges: the copies stand one to one for the pairs of an
operand and a backend that reads it without writing it, and no other operation reads across two
backends.
-/

namespace HeteroNet.Model

/-- The model `s` is `m` with all edges split. -/
structure Split (m : Model) (ps : List Placement) (copies : Copies) (s : Model) : Prop where
  operandCount : s.operands.length = m.operands.length + copies.length
  operationCount : s.operations.length = m.operations.length + copies.length
  placementCount : s.placements.length = m.operations.length + copies.length
  operand : ∀ {i : OperandId} {o : Operand}, m.operands[i]? = some o → s.operands[i]? = some o
  placed : ∀ {j : OperationId} {p : Placement}, ps[j]? = some p → s.placements[j]? = some p
  original : ∀ {j : OperationId} {op : Operation} {p : Placement}, m.operations[j]? = some op →
    ps[j]? = some p →
    s.operations[j]? = some { op with inputs := op.inputs.map (copies.read p.backend) }
  copied : ∀ {i : OperandId} {b : BackendId} {v : OperandId}, copies.lookup (i, b) = some v →
    Copied m ps s i b v
  permute : ∀ {k : Nat} {op : Operation}, s.operations[m.operations.length + k]? = some op →
    ∃ i a b, op = ⟨[i], [m.operands.length + k], .permute a b⟩ ∧
      copies.lookup (i, b) = some (m.operands.length + k)
  crossed : ∀ {i : OperandId} {b : BackendId}, m.Crosses ps i b →
    ∃ v, copies.lookup (i, b) = some v
  same : s.inputs = m.inputs ∧ s.outputs = m.outputs ∧ s.phase = m.phase

theorem SplitAt.split {m s : Model} {ps : List Placement} {done : List (OperandId × OperationId)}
    {copies : Copies} (h : SplitAt m ps done copies s)
    (hall : ∀ w i j, m.Writes w i → m.Reads j i → (i, j) ∈ done) : Split m ps copies s where
  operandCount := h.operandCount
  operationCount := h.operationCount
  placementCount := h.placementCount
  operand := h.operand
  placed := h.placed
  copied := h.copied
  permute := h.permute
  same := h.same
  original := by
    intro j op p hop hp
    rw [h.original hop hp]
    congr 2
    refine List.map_congr_left fun i hi => ?_
    by_cases hd : (i, j) ∈ done
    · simp [hd]
    · cases hv : copies.lookup (i, p.backend) with
      | none => simp [hd, Copies.read, hv]
      | some v =>
        obtain ⟨⟨w, a, hw, -⟩, -⟩ := (h.copied hv).crosses
        exact absurd (hall w i j hw ⟨op, hop, hi⟩) hd
  crossed := by
    rintro i b ⟨⟨w, a, hw, ha⟩, j, hr, p, hp, rfl⟩
    exact h.covered (hall w i j hw hr) hp ⟨⟨w, a, hw, ha⟩, j, hr, p, hp, rfl⟩

namespace Split

variable {m s : Model} {ps : List Placement} {copies : Copies}

/-- A copy and the operation that writes it have the same number among the added ones. -/
theorem copy_eq (h : Split m ps copies s) {i : OperandId} {b : BackendId} {v : OperandId}
    (hv : copies.lookup (i, b) = some v) :
    ∃ k a, v = m.operands.length + k ∧
      s.operations[m.operations.length + k]? = some ⟨[i], [v], .permute a b⟩ ∧
      (∃ w, m.Writes w i ∧ On ps w a) ∧ a ≠ b ∧ On s.placements (m.operations.length + k) b :=
  (h.copied hv).permute

/-- A copy is made of one operand, for one backend. -/
theorem copy_injective (h : Split m ps copies s) {x y : OperandId} {a b : BackendId}
    {v : OperandId} (hx : copies.lookup (x, a) = some v) (hy : copies.lookup (y, b) = some v) :
    x = y ∧ a = b := by
  obtain ⟨k, _, rfl, hopx, -⟩ := h.copy_eq hx
  obtain ⟨l, _, hl, hopy, -⟩ := h.copy_eq hy
  obtain rfl := Nat.add_left_cancel hl
  rw [hopx] at hopy
  simp only [Option.some.injEq, Operation.mk.injEq, List.cons.injEq, Attributes.permute.injEq,
    and_true] at hopy
  exact ⟨hopy.1, hopy.2.2.2⟩

/-- Every operation was there before, with its inputs replaced, or writes a copy. -/
theorem cases (h : Split m ps copies s) (hlen : ps.length = m.operations.length)
    {j : OperationId} {op : Operation} (hop : s.operations[j]? = some op) :
    (∃ op₀ p, m.operations[j]? = some op₀ ∧ ps[j]? = some p ∧ s.placements[j]? = some p ∧
      op = { op₀ with inputs := op₀.inputs.map (copies.read p.backend) }) ∨
    ∃ k i a b, j = m.operations.length + k ∧ op = ⟨[i], [m.operands.length + k], .permute a b⟩ ∧
      copies.lookup (i, b) = some (m.operands.length + k) ∧
      (∃ w, m.Writes w i ∧ On ps w a) ∧ a ≠ b ∧ On s.placements j b := by
  rcases Nat.lt_or_ge j m.operations.length with hj | hj
  · obtain ⟨op₀, hop₀⟩ : ∃ op₀, m.operations[j]? = some op₀ := ⟨_, List.getElem?_eq_getElem hj⟩
    obtain ⟨p, hp⟩ : ∃ p, ps[j]? = some p := ⟨_, List.getElem?_eq_getElem (hlen ▸ hj)⟩
    rw [h.original hop₀ hp, Option.some.injEq] at hop
    exact .inl ⟨op₀, p, hop₀, hp, h.placed hp, hop.symm⟩
  · obtain ⟨k, rfl⟩ := Nat.exists_eq_add_of_le hj
    obtain ⟨i, a, b, rfl, hv⟩ := h.permute hop
    obtain ⟨k', a', hk, hop', hw, hne, hon⟩ := h.copy_eq hv
    obtain rfl := Nat.add_left_cancel hk
    rw [hop] at hop'
    simp only [Option.some.injEq, Operation.mk.injEq, Attributes.permute.injEq, and_true,
      true_and] at hop'
    subst hop'
    exact .inr ⟨k, i, a, b, rfl, rfl, hv, hw, hne, hon⟩

/-- The writer of an operand that was there before is the one it had. -/
theorem writes_iff (h : Split m ps copies s) (hlen : ps.length = m.operations.length)
    {w : OperationId} {i : OperandId} (hi : i < m.operands.length) : s.Writes w i ↔ m.Writes w i := by
  constructor
  · rintro ⟨op, hop, ho⟩
    rcases h.cases hlen hop with ⟨op₀, p, hop₀, -, -, rfl⟩ | ⟨k, x, a, b, rfl, rfl, -⟩
    · exact ⟨op₀, hop₀, ho⟩
    · rw [List.mem_singleton] at ho
      exact absurd ho (Nat.ne_of_lt (Nat.lt_add_right k hi))
  · rintro ⟨op, hop, ho⟩
    obtain ⟨p, hp⟩ : ∃ p, ps[w]? = some p :=
      ⟨_, List.getElem?_eq_getElem (hlen ▸ (List.getElem?_eq_some_iff.1 hop).1)⟩
    exact ⟨_, h.original hop hp, ho⟩

/-- A copy has one writer, on the backend it is made for. -/
theorem writes_copy (h : Split m ps copies s) (hc : m.Checked)
    (hlen : ps.length = m.operations.length) {i v : OperandId} {b : BackendId}
    (hv : copies.lookup (i, b) = some v) {w : OperationId} (hw : s.Writes w v) :
    On s.placements w b := by
  obtain ⟨k, a, rfl, -, -, -, hon⟩ := h.copy_eq hv
  obtain ⟨op, hop, ho⟩ := hw
  rcases h.cases hlen hop with ⟨op₀, p, hop₀, -, -, rfl⟩ | ⟨k', x, a', b', rfl, rfl, -⟩
  · exact absurd (hc.output_lt (List.mem_of_getElem? hop₀) ho)
      (Nat.not_lt.2 (Nat.le_add_right _ _))
  · rw [List.mem_singleton] at ho
    obtain rfl := Nat.add_left_cancel ho
    exact hon

theorem on_unique {j : OperationId} {a b : BackendId} (ha : On ps j a) (hb : On ps j b) :
    a = b := by
  obtain ⟨p, hp, rfl⟩ := ha
  obtain ⟨q, hq, rfl⟩ := hb
  rw [hp, Option.some.injEq] at hq
  rw [hq]

/-- An operation that was there before reads on its own backend only. -/
theorem writer_on (h : Split m ps copies s) (hc : m.Checked)
    (hlen : ps.length = m.operations.length) {j w : OperationId} {op₀ : Operation} {p : Placement}
    (hop₀ : m.operations[j]? = some op₀) (hp : ps[j]? = some p) {i : OperandId}
    (hi : i ∈ op₀.inputs.map (copies.read p.backend)) (hw : s.Writes w i) :
    On s.placements w p.backend := by
  obtain ⟨x, hx, rfl⟩ := List.mem_map.1 hi
  cases hv : copies.lookup (x, p.backend) with
  | some v =>
    simp only [Copies.read, hv, Option.getD_some] at hw
    exact h.writes_copy hc hlen hv hw
  | none =>
    simp only [Copies.read, hv, Option.getD_none] at hw
    have hlt := hc.input_lt (List.mem_of_getElem? hop₀) hx
    have hmw := (h.writes_iff hlen hlt).1 hw
    obtain ⟨op, hop, -⟩ := id hmw
    obtain ⟨q, hq⟩ : ∃ q, ps[w]? = some q :=
      ⟨_, List.getElem?_eq_getElem (hlen ▸ (List.getElem?_eq_some_iff.1 hop).1)⟩
    refine ⟨q, h.placed hq, ?_⟩
    -- Otherwise the operand would have a copy.
    by_contra hne
    obtain ⟨v, hv'⟩ := h.crossed (i := x) (b := p.backend)
      ⟨⟨w, q.backend, hmw, ⟨q, hq, rfl⟩, hne⟩, j, ⟨op₀, hop₀, hx⟩, p, hp, rfl⟩
    rw [hv] at hv'
    cases hv'

end Split

/-! ## After the splitting -/

/-- The operand without the record of its backends. -/
def unplaced (o : Operand) : Operand := { o with placement := none }

/-- The models differ at most in what is recorded of the backends of their operands. -/
structure Replaced (m m' : Model) : Prop where
  operands : m'.operands.map unplaced = m.operands.map unplaced
  operations : m'.operations = m.operations
  placements : m'.placements = m.placements
  inputs : m'.inputs = m.inputs
  outputs : m'.outputs = m.outputs
  phase : m'.phase = m.phase

theorem Replaced.refl {m : Model} : Replaced m m := ⟨rfl, rfl, rfl, rfl, rfl, rfl⟩

theorem Replaced.trans {m₁ m₂ m₃ : Model} (h₁ : Replaced m₁ m₂) (h₂ : Replaced m₂ m₃) :
    Replaced m₁ m₃ :=
  ⟨h₂.operands.trans h₁.operands, h₂.operations.trans h₁.operations,
    h₂.placements.trans h₁.placements, h₂.inputs.trans h₁.inputs, h₂.outputs.trans h₁.outputs,
    h₂.phase.trans h₁.phase⟩

theorem Replaced.operand {m m' : Model} (h : Replaced m m') {i : OperandId} {o' : Operand}
    (ho : m'.operands[i]? = some o') :
    ∃ o, m.operands[i]? = some o ∧ unplaced o' = unplaced o := by
  have hi := congrArg (·[i]?) h.operands
  simp only [List.getElem?_map, ho, Option.map_some] at hi
  obtain ⟨o, ho, he⟩ := Option.map_eq_some_iff.1 hi.symm
  exact ⟨o, ho, he.symm⟩

theorem replaced_updatePlacement (i : OperandId) (f : OperandPlacement → OperandPlacement)
    (m : Model) : Replaced m (m.updatePlacement i f) := by
  refine ⟨?_, rfl, rfl, rfl, rfl, rfl⟩
  refine List.ext_getElem? fun k => ?_
  simp only [updatePlacement, List.getElem?_map, List.getElem?_modify]
  cases m.operands[k]? with
  | none => rfl
  | some o => by_cases h : i = k <;> simp [h, unplaced]

theorem replaced_foldl {α : Type} {f : Model → α → Model} (hf : ∀ m a, Replaced m (f m a)) :
    ∀ (l : List α) (m : Model), Replaced m (l.foldl f m)
  | [], _ => .refl
  | a :: l, m => (hf m a).trans (replaced_foldl hf l (f m a))

/-- Placing the operands changes nothing else. -/
theorem replaced_placeOperands (m : Model) : Replaced m m.placeOperands := by
  have hclear : Replaced m
      { m with operands := m.operands.map fun o => { o with placement := none } } := by
    refine ⟨?_, rfl, rfl, rfl, rfl, rfl⟩
    simp [List.map_map, Function.comp_def, unplaced]
  refine hclear.trans (replaced_foldl (fun acc (op, p) => ?_) _ _)
  exact (replaced_foldl (fun acc i => replaced_updatePlacement i _ acc) _ _).trans
    (replaced_foldl (fun acc i => replaced_updatePlacement i _ acc) _ _)

theorem Replaced.linked {m m' : Model} (h : Replaced m m') (hl : m.Linked) : m'.Linked := by
  constructor
  · intro i o' ho' j
    obtain ⟨o, ho, he⟩ := h.operand ho'
    have hu : o'.uses = o.uses := (congrArg Operand.uses he :)
    rw [hu, hl.uses ho j, Reads, Reads, h.operations]
  · intro i o' ho' j
    obtain ⟨o, ho, he⟩ := h.operand ho'
    have hw : o'.writer = o.writer := (congrArg Operand.writer he :)
    rw [hw, hl.writer ho j, Writes, Writes, h.operations]

/-- Lowering a model that succeeds. -/
theorem lower_ok {m m' : Model} {ps : List Placement} (h : outcome (lower ps) m = (.ok (), m')) :
    m.phase = .finished ∧ ps.length = m.operations.length ∧
      ∃ m₁ m₂, outcome splitAll { m with placements := ps } = (.ok (), m₁) ∧
        outcome link m₁ = (.ok (), m₂) ∧ m₂.placeOperands.check = .ok () ∧
        m' = { m₂.placeOperands with phase := .lowered } := by
  simp only [lower, outcome_bind_ok, outcome_get, outcome_check, Prod.mk.injEq,
    Except.ok.injEq] at h
  obtain ⟨_, _, ⟨rfl, rfl⟩, _, _, ⟨hphase, rfl⟩, h⟩ := h
  split at h
  · simp at h
  · rename_i hlen
    simp only [outcome_bind_ok, outcome_set, outcome_get, outcome_check, outcome_modify,
      Prod.mk.injEq, Except.ok.injEq] at h
    obtain ⟨_, _, ⟨-, rfl⟩, _, m₁, hsplit, _, m₂, hlink, _, _, ⟨-, rfl⟩, _, _, ⟨rfl, rfl⟩, _, _,
      ⟨hcheck, rfl⟩, -, rfl⟩ := h
    exact ⟨requirePhase_ok.1 hphase, Decidable.not_not.1 hlen, m₁, m₂, hsplit, hlink, hcheck, rfl⟩

/-- A lowered model is linked and checked. -/
theorem lower_linked {m m' : Model} {ps : List Placement}
    (h : outcome (lower ps) m = (.ok (), m')) : m'.Linked ∧ m'.Checked ∧ m'.phase = .lowered := by
  obtain ⟨-, -, m₁, m₂, -, hlink, hcheck, rfl⟩ := lower_ok h
  exact ⟨((replaced_placeOperands m₂).linked (link_ok hlink)).withPhase _,
    (check_ok.1 hcheck).withPhase _, rfl⟩

/-- The operations of a finished model after it is lowered, whether the checks that follow the
splitting pass or not. -/
theorem lower_leaves {m : Model} {ps : List Placement} (hl : m.Linked) (hc : m.Checked)
    (hphase : m.phase = .finished) (hlen : ps.length = m.operations.length) :
    ∃ copies s, Split m ps copies s ∧ (outcome (lower ps) m).2.operations = s.operations ∧
      (outcome (lower ps) m).2.placements = s.placements := by
  obtain ⟨copies, s, done, hsplit, hs, hall⟩ := SplitAt.splitAll hl hc hlen
  refine ⟨copies, s, hs.split hall, ?_⟩
  rw [lower, outcome_bind_of_ok (outcome_get m),
    outcome_bind_of_ok (outcome_check_of_ok (requirePhase_ok.2 hphase) m),
    if_neg (not_not.2 hlen), outcome_bind_of_ok (outcome_set _ _), outcome_bind_of_ok hsplit,
    outcome_bind]
  have hk := keeps_link s
  revert hk
  obtain ⟨r, m₂⟩ := outcome link s
  intro hk
  cases r with
  | error e => exact ⟨hk.operations, hk.placements⟩
  | ok u =>
    have hr := replaced_placeOperands m₂
    have ho := hr.operations.trans hk.operations
    have hp := hr.placements.trans hk.placements
    simp only [outcome_bind_of_ok (outcome_modify _ _), outcome_bind_of_ok (outcome_get _),
      outcome_bind, outcome_check]
    cases m₂.placeOperands.check with
    | error e => exact ⟨ho, hp⟩
    | ok v => exact ⟨ho, hp⟩

/-! ## The edges of a lowered model -/

/-- Operation `j` copies operand `i` to operand `c` for backend `b`. -/
def PermuteOf (s : Model) (j : OperationId) (i : OperandId) (b : BackendId) (c : OperandId) :
    Prop :=
  ∃ a, s.operations[j]? = some ⟨[i], [c], .permute a b⟩

/-- The model `s` is `m` with exactly the edges between two backends split. -/
structure SplitsCrossings (m : Model) (ps : List Placement) (s : Model) : Prop where
  /-- An operation that copies nothing reads what its own backend writes, or what is not
  written. -/
  within : ∀ {j : OperationId} {op : Operation}, s.operations[j]? = some op →
    op.kind ≠ .permute → ∀ i ∈ op.inputs, ∀ w, s.Writes w i →
      ∃ b, On s.placements j b ∧ On s.placements w b
  /-- A `permute` copies one operand from the backend of its writer to the backend it is placed
  on, which is another one. -/
  across : ∀ {j : OperationId} {op : Operation}, s.operations[j]? = some op →
    op.kind = .permute → ∃ i c a b, op = ⟨[i], [c], .permute a b⟩ ∧
      On s.placements j b ∧ a ≠ b ∧ (∃ w, s.Writes w i) ∧ ∀ w, s.Writes w i → On s.placements w a
  /-- Only pairs of an operand and a backend that reads it across have a `permute`. -/
  needed : ∀ {j : OperationId} {i c : OperandId} {b : BackendId}, s.PermuteOf j i b c →
    m.Crosses ps i b
  /-- Each such pair has one. -/
  unique : ∀ {i : OperandId} {b : BackendId}, m.Crosses ps i b → ∃! j, ∃ c, s.PermuteOf j i b c
  /-- Every reader on that backend reads the copy, at every place where it read the operand. -/
  readers : ∀ {j : OperationId} {i c : OperandId} {b : BackendId}, s.PermuteOf j i b c →
    ∀ {r : OperationId} {op : Operation}, m.operations[r]? = some op → On ps r b →
      ∃ op', s.operations[r]? = some op' ∧
        ∀ k : Nat, op.inputs[k]? = some i → op'.inputs[k]? = some c

namespace Split

variable {m s : Model} {ps : List Placement} {copies : Copies}

/-- The operations that copy are the added ones. -/
theorem permuteOf_iff (h : Split m ps copies s) (hlen : ps.length = m.operations.length)
    (hplain : ∀ op ∈ m.operations, op.kind ≠ .permute) {j : OperationId} {i c : OperandId}
    {b : BackendId} : s.PermuteOf j i b c ↔
      ∃ k, j = m.operations.length + k ∧ c = m.operands.length + k ∧
        copies.lookup (i, b) = some c := by
  constructor
  · rintro ⟨a, hop⟩
    rcases h.cases hlen hop with ⟨op₀, p, hop₀, -, -, he⟩ | ⟨k, x, a', b', rfl, he, hv, -⟩
    · have hkind : op₀.kind = .permute := by
        have := congrArg Operation.kind he
        exact this.symm
      exact absurd hkind (hplain op₀ (List.mem_of_getElem? hop₀))
    · simp only [Operation.mk.injEq, List.cons.injEq, and_true, Attributes.permute.injEq] at he
      obtain ⟨rfl, rfl, rfl, rfl⟩ := he
      exact ⟨k, rfl, rfl, hv⟩
  · rintro ⟨k, rfl, rfl, hv⟩
    obtain ⟨k', a, hk, hop, -⟩ := h.copy_eq hv
    obtain rfl := Nat.add_left_cancel hk
    exact ⟨a, hop⟩

theorem splitsCrossings (h : Split m ps copies s) (hl : m.Linked) (hc : m.Checked)
    (hlen : ps.length = m.operations.length)
    (hplain : ∀ op ∈ m.operations, op.kind ≠ .permute) : SplitsCrossings m ps s where
  within := by
    intro j op hop hkind i hi w hw
    rcases h.cases hlen hop with ⟨op₀, p, hop₀, hp, hp', rfl⟩ | ⟨k, x, a, b, -, rfl, -⟩
    · exact ⟨p.backend, ⟨p, hp', rfl⟩, h.writer_on hc hlen hop₀ hp hi hw⟩
    · exact absurd rfl hkind
  across := by
    intro j op hop hkind
    rcases h.cases hlen hop with ⟨op₀, p, hop₀, -, -, rfl⟩ | ⟨k, i, a, b, -, rfl, -, hw, hne, hon⟩
    · exact absurd hkind (hplain op₀ (List.mem_of_getElem? hop₀))
    · obtain ⟨w, hmw, p, hp, rfl⟩ := hw
      have hlt : i < m.operands.length := by
        obtain ⟨op, hop, hi⟩ := hmw
        exact hc.output_lt (List.mem_of_getElem? hop) hi
      refine ⟨i, _, _, b, rfl, hon, hne, ⟨w, (h.writes_iff hlen hlt).2 hmw⟩, fun w' hw' => ?_⟩
      obtain rfl := hl.writes_unique hc hmw ((h.writes_iff hlen hlt).1 hw')
      exact ⟨p, h.placed hp, rfl⟩
  needed := by
    intro j i c b hj
    obtain ⟨k, -, -, hv⟩ := (h.permuteOf_iff hlen hplain).1 hj
    exact (h.copied hv).crosses
  unique := by
    intro i b hcross
    obtain ⟨v, hv⟩ := h.crossed hcross
    obtain ⟨k, -, rfl, -⟩ := h.copy_eq hv
    refine ⟨m.operations.length + k, ⟨_, (h.permuteOf_iff hlen hplain).2 ⟨k, rfl, rfl, hv⟩⟩, ?_⟩
    rintro j ⟨c, hj⟩
    obtain ⟨k', rfl, rfl, hv'⟩ := (h.permuteOf_iff hlen hplain).1 hj
    rw [hv, Option.some.injEq] at hv'
    rw [Nat.add_left_cancel hv']
  readers := by
    rintro j i c b hj r op hop ⟨p, hp, rfl⟩
    obtain ⟨k, -, -, hv⟩ := (h.permuteOf_iff hlen hplain).1 hj
    refine ⟨_, h.original hop hp, fun k hk => ?_⟩
    simp [List.getElem?_map, hk, Copies.read, hv]

end Split

/-- What is said of the edges concerns the operations and where they run. -/
theorem SplitsCrossings.congr {m s s' : Model} {ps : List Placement} (h : SplitsCrossings m ps s)
    (hops : s'.operations = s.operations) (hps : s'.placements = s.placements) :
    SplitsCrossings m ps s' := by
  obtain ⟨os, ops, pl, ins, outs, ph⟩ := s
  obtain ⟨os', ops', pl', ins', outs', ph'⟩ := s'
  obtain rfl : ops' = ops := hops
  obtain rfl : pl' = pl := hps
  exact ⟨h.within, h.across, h.needed, h.unique, h.readers⟩

/-- **Lowering splits exactly the edges between two backends**, for every finished model that
copies nothing itself and every choice of a backend for each operation. This holds of the model
that the call leaves, whatever the checks at its end say. -/
theorem lower_splits_crossings {m₀ m : Model} {ps : List Placement}
    (hfinish : finish.on m₀ = (.ok (), m)) (hplain : ∀ op ∈ m.operations, op.kind ≠ .permute)
    (hlen : ps.length = m.operations.length) : SplitsCrossings m ps ((lower ps).on m).2 := by
  obtain ⟨hl, hc, hphase⟩ := finish_linked hfinish
  obtain ⟨copies, s, hs, hops, hps⟩ := lower_leaves hl hc hphase hlen
  exact (hs.splitsCrossings hl hc hlen hplain).congr hops hps

/-- A model whose input is read on two backends: directly on one, and there also as both summands;
and the sum is read on the other. -/
def fannedOut : Model :=
  let x : Operand := { shape := [1, 2], type := { element := .float32 } }
  let code : Operand :=
    { shape := [], type := { element := .scalarInt32 }, data := some [0, 0, 0, 0] }
  { operands := [x, x, x, x, x, code]
    operations := [⟨[0], [1], .nop⟩, ⟨[1, 1], [2], .add 5⟩, ⟨[1], [3], .nop⟩, ⟨[2, 3], [4], .add 5⟩]
    inputs := [0]
    outputs := [4] }

/-- The first and the last operation of `fannedOut` on the host, the others on the device. -/
def fannedPlacements : List Placement :=
  [⟨"cpu", .nhwc⟩, ⟨"gpu", .nchw⟩, ⟨"gpu", .nchw⟩, ⟨"cpu", .nhwc⟩]

/-- The two operations on the device share the copy of what the first writes. -/
theorem lower_splits_fannedOut :
    SplitsCrossings (finish.on fannedOut).2 fannedPlacements
      ((lower fannedPlacements).on (finish.on fannedOut).2).2 := by
  have hfinish : finish.on fannedOut = (.ok (), (finish.on fannedOut).2) :=
    outcome_eq (by decide +kernel)
  exact lower_splits_crossings hfinish (by decide +kernel) (by decide +kernel)

end HeteroNet.Model
