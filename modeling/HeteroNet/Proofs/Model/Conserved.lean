import HeteroNet.Proofs.Model.WellFormed

/-
Lowering is total, and it takes nothing away (`lower_conserves`). Splitting the edges of a
well-formed graph leaves a well-formed graph, so linking and checking afterwards cannot fail: no
call that starts with one backend an operation ends half way.

That the rewritten graph has no cycle is seen by numbering it. If the numbers of the operations
that were there grow along every edge, doubling them leaves room between the writer of an operand
and its readers, and the operations that copy the operand get the number just above its writer's.

What is conserved is stated with the rewriting undone (`uncopied`): an operand that was there stands
for itself, and a copy for what the operation that writes it reads.
-/

namespace HeteroNet.Model

/-! ## A model with all edges split -/

namespace Split

variable {m s : Model} {ps : List Placement} {copies : Copies}

theorem copy_ge (h : Split m ps copies s) {i v : OperandId} {b : BackendId}
    (hv : copies.lookup (i, b) = some v) : m.operands.length ≤ v := by
  obtain ⟨k, -, rfl, -⟩ := h.copy_eq hv
  exact Nat.le_add_right _ _

/-- What is copied is written and was there before. -/
theorem copied_written (h : Split m ps copies s) (hw : m.WellFormed) {i v : OperandId}
    {b : BackendId} (hv : copies.lookup (i, b) = some v) :
    i < m.operands.length ∧ ∃ w, m.Writes w i := by
  obtain ⟨⟨w, -, hwi, -⟩, -⟩ := (h.copied hv).crosses
  exact ⟨hw.writes_lt hwi, w, hwi⟩

/-- What an operation reads: an operation that was there reads what it read before or a copy of it,
and one that copies reads what it copies. -/
theorem reads_cases (h : Split m ps copies s) (hlen : ps.length = m.operations.length)
    {j : OperationId} {i : OperandId} (hr : s.Reads j i) :
    (j < m.operations.length ∧ ∃ x b, m.Reads j x ∧ i = copies.read b x) ∨
      ∃ k b, j = m.operations.length + k ∧ copies.lookup (i, b) = some (m.operands.length + k) := by
  obtain ⟨op, hop, hi⟩ := hr
  rcases h.cases hlen hop with ⟨op₀, p, hop₀, -, -, rfl⟩ | ⟨k, x, a, b, rfl, rfl, hv, -⟩
  · obtain ⟨x, hx, rfl⟩ := List.mem_map.1 hi
    exact .inl ⟨(List.getElem?_eq_some_iff.1 hop₀).1, x, p.backend, ⟨op₀, hop₀, hx⟩, rfl⟩
  · obtain rfl := List.mem_singleton.1 hi
    exact .inr ⟨k, b, rfl, hv⟩

/-- What an operation writes: one that was there what it wrote before, one that copies its copy. -/
theorem writes_cases (h : Split m ps copies s) (hlen : ps.length = m.operations.length)
    {j : OperationId} {i : OperandId} (hw : s.Writes j i) :
    (j < m.operations.length ∧ m.Writes j i) ∨
      ∃ k x b, j = m.operations.length + k ∧ i = m.operands.length + k ∧
        copies.lookup (x, b) = some i ∧ s.Reads j x := by
  obtain ⟨op, hop, hi⟩ := hw
  rcases h.cases hlen hop with ⟨op₀, p, hop₀, -, -, rfl⟩ | ⟨k, x, a, b, rfl, rfl, hv, -⟩
  · exact .inl ⟨(List.getElem?_eq_some_iff.1 hop₀).1, op₀, hop₀, hi⟩
  · obtain rfl := List.mem_singleton.1 hi
    exact .inr ⟨k, x, b, rfl, rfl, hv, _, hop, List.mem_singleton_self x⟩

theorem read_eq_or (copies : Copies) (b : BackendId) (x : OperandId) :
    copies.read b x = x ∨ copies.lookup (x, b) = some (copies.read b x) := by
  unfold Copies.read
  cases copies.lookup (x, b) with
  | none => exact .inl rfl
  | some v => exact .inr rfl

/-- An operand that was there and is read by an operation that was there was read by it before. -/
theorem reads_original (h : Split m ps copies s) (hlen : ps.length = m.operations.length)
    {j : OperationId} {i : OperandId} (hj : j < m.operations.length) (hi : i < m.operands.length)
    (hr : s.Reads j i) : m.Reads j i := by
  rcases h.reads_cases hlen hr with ⟨-, x, b, hx, rfl⟩ | ⟨k, b, rfl, -⟩
  · rcases read_eq_or copies b x with he | hv
    · exact he.symm ▸ hx
    · exact absurd (h.copy_ge hv) (Nat.not_le.2 hi)
  · exact absurd hj (Nat.not_lt.2 (Nat.le_add_right _ _))

/-- An operation that copies reads one operand. -/
theorem reads_single (h : Split m ps copies s) (hlen : ps.length = m.operations.length)
    {j : OperationId} {i i' : OperandId} (hj : m.operations.length ≤ j) (hi : s.Reads j i)
    (hi' : s.Reads j i') : i = i' := by
  obtain ⟨hj', -⟩ | ⟨k, b, rfl, hv⟩ := h.reads_cases hlen hi
  · exact absurd hj' (Nat.not_lt.2 hj)
  obtain ⟨hj', -⟩ | ⟨k', b', hk, hv'⟩ := h.reads_cases hlen hi'
  · exact absurd hj' (Nat.not_lt.2 hj)
  obtain rfl := Nat.add_left_cancel hk
  exact (h.copy_injective hv hv').1

/-- Whoever reads a copy was there before, and read what is copied. -/
theorem reads_copy (h : Split m ps copies s) (hlen : ps.length = m.operations.length)
    (hw : m.WellFormed) {x v : OperandId} {b : BackendId} {k : OperationId}
    (hv : copies.lookup (x, b) = some v) (hk : s.Reads k v) :
    k < m.operations.length ∧ m.Reads k x := by
  rcases h.reads_cases hlen hk with ⟨hklt, y, b', hy, rfl⟩ | ⟨l, b', -, hv'⟩
  · refine ⟨hklt, ?_⟩
    rcases read_eq_or copies b' y with hself | hcopy
    · obtain ⟨op, hop, hy⟩ := hy
      have hylt := hw.named (List.mem_of_getElem? hop) (i := y) (by simp [Operation.operands, hy])
      rw [hself] at hv
      exact absurd hylt (Nat.not_lt.2 (h.copy_ge hv))
    · obtain ⟨rfl, -⟩ := h.copy_injective hv hcopy
      exact hy
  · exact absurd (h.copied_written hw hv').1 (Nat.not_lt.2 (h.copy_ge hv))

/-- Numbers for the operations: those that were there get twice what they had, and one that copies
the number just above that of the writer. -/
theorem exists_spread (h : Split m ps copies s) (hlen : ps.length = m.operations.length)
    (hw : m.WellFormed) (rank : OperationId → Nat) : ∃ rank' : OperationId → Nat,
      (∀ j, j < m.operations.length → rank' j = 2 * rank j) ∧
      ∀ j i w, m.operations.length ≤ j → s.Reads j i → m.Writes w i →
        rank' j = 2 * rank w + 1 := by
  have hspread : ∀ j, ∃ n, (j < m.operations.length → n = 2 * rank j) ∧
      ∀ i w, m.operations.length ≤ j → s.Reads j i → m.Writes w i → n = 2 * rank w + 1 := by
    intro j
    rcases Nat.lt_or_ge j m.operations.length with hj | hj
    · exact ⟨2 * rank j, fun _ => rfl, fun _ _ hj' => absurd hj (Nat.not_lt.2 hj')⟩
    by_cases hex : ∃ i w, s.Reads j i ∧ m.Writes w i
    · obtain ⟨i, w, hi, hwi⟩ := hex
      refine ⟨2 * rank w + 1, fun hj' => absurd hj' (Nat.not_lt.2 hj), fun i' w' _ hi' hwi' => ?_⟩
      obtain rfl := h.reads_single hlen hj hi hi'
      rw [hw.single hwi hwi']
    · exact ⟨0, fun hj' => absurd hj' (Nat.not_lt.2 hj),
        fun i w _ hi hwi => absurd ⟨i, w, hi, hwi⟩ hex⟩
  choose rank' hold hnew using hspread
  exact ⟨rank', hold, hnew⟩

/-- Numbers that grow along the edges of a model can be spread so that there is room for the
operations that copy. -/
theorem exists_rank (h : Split m ps copies s) (hlen : ps.length = m.operations.length)
    (hw : m.WellFormed) {rank : OperationId → Nat} (hrank : ∀ j k, m.Feeds j k → rank j < rank k) :
    ∃ rank' : OperationId → Nat, ∀ j k, s.Feeds j k → rank' j < rank' k := by
  obtain ⟨rank', hold, hnew⟩ := h.exists_spread hlen hw rank
  refine ⟨rank', fun j k hjk => ?_⟩
  obtain ⟨i, hj, hk⟩ := hjk
  rcases h.writes_cases hlen hj with ⟨hjlt, hji⟩ | ⟨l, x, b, rfl, -, hv, hx⟩
  · have hilt := hw.writes_lt hji
    rw [hold j hjlt]
    rcases Nat.lt_or_ge k m.operations.length with hklt | hkge
    · have hlt := hrank j k ⟨i, hji, h.reads_original hlen hklt hilt hk⟩
      rw [hold k hklt]
      omega
    · rw [hnew k i j hkge hk hji]
      omega
  · -- The writer copies `x`, so that the reader was a reader of `x`.
    obtain ⟨-, w, hwx⟩ := h.copied_written hw hv
    obtain ⟨hklt, hkx⟩ := h.reads_copy hlen hw hv hk
    have hlt := hrank w k ⟨x, hwx, hkx⟩
    rw [hnew _ x w (Nat.le_add_right _ _) hx hwx, hold k hklt]
    omega

/-- An operand that was there is constant if it was. -/
theorem constant_iff (h : Split m ps copies s) {i : OperandId} (hi : i < m.operands.length) :
    s.Constant i ↔ m.Constant i := by
  have ho := List.getElem?_eq_getElem hi
  simp only [Constant, ho, h.operand ho]

/-- Copies are not. -/
theorem copy_not_constant (h : Split m ps copies s) {i v : OperandId} {b : BackendId}
    (hv : copies.lookup (i, b) = some v) : ¬s.Constant v := by
  obtain ⟨o, -, ho⟩ := (h.copied hv).operand
  rintro ⟨o', ho', hdata⟩
  rw [ho, Option.some.injEq] at ho'
  rw [← ho'] at hdata
  cases hdata

/-- A copy is written by the operation that copies. -/
theorem copy_written (h : Split m ps copies s) {i v : OperandId} {b : BackendId}
    (hv : copies.lookup (i, b) = some v) : ∃ j, s.Writes j v := by
  obtain ⟨k, a, -, hop, -⟩ := h.copy_eq hv
  exact ⟨_, _, hop, List.mem_singleton_self v⟩

theorem copy_lt (h : Split m ps copies s) {i v : OperandId} {b : BackendId}
    (hv : copies.lookup (i, b) = some v) : v < s.operands.length := by
  obtain ⟨o, -, ho⟩ := (h.copied hv).operand
  exact (List.getElem?_eq_some_iff.1 ho).1

theorem length_le (h : Split m ps copies s) : m.operands.length ≤ s.operands.length := by
  rw [h.operandCount]
  exact Nat.le_add_right _ _

/-- The arities and the slots are those that were there, but for the operations that copy. -/
theorem admitted (h : Split m ps copies s) (hlen : ps.length = m.operations.length)
    (ha : m.Admitted) : s.Admitted where
  arity := by
    intro op hop
    obtain ⟨j, hj⟩ := List.mem_iff_getElem?.1 hop
    rcases h.cases hlen hj with ⟨op₀, p, hop₀, -, -, rfl⟩ | ⟨k, x, a, b, -, rfl, -⟩
    · have harity := Operation.checkArity_ok.1 (ha.arity (List.mem_of_getElem? hop₀))
      exact Operation.checkArity_ok.2 (by simpa [Operation.kind] using harity)
    · exact Operation.checkArity_ok.2 ⟨rfl, rfl⟩
  slots := by
    intro i hi
    rw [h.same.1, h.same.2.1] at hi
    exact Nat.lt_of_lt_of_le (ha.slots hi) h.length_le

/-- What an operation names exists: it was there, or is a copy. -/
theorem named (h : Split m ps copies s) (hlen : ps.length = m.operations.length)
    (hw : m.WellFormed) {op : Operation} (hop : op ∈ s.operations) {i : OperandId}
    (hi : i ∈ op.operands) : i < s.operands.length := by
  obtain ⟨j, hj⟩ := List.mem_iff_getElem?.1 hop
  rcases h.cases hlen hj with ⟨op₀, p, hop₀, -, -, rfl⟩ | ⟨k, x, a, b, -, rfl, hv, -⟩
  · have hold : ∀ {x}, x ∈ op₀.operands → x < s.operands.length := fun hx =>
      Nat.lt_of_lt_of_le (hw.named (List.mem_of_getElem? hop₀) hx) h.length_le
    simp only [Operation.operands, Operation.params, List.mem_append, List.mem_map] at hi
    rcases hi with (⟨x, hx, rfl⟩ | hi) | hi
    · rcases read_eq_or copies p.backend x with he | hv
      · exact he.symm ▸ hold (by simp [Operation.operands, hx])
      · exact h.copy_lt hv
    · exact hold (by simp [Operation.operands, hi])
    · exact hold (by simp [Operation.operands, Operation.params, hi])
  · have hi : i = x ∨ i = m.operands.length + k := by
      simpa [Operation.operands, Operation.params, Attributes.operands] using hi
    rcases hi with rfl | rfl
    · exact Nat.lt_of_lt_of_le (h.copied_written hw hv).1 h.length_le
    · exact h.copy_lt hv

/-- An operand that was written, constant or a model input is so still. -/
theorem supplied (h : Split m ps copies s) (hlen : ps.length = m.operations.length)
    {i : OperandId} (hi : i < m.operands.length)
    (hd : (∃ k, m.Writes k i) ∨ m.Constant i ∨ i ∈ m.inputs) :
    (∃ k, s.Writes k i) ∨ s.Constant i ∨ i ∈ s.inputs := by
  rcases hd with ⟨k, hk⟩ | hconst | hin
  · exact .inl ⟨k, (h.writes_iff hlen hi).2 hk⟩
  · exact .inr (.inl ((h.constant_iff hi).2 hconst))
  · exact .inr (.inr (h.same.1.symm ▸ hin))

/-- A model input is not written, so that its readers read it still. -/
theorem input_read (h : Split m ps copies s) (hlen : ps.length = m.operations.length)
    (hw : m.WellFormed) {i : OperandId} {j : OperationId} (hin : i ∈ m.inputs)
    (hr : m.Reads j i) : s.Reads j i := by
  obtain ⟨op, hop, hx⟩ := hr
  obtain ⟨p, hp⟩ : ∃ p, ps[j]? = some p :=
    ⟨_, List.getElem?_eq_getElem (hlen ▸ (List.getElem?_eq_some_iff.1 hop).1)⟩
  refine ⟨_, h.original hop hp, List.mem_map.2 ⟨i, hx, ?_⟩⟩
  rcases read_eq_or copies p.backend i with he | hv
  · exact he
  · obtain ⟨-, w, hwi⟩ := h.copied_written hw hv
    exact absurd hin (hw.free hwi).2

/-- **Splitting the edges of a well-formed graph leaves a well-formed graph.** -/
theorem wellFormed (h : Split m ps copies s) (hl : m.Linked) (hc : m.Checked)
    (hlen : ps.length = m.operations.length) : s.WellFormed := by
  have ha : m.Admitted := ⟨hc.arity, hc.given⟩
  have hw := (checked_iff hl ha).1 hc
  refine ⟨h.named hlen hw, ?_, ?_, ?_, ?_, ?_⟩
  · intro j k i hj hk
    rcases h.writes_cases hlen hj with ⟨-, hj⟩ | ⟨l, x, b, rfl, rfl, -⟩
    · exact hw.single hj ((h.writes_iff hlen (hw.writes_lt hj)).1 hk)
    · rcases h.writes_cases hlen hk with ⟨-, hk⟩ | ⟨l', x', b', rfl, hi, -⟩
      · exact absurd (hw.writes_lt hk) (Nat.not_lt.2 (Nat.le_add_right _ _))
      · rw [Nat.add_left_cancel hi]
  · intro j i hj
    rw [h.same.1]
    rcases h.writes_cases hlen hj with ⟨-, hj⟩ | ⟨k, x, b, -, -, hv, -⟩
    · rw [h.constant_iff (hw.writes_lt hj)]
      exact hw.free hj
    · refine ⟨h.copy_not_constant hv, fun hin => ?_⟩
      exact absurd (ha.slots (List.mem_append_left _ hin)) (Nat.not_lt.2 (h.copy_ge hv))
  · intro j i hj
    rcases h.reads_cases hlen hj with ⟨-, x, b, hx, rfl⟩ | ⟨k, b, -, hv⟩
    · rcases read_eq_or copies b x with he | hv
      · have ⟨op, hop, hxop⟩ := hx
        rw [he]
        exact h.supplied hlen (hc.input_lt (List.mem_of_getElem? hop) hxop) (hw.defined hx)
      · exact .inl (h.copy_written hv)
    · obtain ⟨hlt, hwritten⟩ := h.copied_written hw hv
      exact h.supplied hlen hlt (.inl hwritten)
  · intro i hi
    rw [h.same.2.1] at hi
    have hlt := ha.slots (List.mem_append_right _ hi)
    rcases hw.attached hi with ⟨k, hk⟩ | ⟨hin, k, hr⟩
    · exact .inl ⟨k, (h.writes_iff hlen hlt).2 hk⟩
    · exact .inr ⟨h.same.1.symm ▸ hin, k, h.input_read hlen hw hin hr⟩
  · obtain ⟨rank, hrank⟩ := Model.exists_rank hl hw.writes_lt hc.acyclic
    obtain ⟨rank', hrank'⟩ := h.exists_rank hlen hw hrank
    exact acyclic_of_rank rank' hrank'

end Split

/-! ## The rewriting undone -/

/-- What an operand of a lowered model stands for, if there were `count` operands before: for
itself, or, if it is a copy, for what the operation that writes it reads. -/
def uncopied (s : Model) (count : Nat) (i : OperandId) : OperandId :=
  if i < count then i
  else ((s.operations.find? fun op => op.outputs.contains i).bind (·.inputs.head?)).getD i

/-- What lowering keeps of the model `m`. -/
structure Conserves (m s : Model) : Prop where
  /-- With copies replaced by what they stand for, the operations are those there were. -/
  operations : (s.operations.take m.operations.length).map (fun op =>
    { op with inputs := op.inputs.map (s.uncopied m.operands.length) }) = m.operations
  /-- The operands there were keep shape, type and data. -/
  operands : (s.operands.take m.operands.length).map Operand.declared
    = m.operands.map Operand.declared
  inputs : s.inputs = m.inputs
  outputs : s.outputs = m.outputs
  /-- The operations that were added copy one operand that was there each. -/
  added : ∀ {j op}, m.operations.length ≤ j → s.operations[j]? = some op →
    ∃ i c a b, op = ⟨[i], [c], .permute a b⟩ ∧ i < m.operands.length ∧ m.operands.length ≤ c
  /-- The operands that were added are written by them, and have shape and type of what is
  copied, and no data. -/
  copies : ∀ {c o}, m.operands.length ≤ c → s.operands[c]? = some o →
    ∃ j i a b o₀, m.operations.length ≤ j ∧ s.operations[j]? = some ⟨[i], [c], .permute a b⟩ ∧
      m.operands[i]? = some o₀ ∧ o.declared = (o₀.shape, o₀.type, none)

namespace Split

variable {m s : Model} {ps : List Placement} {copies : Copies}

/-- A copy stands for what it was made of. -/
theorem uncopied_copy (h : Split m ps copies s) (hw : m.WellFormed)
    (hlen : ps.length = m.operations.length) {i v : OperandId} {b : BackendId}
    (hv : copies.lookup (i, b) = some v) : s.uncopied m.operands.length v = i := by
  obtain ⟨j, op, hop, hvop⟩ := h.copy_written hv
  have hsome : (s.operations.find? fun op => op.outputs.contains v).isSome := by
    rw [List.find?_isSome]
    exact ⟨op, List.mem_of_getElem? hop, by simpa using hvop⟩
  obtain ⟨op', hfind⟩ := Option.isSome_iff_exists.1 hsome
  obtain ⟨k, hop'⟩ := List.mem_iff_getElem?.1 (List.mem_of_find?_eq_some hfind)
  have hv' : v ∈ op'.outputs := by simpa using List.find?_some hfind
  rw [uncopied, if_neg (Nat.not_lt.2 (h.copy_ge hv)), hfind]
  rcases h.cases hlen hop' with ⟨op₀, p, hop₀, -, -, rfl⟩ | ⟨l, x, a, b', -, rfl, hx, -⟩
  · exact absurd (hw.writes_lt ⟨op₀, hop₀, hv'⟩) (Nat.not_lt.2 (h.copy_ge hv))
  · obtain rfl := List.mem_singleton.1 hv'
    exact (h.copy_injective hx hv).1

/-- What is read in place of an operand stands for it. -/
theorem uncopied_read (h : Split m ps copies s) (hw : m.WellFormed)
    (hlen : ps.length = m.operations.length) (b : BackendId) {x : OperandId}
    (hx : x < m.operands.length) : s.uncopied m.operands.length (copies.read b x) = x := by
  rcases read_eq_or copies b x with he | hv
  · rw [he, uncopied, if_pos hx]
  · exact h.uncopied_copy hw hlen hv

theorem conserves (h : Split m ps copies s) (hw : m.WellFormed)
    (hlen : ps.length = m.operations.length) : Conserves m s where
  operations := by
    refine List.ext_getElem? fun j => ?_
    rw [List.getElem?_map]
    rcases Nat.lt_or_ge j m.operations.length with hj | hj
    · obtain ⟨op, hop⟩ : ∃ op, m.operations[j]? = some op := ⟨_, List.getElem?_eq_getElem hj⟩
      obtain ⟨p, hp⟩ : ∃ p, ps[j]? = some p := ⟨_, List.getElem?_eq_getElem (hlen ▸ hj)⟩
      have hself : op.inputs.map (s.uncopied m.operands.length ∘ copies.read p.backend)
          = op.inputs := by
        conv_rhs => rw [← List.map_id op.inputs]
        refine List.map_congr_left fun x hx => ?_
        exact h.uncopied_read hw hlen p.backend
          (hw.named (List.mem_of_getElem? hop) (by simp [Operation.operands, hx]))
      rw [List.getElem?_take_of_lt hj, h.original hop hp, hop, Option.map_some]
      simp only [List.map_map, hself]
    · rw [List.getElem?_eq_none hj, List.getElem?_eq_none (by simp [hj])]
      rfl
  operands := by
    refine List.ext_getElem? fun i => ?_
    rw [List.getElem?_map, List.getElem?_map]
    rcases Nat.lt_or_ge i m.operands.length with hi | hi
    · have ho := List.getElem?_eq_getElem hi
      rw [List.getElem?_take_of_lt hi, h.operand ho, ho]
    · rw [List.getElem?_eq_none hi, List.getElem?_eq_none (by simp [hi])]
  inputs := h.same.1
  outputs := h.same.2.1
  added := by
    intro j op hj hop
    rcases h.cases hlen hop with ⟨op₀, p, hop₀, -⟩ | ⟨k, i, a, b, -, rfl, hv, -⟩
    · exact absurd (List.getElem?_eq_some_iff.1 hop₀).1 (Nat.not_lt.2 hj)
    · exact ⟨i, _, a, b, rfl, (h.copied_written hw hv).1, Nat.le_add_right _ _⟩
  copies := by
    intro c o hc ho
    obtain ⟨k, rfl⟩ := Nat.exists_eq_add_of_le hc
    obtain ⟨op, hop⟩ : ∃ op, s.operations[m.operations.length + k]? = some op := by
      have hlt := (List.getElem?_eq_some_iff.1 ho).1
      rw [h.operandCount] at hlt
      refine ⟨_, List.getElem?_eq_getElem ?_⟩
      rw [h.operationCount]
      omega
    obtain ⟨i, a, b, rfl, hv⟩ := h.permute hop
    obtain ⟨o₀, ho₀, hcopy⟩ := (h.copied hv).operand
    rw [ho, Option.some.injEq] at hcopy
    exact ⟨_, i, a, b, o₀, Nat.le_add_right _ _, hop, ho₀, by rw [hcopy]; rfl⟩

end Split

/-- What is conserved concerns what a caller can declare. -/
theorem Same.conserves {m s s' : Model} (h : Same s s') (hc : Conserves m s) : Conserves m s' where
  operations := by
    have huncopied : s'.uncopied m.operands.length = s.uncopied m.operands.length := by
      funext i
      rw [uncopied, uncopied, h.operations]
    rw [huncopied, h.operations]
    exact hc.operations
  operands := by
    rw [List.map_take, h.operands, ← List.map_take]
    exact hc.operands
  inputs := h.inputs.trans hc.inputs
  outputs := h.outputs.trans hc.outputs
  added := fun hj hop => hc.added hj (h.operations ▸ hop)
  copies := by
    intro c o' hle ho'
    obtain ⟨o, ho, hshape, htype, hdata⟩ := h.operand ho'
    obtain ⟨j, i, a, b, o₀, hj, hop, ho₀, hd⟩ := hc.copies hle ho
    refine ⟨j, i, a, b, o₀, hj, h.operations.symm ▸ hop, ho₀, ?_⟩
    rw [← hd, Operand.declared, Operand.declared, hshape, htype, hdata]

/-! ## Lowering -/

/-- **Lowering is total and conservative.** For every finished model and every choice of a backend
for each operation it succeeds, what it makes passes all checks, and nothing of the model is lost or
changed but that readers read copies. -/
theorem lower_conserves {m₀ m : Model} {ps : List Placement}
    (hfinish : finish.on m₀ = (.ok (), m)) (hlen : ps.length = m.operations.length) :
    ∃ s, (lower ps).on m = (.ok (), s) ∧ s.phase = .lowered ∧ s.check = .ok () ∧
      Conserves m s := by
  obtain ⟨hl, hc, hphase⟩ := finish_linked hfinish
  have hw := (checked_iff hl ⟨hc.arity, hc.given⟩).1 hc
  obtain ⟨copies, m₁, done, hsplit, hs, hall⟩ := SplitAt.splitAll hl hc hlen
  have hs := hs.split hall
  have ha := hs.admitted hlen ⟨hc.arity, hc.given⟩
  have hw₁ := hs.wellFormed hl hc hlen
  obtain ⟨m₂, hlink, hl₂, -⟩ := hw₁.link ha
  -- What follows the splitting changes nothing that was declared.
  have hsame : Same m₁ m₂.placeOperands := by
    have hk := keeps_link.of_eq hlink
    exact hk.same.trans (replaced_placeOperands m₂).same
  have hchecked : m₂.placeOperands.Checked :=
    (checked_iff ((replaced_placeOperands m₂).linked hl₂) (hsame.admitted ha)).2
      (hsame.wellFormed hw₁)
  refine ⟨{ m₂.placeOperands with phase := .lowered }, ?_, rfl,
    check_ok.2 (hchecked.withPhase .lowered),
    (hsame.trans (same_withPhase _ _)).conserves (hs.conserves hw hlen)⟩
  change outcome (lower ps) m = _
  rw [lower, outcome_bind_of_ok (outcome_get m),
    outcome_bind_of_ok (outcome_check_of_ok (requirePhase_ok.2 hphase) m),
    if_neg (not_not.2 hlen), outcome_bind_of_ok (outcome_set _ _), outcome_bind_of_ok hsplit,
    outcome_bind_of_ok hlink, outcome_bind_of_ok (outcome_modify _ _),
    outcome_bind_of_ok (outcome_get _),
    outcome_bind_of_ok (outcome_check_of_ok (check_ok.2 hchecked) _), outcome_modify]

/-- Both summands of the first sum are read from one copy, those of the second from two. -/
theorem lower_conserves_fannedOut :
    ∃ s, (lower fannedPlacements).on (finish.on fannedOut).2 = (.ok (), s) ∧ s.check = .ok () ∧
      Conserves (finish.on fannedOut).2 s := by
  have hfinish : finish.on fannedOut = (.ok (), (finish.on fannedOut).2) :=
    outcome_eq (by decide +kernel)
  have hlen : fannedPlacements.length = (finish.on fannedOut).2.operations.length := by
    decide +kernel
  obtain ⟨s, hs, -, hcheck, hconserves⟩ := lower_conserves hfinish hlen
  exact ⟨s, hs, hcheck, hconserves⟩

end HeteroNet.Model
