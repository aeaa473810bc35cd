import HeteroNet.Proofs.Model.Kernels
import HeteroNet.Proofs.Model.Words

/-
A lowered model computes what the caller's model means. Every operand of the lowered model stands
for one of the caller's: itself, or the one it is a copy of (`Root`). As the operations run, a tensor
that none of the rest will write holds the value of the operand it stands for (`Valued`); so in the
end every tensor does (`Lowering.value_run`). The evaluator looks back as many operations of the
caller as have run. All this needs no more than that operations read where others write (`Matched`);
if the caller copies nothing between backends himself, lowering sees to it (`Lowering.matched`).
-/

namespace HeteroNet.Model

open Operation

variable {m₀ m s m' : Model} {ps : List Placement} {copies : Copies}
  {given : OperandId → Option Buffer}

/-! ## The evaluator -/

/-- Looking back further changes no value. -/
theorem evaluate_mono : ∀ {d e : Nat} {i : OperandId} {w : Buffer}, d ≤ e →
    m.evaluate given d i = some w → m.evaluate given e i = some w
  | 0, _, _, _, _, h => by cases h
  | d + 1, e, i, w, hde, h => by
    obtain ⟨e, rfl⟩ : ∃ e', e = e' + 1 := ⟨e - 1, by omega⟩
    have ih : ∀ {i : OperandId} {w : Buffer}, m.evaluate given d i = some w →
        m.evaluate given e i = some w := fun h => evaluate_mono (by omega) h
    rw [evaluate] at h ⊢
    cases hg : given i with
    | some ws =>
      rw [hg] at h
      exact h
    | none =>
      cases ho : m.operands[i]? with
      | none =>
        rw [hg, ho] at h
        cases h
      | some o =>
        simp only [hg, ho] at h ⊢
        cases hd : o.data with
        | some data =>
          rw [hd] at h
          exact h
        | none =>
          simp only [hd, Option.bind_eq_bind, Option.bind_eq_some_iff] at h ⊢
          obtain ⟨op, hop, k, hk, xs, hxs, hw⟩ := h
          exact ⟨op, hop, k, hk, xs,
            mapM_eq_some.2 ((mapM_eq_some.1 hxs).imp fun _ _ hx => ih hx), hw⟩

theorem evaluate_given {d : Nat} {i : OperandId} {w : Buffer} (h : given i = some w) :
    m.evaluate given (d + 1) i = some w := by
  rw [evaluate, h]

theorem evaluate_constant {d : Nat} {i : OperandId} {o : Operand} {data : Bytes}
    (hg : given i = none) (ho : m.operands[i]? = some o) (hd : o.data = some data) :
    m.evaluate given (d + 1) i = some (o.element.decode data).toArray := by
  simp only [evaluate, hg, ho, hd]

theorem evaluate_written {d : Nat} {i : OperandId} {o : Operand} {op : Operation} {k : Kernel}
    {xs : List Buffer} (hg : given i = none) (ho : m.operands[i]? = some o) (hd : o.data = none)
    (hop : m.operations.find? (fun op => op.outputs.contains i) = some op)
    (hk : op.kernel m.operands = .ok k)
    (hxs : List.Forall₂ (fun j x => m.evaluate given d j = some x) op.inputs xs) :
    m.evaluate given (d + 1) i = k.compute .nhwc xs (Buffer.zeros o.shape.elements) := by
  simp only [evaluate, hg, ho, hd, hop, hk, mapM_eq_some.2 hxs, Except.toOption,
    Option.bind_eq_bind, Option.bind_some]

theorem find_writer (hl : m.Linked) (hc : m.Checked) {j : OperationId} {op : Operation}
    (hop : m.operations[j]? = some op) {i : OperandId} (hi : i ∈ op.outputs) :
    m.operations.find? (fun op => op.outputs.contains i) = some op := by
  have hsome : (m.operations.find? fun op => op.outputs.contains i).isSome := by
    rw [List.find?_isSome]
    exact ⟨op, List.mem_of_getElem? hop, by simpa using hi⟩
  obtain ⟨op', hop'⟩ := Option.isSome_iff_exists.1 hsome
  rw [hop']
  obtain ⟨k, hk⟩ := List.mem_iff_getElem?.1 (List.mem_of_find?_eq_some hop')
  have hi' : i ∈ op'.outputs := by simpa using List.find?_some hop'
  have hjk := hl.writes_unique hc (j := j) (k := k) ⟨op, hop, hi⟩ ⟨op', hk, hi'⟩
  rw [← hjk, hop] at hk
  exact hk.symm

/-! ## Roots -/

/-- Operand `v` of the lowered model stands for operand `i` of the caller's. -/
def Root (m : Model) (copies : Copies) (v i : OperandId) : Prop :=
  (v = i ∧ i < m.operands.length) ∨ ∃ b, copies.lookup (i, b) = some v

theorem root_read {b : BackendId} {i : OperandId} (hi : i < m.operands.length) :
    Root m copies (copies.read b i) i := by
  unfold Copies.read
  cases hv : copies.lookup (i, b) with
  | none => exact .inl ⟨rfl, hi⟩
  | some v => exact .inr ⟨b, hv⟩

/-- What an operation reads is written on the backend where it reads, if it is written. -/
def Matched (m : Model) : Prop :=
  ∀ {j w : OperationId} {op op' : Operation} {p p' : Placement}, m.operations[j]? = some op →
    m.placements[j]? = some p → m.operations[w]? = some op' → m.placements[w]? = some p' →
    ∀ {i : OperandId}, i ∈ op.inputs → i ∈ op'.outputs → op.source p = op'.target p'

namespace Lowering

variable (h : Lowering m₀ m ps copies s m')

include h

theorem length_eq : m.operands.length = m₀.operands.length := by
  have := congrArg List.length h.finished.operands
  rwa [List.length_map, List.length_map] at this

/-- What the lowered model says of an operand of the caller. -/
theorem operand {i : OperandId} {o : Operand} (ho : m₀.operands[i]? = some o) :
    ∃ o', m'.operands[i]? = some o' ∧ o'.shape = o.shape ∧ o'.type = o.type ∧ o'.data = o.data := by
  obtain ⟨o₁, ho₁, hs₁, ht₁, hd₁⟩ := h.finished.symm.operand ho
  obtain ⟨o', ho', hs, ht, hd⟩ := h.lowered.symm.operand (h.split.operand ho₁)
  exact ⟨o', ho', hs.symm.trans hs₁.symm, ht.symm.trans ht₁.symm, hd.symm.trans hd₁.symm⟩

/-- An operand stands for one of the same shape and type. -/
theorem alike {v i : OperandId} (hv : Root m copies v i) :
    m₀.operands.Alike m'.operands i v := by
  rcases hv with ⟨rfl, hi⟩ | ⟨b, hv⟩
  · obtain ⟨o, ho⟩ : ∃ o, m₀.operands[v]? = some o :=
      ⟨_, List.getElem?_eq_getElem (h.length_eq ▸ hi)⟩
    obtain ⟨o', ho', hs, ht, -⟩ := h.operand ho
    exact ⟨o, o', ho, ho', hs, ht⟩
  · obtain ⟨o₁, ho₁, hv⟩ := (h.split.copied hv).operand
    obtain ⟨o, ho, hs, ht, -⟩ := h.finished.operand ho₁
    obtain ⟨o', ho', hs', ht', -⟩ := h.lowered.symm.operand hv
    exact ⟨o, o', ho, ho', hs'.symm.trans hs, ht'.symm.trans ht⟩

/-- An operand of the caller stands for itself only. -/
theorem root_original {v i : OperandId} (hv : Root m copies v i) (hlt : v < m.operands.length) :
    v = i := by
  rcases hv with ⟨rfl, -⟩ | ⟨b, hv⟩
  · rfl
  · obtain ⟨k, a, rfl, -⟩ := h.split.copy_eq hv
    exact absurd hlt (Nat.not_lt.2 (Nat.le_add_right _ _))

/-- An operation of the caller, with its inputs replaced by what it reads on its backend. -/
theorem renamed {op : Operation} (hop : op ∈ m.operations) (b : BackendId) :
    op.Renamed m₀.operands m'.operands (copies.read b) := by
  have hself : ∀ {i}, i ∈ op.operands → ∃ o, m₀.operands[i]? = some o := fun hi =>
    ⟨_, List.getElem?_eq_getElem (h.length_eq ▸ h.checked.named hop hi)⟩
  refine ⟨fun i hi => h.alike (root_read (h.checked.input_lt hop hi)), fun i hi => ?_,
    fun i hi => ?_⟩
  · obtain ⟨o, ho⟩ := hself (i := i) (by simp [Operation.operands, hi])
    obtain ⟨o', ho', hs, ht, -⟩ := h.operand ho
    exact ⟨o, o', ho, ho', hs, ht⟩
  · obtain ⟨o, ho⟩ := hself (i := i) (by simp [Operation.operands, hi])
    obtain ⟨o', ho', -, ht, hd⟩ := h.operand ho
    exact ⟨o, o', ho, ho', ht, hd⟩

/-- The constants of the lowered model are those of the caller. -/
theorem lowConstants : ConstantsSized m'.operands := by
  refine h.lowered.constants fun {v o data} ho hd => ?_
  rcases Nat.lt_or_ge v m.operands.length with hv | hv
  · obtain ⟨o', ho'⟩ : ∃ o', m.operands[v]? = some o' := ⟨_, List.getElem?_eq_getElem hv⟩
    rw [h.split.operand ho', Option.some.injEq] at ho
    exact h.finished.constants h.constants (ho ▸ ho') hd
  · obtain ⟨k, rfl⟩ := Nat.exists_eq_add_of_le hv
    have hk : m.operations.length + k < s.operations.length := by
      have hlt : m.operands.length + k < s.operands.length := (List.getElem?_eq_some_iff.1 ho).1
      rw [h.split.operandCount] at hlt
      rw [h.split.operationCount]
      omega
    obtain ⟨i, a, b, -, hlookup⟩ := h.split.permute (List.getElem?_eq_getElem hk)
    obtain ⟨o', -, hcopy⟩ := (h.split.copied hlookup).operand
    rw [hcopy, Option.some.injEq] at ho
    subst ho
    cases hd

theorem splits (hplain : ∀ op ∈ m₀.operations, op.kind ≠ .permute) : SplitsCrossings m ps m' :=
  (h.split.splitsCrossings h.linked h.checked h.count fun op hop =>
    hplain op (h.finished.operations ▸ hop)).congr h.lowered.operations h.placements

/-! ## Where operands are read and written -/

/-- An operation writes on the backend it is placed on. -/
theorem target_eq (hplain : ∀ op ∈ m₀.operations, op.kind ≠ .permute) {j : OperationId}
    {op : Operation} {p : Placement} (hop : m'.operations[j]? = some op)
    (hp : m'.placements[j]? = some p) : op.target p = p.backend := by
  by_cases hk : op.kind = .permute
  · obtain ⟨i, c, a, b, rfl, ⟨p', hp', hb⟩, -⟩ := (h.splits hplain).across hop hk
    rw [hp] at hp'
    cases hp'
    exact hb.symm
  · exact target_of_kind hk p

/-- Where the caller copies nothing between backends, operations read where others write. -/
theorem matched (hplain : ∀ op ∈ m₀.operations, op.kind ≠ .permute) : Matched m' := by
  intro j w op op' p p' hop hp hop' hp' i hi hw
  have hon : ∀ {j : OperationId} {q : Placement} {b : BackendId}, m'.placements[j]? = some q →
      On m'.placements j b → q.backend = b := by
    rintro j q b hq ⟨q', hq', rfl⟩
    rw [hq] at hq'
    cases hq'
    rfl
  rw [h.target_eq hplain hop' hp']
  by_cases hk : op.kind = .permute
  · obtain ⟨x, c, a, b, rfl, -, -, -, hall⟩ := (h.splits hplain).across hop hk
    rw [List.mem_singleton] at hi
    subst hi
    exact (hon hp' (hall w ⟨op', hop', hw⟩)).symm
  · obtain ⟨b, hj, hb⟩ := (h.splits hplain).within hop hk i hi w ⟨op', hop', hw⟩
    rw [source_of_kind hk, hon hp hj, hon hp' hb]

end Lowering

/-! ## The run -/

/-- The operations of a lowered model, each with its backend, in an order in which they can run. -/
structure Runs (m : Model) (ops : List (Operation × Placement)) : Prop where
  mem : ∀ q ∈ ops, ∃ j : OperationId, m.operations[j]? = some q.1 ∧ m.placements[j]? = some q.2
  all : ∀ {j : OperationId} {op : Operation}, m.operations[j]? = some op →
    ∃ p, (op, p) ∈ ops ∧ m.placements[j]? = some p
  count : ∀ test : Operation → Bool, ops.countP (fun q => test q.1) = m.operations.countP test
  ordered : Ordered ops
  works : ∀ q ∈ ops, ∃ ss o out k, q.1.Works m.operands ss o out k

/-- The tensors that a list of operations reads and writes. -/
def sites (ops : List (Operation × Placement)) : List Site :=
  ops.flatMap fun q => reads q ++ writes q

theorem reads_sites {ops : List (Operation × Placement)} {q : Operation × Placement} (hq : q ∈ ops)
    {i : OperandId} (hi : i ∈ q.1.inputs) : (q.1.source q.2, i) ∈ sites ops :=
  List.mem_flatMap.2 ⟨q, hq, List.mem_append_left _ (List.mem_map.2 ⟨i, hi, rfl⟩)⟩

/-- A tensor that no operation writes is read by one. -/
theorem read_of_unwritten {ops : List (Operation × Placement)} {b : BackendId} {v : OperandId}
    (hsite : (b, v) ∈ sites ops) (hnot : (b, v) ∉ ops.flatMap writes) :
    ∃ q ∈ ops, v ∈ q.1.inputs ∧ q.1.source q.2 = b := by
  obtain ⟨q, hq, hs⟩ := List.mem_flatMap.1 hsite
  rcases List.mem_append.1 hs with hs | hs
  · obtain ⟨v', hv', he⟩ := List.mem_map.1 hs
    cases he
    exact ⟨q, hq, hv', rfl⟩
  · exact absurd (List.mem_flatMap.2 ⟨q, hq, hs⟩) hnot

/-- Where operations read what is written for them, nothing writes its operand either: an operation
that did would write this very tensor. -/
theorem Runs.unwritten {m : Model} {ops : List (Operation × Placement)} (h : Runs m ops)
    (hmatched : Matched m) {b : BackendId} {v : OperandId} (hsite : (b, v) ∈ sites ops)
    (hnot : (b, v) ∉ ops.flatMap writes) (w : OperationId) : ¬ m.Writes w v := by
  rintro ⟨op', hop', hv'⟩
  obtain ⟨p', hq', hp'⟩ := h.all hop'
  obtain ⟨q, hq, hv, rfl⟩ := read_of_unwritten hsite hnot
  obtain ⟨j, hop, hp⟩ := h.mem q hq
  refine hnot (List.mem_flatMap.2 ⟨_, hq', List.mem_map.2 ⟨v, hv', ?_⟩⟩)
  exact congrArg (·, v) (hmatched hop hp hop' hp' hv hv').symm

/-- The tensors that none of the operations `rest` writes hold the values of the operands they
stand for. -/
structure Valued (m₀ m : Model) (copies : Copies) (os : Operands)
    (given : OperandId → Option Buffer) (ops rest : List (Operation × Placement)) (V : Words)
    (d : Nat) : Prop where
  fit : Fit os V
  value : ∀ b v, (b, v) ∈ sites ops → (b, v) ∉ rest.flatMap writes → ∀ i, Root m copies v i →
    m₀.evaluate given (d + 1) i = some (V (b, v))

namespace Lowering

variable {ops rest : List (Operation × Placement)} {V : Words} {d : Nat}

/-- What an operation reads is valued when its turn has come. -/
theorem inputs_valued {q : Operation × Placement}
    (hV : Valued m₀ m copies m'.operands given ops (q :: rest) V d) (hq : q ∈ ops)
    (hord : Ordered (q :: rest)) {v i : OperandId} (hv : v ∈ q.1.inputs)
    (hroot : Root m copies v i) :
    m₀.evaluate given (d + 1) i = some (V (q.1.source q.2, v)) := by
  refine hV.value _ _ (reads_sites hq hv) (fun hw => ?_) i hroot
  obtain ⟨r, hr, hw⟩ := List.mem_flatMap.1 hw
  obtain ⟨v', hv', he⟩ := List.mem_map.1 hw
  obtain rfl : v' = v := congrArg Prod.snd he
  exact hord.1 v' hv r hr hv'

/-- An operation of the caller leaves the value of its output. -/
theorem original_valued (h : Lowering m₀ m ps copies s m')
    (hgiven : ∀ i, (given i).isSome ↔ i ∈ m₀.inputs) {op₀ : Operation} {p : Placement}
    {j : OperationId} (hop₀ : m.operations[j]? = some op₀)
    (hq : ({ op₀ with inputs := op₀.inputs.map (copies.read p.backend) }, p) ∈ ops)
    (hord : Ordered (({ op₀ with inputs := op₀.inputs.map (copies.read p.backend) }, p) :: rest))
    (hV : Valued m₀ m copies m'.operands given ops
      (({ op₀ with inputs := op₀.inputs.map (copies.read p.backend) }, p) :: rest) V d)
    {ss : List Shape} {o : OperandId} {out : Shape} {k : Kernel}
    (hworks : Works m'.operands { op₀ with inputs := op₀.inputs.map (copies.read p.backend) } ss o
      out k) {y : Buffer}
    (hy : k.compute .nhwc
      ((reads ({ op₀ with inputs := op₀.inputs.map (copies.read p.backend) }, p)).map V)
      (Buffer.zeros out.elements) = some y) :
    m₀.evaluate given (d + 2) o = some y := by
  have hmem := List.mem_of_getElem? hop₀
  have hout : o ∈ op₀.outputs := by
    have : op₀.outputs = [o] := hworks.outputs
    rw [this]
    exact List.mem_singleton_self o
  have hlt := h.checked.output_lt hmem hout
  obtain ⟨o₁, ho₁⟩ : ∃ o₁, m.operands[o]? = some o₁ := ⟨_, List.getElem?_eq_getElem hlt⟩
  obtain ⟨hdata, hinput⟩ := h.checked.written hmem hout ho₁
  obtain ⟨oo, hoo, -, -, hd⟩ := h.finished.operand ho₁
  obtain ⟨o', ho', hshape, -, -⟩ := h.operand hoo
  obtain ⟨o'', ho'', rfl⟩ := hworks.shape
  rw [ho'] at ho''
  cases ho''
  have hgo : given o = none := by
    rw [← Option.not_isSome_iff_eq_none, hgiven]
    exact h.finished.inputs ▸ hinput
  have hfind : m₀.operations.find? (fun op => op.outputs.contains o) = some op₀ := by
    rw [← h.finished.operations]
    exact find_writer h.linked h.checked hop₀ hout
  have hxs : List.Forall₂ (fun i x => m₀.evaluate given (d + 1) i = some x) op₀.inputs
      ((reads ({ op₀ with inputs := op₀.inputs.map (copies.read p.backend) }, p)).map V) := by
    rw [reads, List.map_map, List.map_map, List.forall₂_map_right_iff, List.forall₂_same]
    intro i hi
    exact inputs_valued hV hq hord (List.mem_map.2 ⟨i, hi, rfl⟩)
      (root_read (h.checked.input_lt hmem hi))
  rw [evaluate_written hgo hoo (hd.symm.trans hdata) hfind
    ((h.renamed hmem p.backend).kernel hworks.kernel) hxs, ← hshape]
  exact hy

/-- An operation that copies leaves the value of what it copies. -/
theorem copy_valued (h : Lowering m₀ m ps copies s m') {i v : OperandId} {a b : BackendId}
    {p : Placement} (hv : copies.lookup (i, b) = some v)
    (hq : (⟨[i], [v], .permute a b⟩, p) ∈ ops)
    (hord : Ordered ((⟨[i], [v], .permute a b⟩, p) :: rest))
    (hV : Valued m₀ m copies m'.operands given ops ((⟨[i], [v], .permute a b⟩, p) :: rest) V d)
    {ss : List Shape} {o : OperandId} {out : Shape} {k : Kernel}
    (hworks : Works m'.operands ⟨[i], [v], .permute a b⟩ ss o out k) {y : Buffer}
    (hy : k.compute .nhwc ((reads (⟨[i], [v], .permute a b⟩, p)).map V)
      (Buffer.zeros out.elements) = some y) :
    m₀.evaluate given (d + 1) i = some y := by
  obtain ⟨w, b', ⟨op, hop, hi⟩, -⟩ := (h.split.copied hv).crosses.1
  have hlt := h.checked.output_lt (List.mem_of_getElem? hop) hi
  have hval := inputs_valued hV hq hord (List.mem_singleton_self i) (.inl ⟨rfl, hlt⟩)
  have hk : k = .copy := by
    have hkernel : Operation.kernel ⟨[i], [v], .permute a b⟩ m'.operands = .ok .copy := rfl
    rw [hworks.kernel] at hkernel
    exact Except.ok.inj hkernel
  subst hk
  -- The kernel copies, so the copy has as many words as it should have.
  change Buffer.replace (Buffer.zeros out.elements) (V (a, i)) = some y at hy
  unfold Buffer.replace at hy
  split at hy
  · cases hy
    exact hval
  · cases hy

/-- The operation writes an operand of the model, and so is no operation that lowering added. -/
def original (m : Model) (op : Operation) : Bool := op.outputs.headD 0 < m.operands.length

/-- **One operation keeps the values**, and adds that of its output. -/
theorem act_valued (h : Lowering m₀ m ps copies s m')
    (hgiven : ∀ i, (given i).isSome ↔ i ∈ m₀.inputs) {q : Operation × Placement}
    (hruns : Runs m' ops) (hq : q ∈ ops) (hord : Ordered (q :: rest))
    (hV : Valued m₀ m copies m'.operands given ops (q :: rest) V d) :
    Valued m₀ m copies m'.operands given ops rest (act m'.operands V q)
      (d + if original m q.1 then 1 else 0) := by
  obtain ⟨ss, o, out, k, hworks⟩ := hruns.works q hq
  obtain ⟨y, hy, -, hact⟩ := hworks.act_eq (p := q.2) hV.fit
  refine ⟨hworks.act_fit hV.fit, fun b v hsite hnot i hroot => ?_⟩
  rw [hact]
  by_cases hwritten : (b, v) = (q.1.target q.2, o)
  · rw [hwritten, Function.update_self]
    obtain rfl : v = o := congrArg Prod.snd hwritten
    obtain ⟨j, hop, hp⟩ := hruns.mem q hq
    obtain ⟨op, p⟩ := q
    rw [h.lowered.operations] at hop
    rw [h.placements] at hp
    rcases h.split.cases h.count hop with ⟨op₀, p₀, hop₀, -, hp₀, rfl⟩ | ⟨n, x, a, b', -, rfl, hv, -⟩
    · rw [hp₀, Option.some.injEq] at hp
      subst hp
      have hmem := List.mem_of_getElem? hop₀
      have hout : op₀.outputs = [v] := hworks.outputs
      have hlt : v < m.operands.length :=
        h.checked.output_lt hmem (hout ▸ List.mem_singleton_self v)
      obtain rfl := h.root_original hroot hlt
      have horiginal : original m op₀ = true := by simpa [original, hout] using hlt
      change m₀.evaluate given (d + (if original m op₀ then 1 else 0) + 1) v = some y
      rw [if_pos horiginal]
      exact h.original_valued hgiven hop₀ hq hord hV hworks hy
    · have hvo := hworks.outputs
      simp only [List.cons.injEq, and_true] at hvo
      subst hvo
      rcases hroot with ⟨rfl, hlt⟩ | ⟨b'', hroot⟩
      · exact absurd hlt (Nat.not_lt.2 (Nat.le_add_right _ _))
      · obtain rfl := (h.split.copy_injective hv hroot).1
        exact evaluate_mono (by omega) (h.copy_valued hv hq hord hV hworks hy)
  · rw [Function.update_of_ne hwritten]
    refine evaluate_mono (by omega) (hV.value b v hsite (fun hw => ?_) i hroot)
    rcases List.mem_append.1 hw with hw | hw
    · rw [hworks.writes_eq] at hw
      exact hwritten (List.mem_singleton.1 hw)
    · exact hnot hw

/-- All operations, one after another. -/
theorem run_valued (h : Lowering m₀ m ps copies s m')
    (hgiven : ∀ i, (given i).isSome ↔ i ∈ m₀.inputs) (hruns : Runs m' ops) :
    ∀ {rest : List (Operation × Placement)} {V : Words} {d : Nat}, (∀ q ∈ rest, q ∈ ops) →
      Ordered rest → Valued m₀ m copies m'.operands given ops rest V d →
      Valued m₀ m copies m'.operands given ops [] (rest.foldl (act m'.operands) V)
        (d + rest.countP fun q => original m q.1)
  | [], _, _, _, _, hV => hV
  | q :: rest, V, d, hmem, hord, hV => by
    have hstep := h.act_valued hgiven hruns (hmem q (by simp)) hord hV
    have hrun := run_valued h hgiven hruns
      (fun r hr => hmem r (List.mem_cons_of_mem _ hr)) hord.2 hstep
    rw [List.foldl_cons, List.countP_cons]
    rwa [Nat.add_assoc, Nat.add_comm (ite _ _ _)] at hrun

/-- Before the first operation runs, what is not written holds its value. -/
theorem initial_valued (h : Lowering m₀ m ps copies s m') (hmatched : Matched m')
    (hgiven : ∀ i, (given i).isSome ↔ i ∈ m₀.inputs) (hsized : GivenSized m'.operands given)
    (hruns : Runs m' ops) :
    Valued m₀ m copies m'.operands given ops ops (push given (initial m'.operands)) 0 := by
  have hinputs : m'.inputs = m₀.inputs :=
    h.lowered.inputs.trans (h.split.same.1.trans h.finished.inputs)
  refine ⟨push_fit hsized (initial_fit h.lowConstants), fun b v hsite hnot i hroot => ?_⟩
  have hunwritten := hruns.unwritten hmatched hsite hnot
  -- Nothing writes it, so it is no copy but an operand of the caller, given or constant.
  obtain ⟨rfl, hlt⟩ : v = i ∧ i < m.operands.length := by
    rcases hroot with hroot | ⟨b', hv⟩
    · exact hroot
    · obtain ⟨k, a, -, hop, -⟩ := h.split.copy_eq hv
      rw [← h.lowered.operations] at hop
      exact absurd ⟨_, hop, List.mem_singleton_self v⟩ (hunwritten _)
  obtain ⟨o, ho⟩ : ∃ o, m₀.operands[v]? = some o :=
    ⟨_, List.getElem?_eq_getElem (h.length_eq ▸ hlt)⟩
  obtain ⟨o', ho', hshape, htype, hdata⟩ := h.operand ho
  rw [push]
  cases hg : given v with
  | some ws => exact evaluate_given hg
  | none =>
    have hread : o'.writer.isSome ∨ o'.data.isSome ∨ v ∈ m'.inputs := by
      obtain ⟨q, hq, hv, -⟩ := read_of_unwritten hsite hnot
      obtain ⟨j, hop, -⟩ := hruns.mem q hq
      exact h.lowChecked.read (List.mem_of_getElem? hop) hv ho'
    rcases hread with hw | hd | hi
    · obtain ⟨w, hw⟩ := Option.isSome_iff_exists.1 hw
      exact absurd ((h.lowLinked.writer ho' w).1 hw) (hunwritten w)
    · obtain ⟨data, hd⟩ := Option.isSome_iff_exists.1 hd
      rw [evaluate_constant hg ho (hdata.symm.trans hd)]
      simp only [initial, ho', hd, Operand.element, htype, Option.getD_none]
    · rw [hinputs, ← hgiven, hg] at hi
      cases hi

/-- The operations that write operands of the caller are the caller's. -/
theorem original_count (h : Lowering m₀ m ps copies s m') :
    s.operations.countP (original m) ≤ m.operations.length := by
  have hdrop : (s.operations.drop m.operations.length).countP (original m) = 0 := by
    rw [List.countP_eq_zero]
    intro op hop
    obtain ⟨k, hk⟩ := List.mem_iff_getElem?.1 hop
    rw [List.getElem?_drop] at hk
    obtain ⟨i, a, b, rfl, -⟩ := h.split.permute hk
    simp [original]
  have htake := List.countP_le_length (p := original m)
    (l := s.operations.take m.operations.length)
  rw [← List.take_append_drop m.operations.length s.operations, List.countP_append, hdrop]
  rw [List.length_take] at htake
  omega

/-- **The lowered model computes what the caller's model means.** -/
theorem value_run (h : Lowering m₀ m ps copies s m') (hmatched : Matched m')
    (hgiven : ∀ i, (given i).isSome ↔ i ∈ m₀.inputs) (hsized : GivenSized m'.operands given)
    (hruns : Runs m' ops) {b : BackendId} {i : OperandId} (hsite : (b, i) ∈ sites ops)
    (hi : i < m₀.operands.length) :
    m₀.value given i
      = some (ops.foldl (act m'.operands) (push given (initial m'.operands)) (b, i)) := by
  have hrun := h.run_valued hgiven hruns (fun q hq => hq) hruns.ordered
    (h.initial_valued hmatched hgiven hsized hruns)
  refine evaluate_mono ?_ (hrun.value b i hsite (by simp) i (.inl ⟨rfl, h.length_eq ▸ hi⟩))
  rw [hruns.count, h.lowered.operations, ← h.finished.operations]
  have := h.original_count
  omega

end Lowering

end HeteroNet.Model
