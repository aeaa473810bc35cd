import HeteroNet.Proofs.Call
import Mathlib.Data.List.Nodup

/-
What linking records: the operations that read an operand, and the one that writes it, if any.
Linking changes nothing else, whether it succeeds or stops at a second writer.

The links are stated against two relations that speak of the operations alone (`Reads`,
`Writes`), so that no later proof depends on the order in which the links were met. That readers
are listed in index order is said apart from it (`link_ascends`).
-/

namespace HeteroNet

theorem Operands.get_eq_ok {os : Operands} {i : OperandId} {o : Operand} :
    os.get i = .ok o ↔ os[i]? = some o := by
  unfold Operands.get
  split <;> simp_all

namespace Model

/-- Operation `j` reads operand `i` as data. -/
def Reads (m : Model) (j : OperationId) (i : OperandId) : Prop :=
  ∃ op, m.operations[j]? = some op ∧ i ∈ op.inputs

/-- Operation `j` writes operand `i`. -/
def Writes (m : Model) (j : OperationId) (i : OperandId) : Prop :=
  ∃ op, m.operations[j]? = some op ∧ i ∈ op.outputs

/-- The links of a model are those of its operations. -/
structure Linked (m : Model) : Prop where
  uses : ∀ {i o}, m.operands[i]? = some o → ∀ j, j ∈ o.uses ↔ m.Reads j i
  writer : ∀ {i o}, m.operands[i]? = some o → ∀ j, o.writer = some j ↔ m.Writes j i

/-! ## What linking leaves alone -/

/-- The models differ at most in the links of their operands. -/
structure Relinked (m m' : Model) : Prop where
  operands : m'.operands.map Operand.clearLinks = m.operands.map Operand.clearLinks
  operations : m'.operations = m.operations
  placements : m'.placements = m.placements
  inputs : m'.inputs = m.inputs
  outputs : m'.outputs = m.outputs
  phase : m'.phase = m.phase

instance : IsPreorder Model Relinked where
  refl _ := ⟨rfl, rfl, rfl, rfl, rfl, rfl⟩
  trans _ _ _ h₁ h₂ :=
    ⟨h₂.operands.trans h₁.operands, h₂.operations.trans h₁.operations,
      h₂.placements.trans h₁.placements, h₂.inputs.trans h₁.inputs, h₂.outputs.trans h₁.outputs,
      h₂.phase.trans h₁.phase⟩

theorem Relinked.length {m m' : Model} (h : Relinked m m') :
    m'.operands.length = m.operands.length := by
  simpa using congrArg List.length h.operands

/-- An operand of the relinked model is the one of the same index, but for the links. -/
theorem Relinked.operand {m m' : Model} (h : Relinked m m') {i : OperandId} {o' : Operand}
    (ho : m'.operands[i]? = some o') :
    ∃ o, m.operands[i]? = some o ∧ o'.clearLinks = o.clearLinks := by
  have hi := congrArg (·[i]?) h.operands
  simp only [List.getElem?_map, ho, Option.map_some] at hi
  obtain ⟨o, ho, he⟩ := Option.map_eq_some_iff.1 hi.symm
  exact ⟨o, ho, he.symm⟩

theorem relinked_set {m : Model} {i : OperandId} {o o' : Operand} (ho : m.operands[i]? = some o)
    (he : o'.clearLinks = o.clearLinks) :
    Relinked m { m with operands := m.operands.set i o' } := by
  refine ⟨?_, rfl, rfl, rfl, rfl, rfl⟩
  rw [List.map_set, he]
  obtain ⟨hi, rfl⟩ := List.getElem?_eq_some_iff.1 ho
  rw [← List.getElem_map Operand.clearLinks (h := by simpa using hi), List.set_getElem_self]

/-! ## One link -/

theorem linkUse_ok {j : OperationId} {i : OperandId} {m m' : Model} :
    outcome (linkUse j i) m = (.ok (), m') ↔
      ∃ o, m.operands[i]? = some o ∧ m' = { m with operands := m.operands.set i (o.addUse j) } := by
  simp only [linkUse, outcome_bind_ok, outcome_get, outcome_check, outcome_set, Prod.mk.injEq,
    Except.ok.injEq, Operands.get_eq_ok]
  constructor
  · rintro ⟨_, _, ⟨rfl, rfl⟩, o, _, ⟨ho, rfl⟩, -, rfl⟩
    exact ⟨o, ho, rfl⟩
  · rintro ⟨o, ho, rfl⟩
    exact ⟨m, m, ⟨rfl, rfl⟩, o, m, ⟨ho, rfl⟩, trivial, rfl⟩

theorem linkWriter_ok {j : OperationId} {i : OperandId} {m m' : Model} :
    outcome (linkWriter j i) m = (.ok (), m') ↔
      ∃ o, m.operands[i]? = some o ∧ o.writer = none ∧
        m' = { m with operands := m.operands.set i { o with writer := some j } } := by
  simp only [linkWriter, outcome_bind_ok, outcome_get, outcome_check, Prod.mk.injEq,
    Except.ok.injEq, Operands.get_eq_ok]
  constructor
  · rintro ⟨_, _, ⟨rfl, rfl⟩, o, _, ⟨ho, rfl⟩, h⟩
    cases hw : o.writer with
    | some w => simp [hw] at h
    | none =>
      simp only [hw, Option.isSome_none, Bool.false_eq_true, if_false, outcome_set,
        Prod.mk.injEq] at h
      obtain ⟨-, rfl⟩ := h
      exact ⟨o, ho, hw, rfl⟩
  · rintro ⟨o, ho, hw, rfl⟩
    refine ⟨m, m, ⟨rfl, rfl⟩, o, m, ⟨ho, rfl⟩, ?_⟩
    simp [hw]

theorem keeps_linkUse (j : OperationId) (i : OperandId) : Keeps Relinked (linkUse j i) := by
  intro m
  rcases h : outcome (linkUse j i) m with ⟨r, m'⟩
  cases r with
  | ok u =>
    obtain ⟨o, ho, rfl⟩ := linkUse_ok.1 h
    refine relinked_set ho ?_
    unfold Operand.addUse
    split <;> rfl
  | error e =>
    simp only [linkUse, outcome_bind_error, outcome_get, outcome_check, outcome_set, Prod.mk.injEq,
      Except.ok.injEq] at h
    obtain h | ⟨_, _, ⟨rfl, rfl⟩, ⟨-, rfl⟩ | ⟨_, _, -, h, -⟩⟩ := h
    · simp at h
    · exact refl_of Relinked _
    · simp at h

theorem keeps_linkWriter (j : OperationId) (i : OperandId) : Keeps Relinked (linkWriter j i) := by
  intro m
  rcases h : outcome (linkWriter j i) m with ⟨r, m'⟩
  cases r with
  | ok u =>
    obtain ⟨o, ho, -, rfl⟩ := linkWriter_ok.1 h
    exact relinked_set ho rfl
  | error e =>
    simp only [linkWriter, outcome_bind_error, outcome_get, outcome_check, Prod.mk.injEq,
      Except.ok.injEq] at h
    obtain h | ⟨_, _, ⟨rfl, rfl⟩, ⟨-, rfl⟩ | ⟨o, _, ⟨-, rfl⟩, h⟩⟩ := h
    · simp at h
    · exact refl_of Relinked _
    · cases hw : o.writer with
      | none => simp [hw] at h
      | some w =>
        simp only [hw, Option.isSome_some, if_true, outcome_throw, outcome_bind, Prod.mk.injEq] at h
        obtain ⟨-, rfl⟩ := h
        exact refl_of Relinked _

/-! ## All links -/

/-- The links met so far: `R` holds of the reads, `W` of the writes. -/
def LinksAre (m : Model) (R W : OperationId → OperandId → Prop) : Prop :=
  ∀ i o, m.operands[i]? = some o → (∀ j, j ∈ o.uses ↔ R j i) ∧ ∀ j, o.writer = some j ↔ W j i

theorem LinksAre.congr {m : Model} {R R' W W' : OperationId → OperandId → Prop}
    (h : LinksAre m R W) (hR : ∀ j i, R j i ↔ R' j i) (hW : ∀ j i, W j i ↔ W' j i) :
    LinksAre m R' W' := by
  intro i o ho
  obtain ⟨hu, hw⟩ := h i o ho
  exact ⟨fun j => (hu j).trans (hR j i), fun j => (hw j).trans (hW j i)⟩

theorem Operand.mem_addUse {o : Operand} {j k : OperationId} :
    k ∈ (o.addUse j).uses ↔ k ∈ o.uses ∨ k = j := by
  unfold Operand.addUse
  split
  · rename_i h
    constructor
    · exact .inl
    · rintro (hk | rfl)
      · exact hk
      · exact h
  · simp

theorem Operand.writer_addUse (o : Operand) (j : OperationId) : (o.addUse j).writer = o.writer := by
  unfold Operand.addUse
  split <;> rfl

theorem LinksAre.use {m m' : Model} {R W : OperationId → OperandId → Prop} {j : OperationId}
    {i : OperandId} (h : LinksAre m R W) (hl : outcome (linkUse j i) m = (.ok (), m')) :
    LinksAre m' (fun k x => R k x ∨ (k = j ∧ x = i)) W := by
  obtain ⟨o, ho, rfl⟩ := linkUse_ok.1 hl
  intro x o' hx
  rw [List.getElem?_set] at hx
  by_cases hxi : i = x
  · subst hxi
    obtain ⟨hi, -⟩ := List.getElem?_eq_some_iff.1 ho
    simp only [if_pos, hi, Option.some.injEq] at hx
    subst hx
    obtain ⟨hu, hw⟩ := h i o ho
    refine ⟨fun k => ?_, fun k => ?_⟩
    · rw [Operand.mem_addUse, hu k]
      simp
    · rw [Operand.writer_addUse, hw k]
  · rw [if_neg hxi] at hx
    obtain ⟨hu, hw⟩ := h x o' hx
    refine ⟨fun k => ?_, hw⟩
    rw [hu k]
    have : ¬x = i := fun he => hxi he.symm
    simp [this]

theorem LinksAre.write {m m' : Model} {R W : OperationId → OperandId → Prop} {j : OperationId}
    {i : OperandId} (h : LinksAre m R W) (hl : outcome (linkWriter j i) m = (.ok (), m')) :
    LinksAre m' R (fun k x => W k x ∨ (k = j ∧ x = i)) := by
  obtain ⟨o, ho, hnone, rfl⟩ := linkWriter_ok.1 hl
  intro x o' hx
  rw [List.getElem?_set] at hx
  by_cases hxi : i = x
  · subst hxi
    obtain ⟨hi, -⟩ := List.getElem?_eq_some_iff.1 ho
    simp only [if_pos, hi, Option.some.injEq] at hx
    subst hx
    obtain ⟨hu, hw⟩ := h i o ho
    refine ⟨hu, fun k => ?_⟩
    -- No write of this operand was met before.
    have hk : ¬W k i := by rw [← hw k, hnone]; simp
    simp only [Option.some.injEq, hk, false_or, and_true]
    exact eq_comm
  · rw [if_neg hxi] at hx
    obtain ⟨hu, hw⟩ := h x o' hx
    refine ⟨hu, fun k => ?_⟩
    rw [hw k]
    have : ¬x = i := fun he => hxi he.symm
    simp [this]

theorem LinksAre.uses {j : OperationId} : ∀ {is : List OperandId} {m m' : Model}
    {R W : OperationId → OperandId → Prop}, LinksAre m R W →
    outcome (is.forM (linkUse j)) m = (.ok (), m') →
    LinksAre m' (fun k x => R k x ∨ (k = j ∧ x ∈ is)) W := by
  intro is m m' R W h hl
  refine forM_invariant (fun done s => LinksAre s (fun k x => R k x ∨ (k = j ∧ x ∈ done)) W)
    (fun done i s s' hs hi => ?_) [] (h.congr (by simp) (by simp)) hl
  refine (hs.use hi).congr (fun k x => ?_) fun _ _ => Iff.rfl
  simp only [List.mem_append, List.mem_singleton]
  tauto

theorem LinksAre.writes {j : OperationId} : ∀ {is : List OperandId} {m m' : Model}
    {R W : OperationId → OperandId → Prop}, LinksAre m R W →
    outcome (is.forM (linkWriter j)) m = (.ok (), m') →
    LinksAre m' R (fun k x => W k x ∨ (k = j ∧ x ∈ is)) := by
  intro is m m' R W h hl
  refine forM_invariant (fun done s => LinksAre s R (fun k x => W k x ∨ (k = j ∧ x ∈ done)))
    (fun done i s s' hs hi => ?_) [] (h.congr (by simp) (by simp)) hl
  refine (hs.write hi).congr (fun _ _ => Iff.rfl) fun k x => ?_
  simp only [List.mem_append, List.mem_singleton]
  tauto

/-- The links that one operation of a list with indices makes. -/
theorem linkAll_ok {ops : List (Operation × OperationId)} {m m' : Model}
    (h : LinksAre m (fun _ _ => False) (fun _ _ => False))
    (hl : outcome (ops.forM fun (op, j) => do
      op.inputs.forM (linkUse j)
      op.outputs.forM (linkWriter j)) m = (.ok (), m')) :
    LinksAre m' (fun j i => ∃ op, (op, j) ∈ ops ∧ i ∈ op.inputs)
      (fun j i => ∃ op, (op, j) ∈ ops ∧ i ∈ op.outputs) := by
  refine forM_invariant (fun done s => LinksAre s (fun j i => ∃ op, (op, j) ∈ done ∧ i ∈ op.inputs)
    (fun j i => ∃ op, (op, j) ∈ done ∧ i ∈ op.outputs))
    (fun done p s s' hs hp => ?_) [] (h.congr (by simp) (by simp)) hl
  obtain ⟨op, j⟩ := p
  obtain ⟨_, s₁, h₁, h₂⟩ := outcome_bind_ok.1 hp
  refine ((hs.uses h₁).writes h₂).congr (fun k x => ?_) fun k x => ?_
  all_goals
    simp only [List.mem_append, List.mem_singleton, Prod.mk.injEq]
    constructor
    · rintro (⟨op', hd, hx⟩ | ⟨rfl, hx⟩)
      · exact ⟨op', .inl hd, hx⟩
      · exact ⟨op, .inr ⟨rfl, rfl⟩, hx⟩
    · rintro ⟨op', hd | ⟨rfl, rfl⟩, hx⟩
      · exact .inl ⟨op', hd, hx⟩
      · exact .inr ⟨rfl, hx⟩

theorem keeps_link : Keeps Relinked link := by
  refine Keeps.bind (fun m => ?_) fun _ => Keeps.get.bind fun m => Keeps.forM (fun (op, j) => ?_) _
  · refine ⟨?_, rfl, rfl, rfl, rfl, rfl⟩
    simp only [outcome_modify, List.map_map]
    rfl
  · exact (Keeps.forM (keeps_linkUse j) _).bind fun _ => Keeps.forM (keeps_linkWriter j) _

/-- A model whose linking succeeds is linked as its operations say. -/
theorem link_ok {m m' : Model} (h : outcome link m = (.ok (), m')) : m'.Linked := by
  have hk := keeps_link.of_eq h
  simp only [link, outcome_bind_ok, outcome_modify, outcome_get, Prod.mk.injEq,
    Except.ok.injEq] at h
  obtain ⟨-, _, ⟨-, rfl⟩, _, _, ⟨rfl, rfl⟩, h⟩ := h
  have hl := linkAll_ok (fun i o ho => ?_) h
  · have hops : ∀ {j op}, (op, j) ∈ m.operations.zipIdx ↔ m'.operations[j]? = some op := by
      intro j op
      rw [List.mk_mem_zipIdx_iff_getElem?, hk.operations]
    constructor
    · intro i o ho j
      simpa only [Reads, hops] using (hl i o ho).1 j
    · intro i o ho j
      simpa only [Writes, hops] using (hl i o ho).2 j
  · simp only [List.getElem?_map] at ho
    obtain ⟨o', -, rfl⟩ := Option.map_eq_some_iff.1 ho
    simp [Operand.clearLinks]

/-! ## Readers in index order -/

/-- Every operand lists its readers in ascending order. -/
def ReadersAscend (m : Model) : Prop := ∀ o ∈ m.operands, o.uses.Pairwise (· < ·)

/-- The readers met so far, all of them up to operation `j`, are listed in ascending order. -/
def ReadersUpTo (j : OperationId) (m : Model) : Prop :=
  ∀ o ∈ m.operands, o.uses.Pairwise (· < ·) ∧ ∀ k ∈ o.uses, k ≤ j

theorem ReadersUpTo.mono {m : Model} {j k : OperationId} (h : ReadersUpTo j m) (hjk : j ≤ k) :
    ReadersUpTo k m :=
  fun o ho => ⟨(h o ho).1, fun l hl => Nat.le_trans ((h o ho).2 l hl) hjk⟩

/-- A reader that comes after those listed, or is the last of them, keeps the order. -/
theorem Operand.pairwise_addUse {o : Operand} {j : OperationId} (hlt : o.uses.Pairwise (· < ·))
    (hle : ∀ k ∈ o.uses, k ≤ j) : (o.addUse j).uses.Pairwise (· < ·) := by
  unfold Operand.addUse
  split
  · exact hlt
  · rename_i hnew
    refine List.pairwise_append.2 ⟨hlt, List.pairwise_singleton _ _, fun k hk l hl => ?_⟩
    obtain rfl := List.mem_singleton.1 hl
    have hne : k ≠ l := fun he => hnew (he ▸ hk)
    exact Nat.lt_of_le_of_ne (hle k hk) hne

theorem ReadersUpTo.linkUse {m m' : Model} {j : OperationId} {i : OperandId}
    (h : ReadersUpTo j m) (hl : outcome (linkUse j i) m = (.ok (), m')) : ReadersUpTo j m' := by
  obtain ⟨o, ho, rfl⟩ := linkUse_ok.1 hl
  obtain ⟨hlt, hle⟩ := h o (List.mem_of_getElem? ho)
  intro o' ho'
  rcases List.mem_or_eq_of_mem_set ho' with hold | rfl
  · exact h o' hold
  · refine ⟨Operand.pairwise_addUse hlt hle, fun k hk => ?_⟩
    rcases Operand.mem_addUse.1 hk with hk | rfl
    · exact hle k hk
    · exact Nat.le_refl k

theorem ReadersUpTo.linkWriter {m m' : Model} {j k : OperationId} {i : OperandId}
    (h : ReadersUpTo j m) (hl : outcome (linkWriter k i) m = (.ok (), m')) : ReadersUpTo j m' := by
  obtain ⟨o, ho, -, rfl⟩ := linkWriter_ok.1 hl
  intro o' ho'
  rcases List.mem_or_eq_of_mem_set ho' with hold | rfl
  · exact h o' hold
  · exact h o (List.mem_of_getElem? ho)

/-- Operations are gone through by index, so readers are met in ascending order. -/
theorem ReadersUpTo.linkAll : ∀ {ops : List Operation} {n : Nat} {m m' : Model},
    ReadersUpTo n m → outcome ((ops.zipIdx n).forM fun (op, j) => do
      op.inputs.forM (Model.linkUse j)
      op.outputs.forM (Model.linkWriter j)) m = (.ok (), m') → ReadersAscend m'
  | [], n, m, m', h, hl => by
    obtain ⟨-, rfl⟩ := Prod.mk.inj hl
    exact fun o ho => (h o ho).1
  | op :: ops, n, m, m', h, hl => by
    rw [List.zipIdx_cons, List.forM_eq_forM, List.forM_cons, outcome_bind_ok] at hl
    obtain ⟨_, m₁, hop, hrest⟩ := hl
    obtain ⟨_, m₂, hin, hout⟩ := outcome_bind_ok.1 hop
    have h₂ : ReadersUpTo n m₂ :=
      forM_invariant (fun _ => ReadersUpTo n) (fun _ _ _ _ hs hi => hs.linkUse hi) [] h hin
    have h₁ : ReadersUpTo n m₁ :=
      forM_invariant (fun _ => ReadersUpTo n) (fun _ _ _ _ hs hi => hs.linkWriter hi) [] h₂ hout
    exact ReadersUpTo.linkAll (h₁.mono (Nat.le_succ n)) hrest

theorem link_ascends {m m' : Model} (h : outcome link m = (.ok (), m')) : m'.ReadersAscend := by
  simp only [link, outcome_bind_ok, outcome_modify, outcome_get, Prod.mk.injEq,
    Except.ok.injEq] at h
  obtain ⟨-, _, ⟨-, rfl⟩, _, _, ⟨rfl, rfl⟩, h⟩ := h
  refine ReadersUpTo.linkAll (n := 0) (fun o ho => ?_) h
  obtain ⟨o', -, rfl⟩ := List.mem_map.1 ho
  simp [Operand.clearLinks]

/-! ## Linking succeeds -/

/-- Of `count` operands, those that have a writer are among `written`. -/
structure WrittenIn (count : Nat) (written : List OperandId) (m : Model) : Prop where
  length : m.operands.length = count
  writer : ∀ {i o}, m.operands[i]? = some o → o.writer.isSome → i ∈ written

theorem WrittenIn.linkUse {m : Model} {count : Nat} {written : List OperandId} {i : OperandId}
    (h : WrittenIn count written m) (j : OperationId) (hi : i < count) :
    ∃ m', outcome (linkUse j i) m = (.ok (), m') ∧ WrittenIn count written m' := by
  have ho := List.getElem?_eq_getElem (h.length ▸ hi)
  refine ⟨_, linkUse_ok.2 ⟨_, ho, rfl⟩, by simpa using h.length, fun {x o} hx hw => ?_⟩
  rw [List.getElem?_set] at hx
  split at hx
  · rename_i hix
    subst hix
    rw [if_pos (List.getElem?_eq_some_iff.1 ho).1, Option.some.injEq] at hx
    rw [← hx, Operand.writer_addUse] at hw
    exact h.writer ho hw
  · exact h.writer hx hw

theorem WrittenIn.linkWriter {m : Model} {count : Nat} {written : List OperandId} {i : OperandId}
    (h : WrittenIn count written m) (j : OperationId) (hi : i < count) (hnew : i ∉ written) :
    ∃ m', outcome (linkWriter j i) m = (.ok (), m') ∧ WrittenIn count (written ++ [i]) m' := by
  obtain ⟨o₀, ho⟩ : ∃ o, m.operands[i]? = some o := ⟨_, List.getElem?_eq_getElem (h.length ▸ hi)⟩
  have hnone : o₀.writer = none := by
    rw [← Option.not_isSome_iff_eq_none]
    exact fun hw => hnew (h.writer ho hw)
  refine ⟨_, linkWriter_ok.2 ⟨_, ho, hnone, rfl⟩, by simpa using h.length, fun {x o} hx hw => ?_⟩
  rw [List.getElem?_set] at hx
  split at hx
  · rename_i hix
    exact List.mem_append_right _ (hix ▸ List.mem_singleton_self i)
  · exact List.mem_append_left _ (h.writer hx hw)

/-- **Linking succeeds if the operands that operations name exist and none is written twice.** -/
theorem link_total {m : Model}
    (hin : ∀ op ∈ m.operations, ∀ i ∈ op.inputs ++ op.outputs, i < m.operands.length)
    (hsingle : (m.operations.flatMap (·.outputs)).Nodup) : ∃ m', outcome link m = (.ok (), m') := by
  let outputsOf (ops : List (Operation × OperationId)) : List OperandId :=
    ops.flatMap fun (op, _) => op.outputs
  have hall : m.operations.flatMap (·.outputs) = outputsOf m.operations.zipIdx := by
    rw [← List.zipIdx_map_fst 0 m.operations, List.flatMap_map]
    simp [outputsOf]
  rw [hall] at hsingle
  let I (done : List (Operation × OperationId)) (s : Model) : Prop :=
    WrittenIn m.operands.length (outputsOf done) s
  have start : I [] { m with operands := m.operands.map Operand.clearLinks } := by
    refine ⟨by simp, fun {i o} ho hw => ?_⟩
    simp only [List.getElem?_map] at ho
    obtain ⟨o', -, rfl⟩ := Option.map_eq_some_iff.1 ho
    cases hw
  have step : ∀ done p rest s, m.operations.zipIdx = done ++ p :: rest → I done s →
      ∃ s', outcome (do p.1.inputs.forM (linkUse p.2); p.1.outputs.forM (linkWriter p.2)) s
        = (.ok ⟨⟩, s') ∧ I (done ++ [p]) s' := by
    rintro done ⟨op, j⟩ rest s hops hs
    have hop : op ∈ m.operations := by
      have hmem : (op, j) ∈ m.operations.zipIdx := by simp [hops]
      exact List.mem_of_getElem? (List.mk_mem_zipIdx_iff_getElem?.1 hmem)
    have hrange : ∀ i ∈ op.inputs ++ op.outputs, i < m.operands.length := hin op hop
    have hnodup : (outputsOf done ++ (op.outputs ++ outputsOf rest)).Nodup := by
      simpa [outputsOf, hops] using hsingle
    obtain ⟨s₁, hs₁, hw₁⟩ := forM_total
      (fun _ s => WrittenIn m.operands.length (outputsOf done) s) (l := op.inputs)
      (fun _ i _ s hi hs => hs.linkUse j (hrange i (by simp [hi]))) hs
    obtain ⟨s₂, hs₂, hw₂⟩ := forM_total
      (fun written s => WrittenIn m.operands.length (outputsOf done ++ written) s)
      (l := op.outputs) (fun written i later s hi hs => by
        have hnew : i ∉ outputsOf done ++ written := by
          rw [hi, List.append_assoc, ← List.append_assoc, List.cons_append] at hnodup
          exact fun hmem => List.disjoint_of_nodup_append hnodup hmem List.mem_cons_self
        obtain ⟨s', hs', hw'⟩ := hs.linkWriter j (hrange i (by simp [hi])) hnew
        exact ⟨s', hs', by simpa using hw'⟩) (by simpa using hw₁)
    refine ⟨s₂, ?_, by simpa [I, outputsOf] using hw₂⟩
    rw [outcome_bind_of_ok hs₁, hs₂]
  obtain ⟨m', hm', -⟩ := forM_total I step start
  refine ⟨m', ?_⟩
  rw [link, outcome_bind_of_ok (outcome_modify _ m), outcome_bind_of_ok (outcome_get _)]
  exact hm'

end Model

end HeteroNet
