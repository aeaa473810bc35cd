import HeteroNet.Proofs.Model.Ordered

/-
Dependency cycles. One operation feeds another if it writes an operand that the other reads; a
model is acyclic if no operation feeds itself, directly or through others.

The search that refuses open operations finds a cycle if there is one (`checkAcyclic_iff`), and the
operand it names lies on one (`checkAcyclic_error`). Soundness needs one more invariant of the
stack: every operation on it leads to those above it (`Climbing`), so that an edge from the top back
to an open operation closes a cycle. Completeness is read off the order in which a search that
refused nothing leaves the operations: places in it grow along every edge.
-/

namespace HeteroNet

namespace Model

/-- Operation `j` writes an operand that operation `k` reads. -/
def Feeds (m : Model) (j k : OperationId) : Prop := ∃ i, m.Writes j i ∧ m.Reads k i

/-- No operation depends on its own result. -/
def Acyclic (m : Model) : Prop := ∀ j, ¬Relation.TransGen m.Feeds j j

/-- Operand `i` lies on a cycle: an operation that reads it leads back to the one that writes it. -/
def OnCycle (m : Model) (i : OperandId) : Prop :=
  ∃ j k, m.Writes j i ∧ m.Reads k i ∧ Relation.ReflTransGen m.Feeds k j

variable {m : Model}

theorem OnCycle.not_acyclic {i : OperandId} (h : m.OnCycle i) : ¬m.Acyclic := by
  obtain ⟨j, k, hj, hk, hback⟩ := h
  exact fun hac => hac j (Relation.TransGen.head' ⟨i, hj, hk⟩ hback)

/-- A model is acyclic if its operations can be numbered so that numbers grow along every edge. -/
theorem acyclic_of_rank (rank : OperationId → Nat)
    (h : ∀ j k, m.Feeds j k → rank j < rank k) : m.Acyclic := by
  have hgrow : ∀ {j k}, Relation.TransGen m.Feeds j k → rank j < rank k := by
    intro j k hjk
    induction hjk with
    | single hj => exact h _ _ hj
    | tail _ hlast ih => exact Nat.lt_trans ih (h _ _ hlast)
  exact fun j hj => Nat.lt_irrefl _ (hgrow hj)

/-- The successors of an operation are the operations that read what it writes. -/
theorem successors_linked (hl : m.Linked) {j : OperationId} (hj : j < m.operations.length)
    (hin : ∀ {i}, m.Writes j i → i < m.operands.length) :
    ∃ next, m.successors j = .ok next ∧ ∀ i k, (i, k) ∈ next ↔ m.Writes j i ∧ m.Reads k i := by
  obtain ⟨op, hop⟩ : ∃ op, m.operations[j]? = some op := ⟨_, List.getElem?_eq_getElem hj⟩
  have hwrites : ∀ {i}, m.Writes j i ↔ i ∈ op.outputs := by
    intro i
    simp [Writes, hop]
  have hread : ∀ i ∈ op.outputs, ∃ edges : List (OperandId × OperationId),
      (do return (← m.operands.get i).uses.map fun user => (i, user)) = Except.ok edges := by
    intro i hi
    have ho := List.getElem?_eq_getElem (hin (hwrites.2 hi))
    exact ⟨_, bind_eq_ok.2 ⟨_, Operands.get_eq_ok.2 ho, rfl⟩⟩
  obtain ⟨edges, hedges⟩ := exists_forall₂ hread
  have hnext : m.successors j = .ok edges.flatten := by
    unfold successors operation
    simp only [hop]
    exact bind_eq_ok.2 ⟨op, rfl, bind_eq_ok.2 ⟨edges, mapM_eq_ok.2 hedges, rfl⟩⟩
  obtain ⟨op', hop', hmem⟩ := successors_ok hnext
  rw [hop, Option.some.injEq] at hop'
  subst hop'
  refine ⟨_, hnext, fun i k => (hmem i k).trans ?_⟩
  rw [hwrites]
  constructor
  · rintro ⟨hi, o, ho, hk⟩
    exact ⟨hi, (hl.uses ho k).1 hk⟩
  · rintro ⟨hi, hk⟩
    have ho := List.getElem?_eq_getElem (hin (hwrites.2 hi))
    exact ⟨hi, _, ho, (hl.uses ho k).2 hk⟩

end Model

/-! ## What a refused edge closes -/

namespace Search

open Model Relation

variable {m : Model} {onOpen : OperandId → Except Error Unit} {s s' : Search} {e : Error}

/-- Every stacked operation leads to those stacked above it. -/
def Climbing (m : Model) (s : Search) : Prop :=
  (s.stack.map Prod.fst).Pairwise fun above below => ReflTransGen m.Feeds below above

/-- The edges of a search: every operation has its successors, which read what it writes. -/
structure Edges (m : Model) : Prop where
  total : ∀ {j}, j < m.operations.length → ∃ next, m.successors j = .ok next
  feeds : ∀ {j next}, m.successors j = .ok next → ∀ p ∈ next, m.Writes j p.1 ∧ m.Reads p.2 p.1

theorem Edges.range (h : Edges m) (j : OperationId) (next : List (OperandId × OperationId))
    (hnext : m.successors j = .ok next) : ∀ p ∈ next, p.2 < m.operations.length := by
  intro p hp
  obtain ⟨-, op, hop, -⟩ := h.feeds hnext p hp
  exact (List.getElem?_eq_some_iff.1 hop).1

theorem Climbing.visit {u : OperationId} (h : Climbing m s)
    (hu : ∀ c ∈ s.stack.map Prod.fst, ReflTransGen m.Feeds c u) : Climbing m (s.visit u) :=
  List.pairwise_cons.2 ⟨hu, h⟩

/-- **A step keeps the stack climbing.** -/
theorem Climbing.step (h : Climbing m s) (hedges : Edges m) (hne : s.stack ≠ [])
    (hs : s.step m onOpen = .ok s') : Climbing m s' := by
  obtain ⟨⟨c, n⟩, rest, hst⟩ := List.exists_cons_of_ne_nil hne
  unfold Climbing at h
  rw [hst, List.map_cons, List.pairwise_cons] at h
  obtain ⟨next, hnext, ⟨-, rfl⟩ | ⟨via, u, hu, ⟨-, rfl⟩ | ⟨-, -, rfl⟩⟩⟩ := step_ok hst hs
  · exact h.2
  · obtain ⟨hw, hr⟩ := hedges.feeds hnext _ (List.mem_of_getElem? hu)
    have hfeeds : ReflTransGen m.Feeds c u := .single ⟨via, hw, hr⟩
    refine Climbing.visit (s := { s with stack := (c, n + 1) :: rest })
      (List.pairwise_cons.2 h) fun d hd => ?_
    rcases List.mem_cons.1 hd with rfl | hd
    · exact hfeeds
    · exact (h.1 d hd).trans hfeeds
  · exact List.pairwise_cons.2 h

/-- **A step stops only at an edge that closes a cycle.** -/
theorem step_error (h : Sound m s) (hclimb : Climbing m s) (hedges : Edges m)
    (hs : s.step m onOpen = .error e) : ∃ via, m.OnCycle via ∧ onOpen via = .error e := by
  unfold Search.step at hs
  split at hs
  · cases hs
  · rename_i c n rest hst
    have hcopen : s.marks[c]? = some .opened := (h.opened c).2 (by simp [hst])
    have hclt : c < m.operations.length := h.size ▸ (List.getElem?_eq_some_iff.1 hcopen).1
    obtain ⟨next, hnext⟩ := hedges.total hclt
    rw [hnext] at hs
    obtain hs | ⟨_, hn, hs⟩ := bind_eq_error.1 hs
    · cases hs
    cases hn
    split at hs
    · exact absurd hs pure_ne_error
    · rename_i via u hu
      dsimp only at hs
      split at hs
      · exact absurd hs pure_ne_error
      · rename_i hopen
        obtain ⟨hw, hr⟩ := hedges.feeds hnext _ (List.mem_of_getElem? hu)
        have hback : ReflTransGen m.Feeds u c := by
          have hmem : u ∈ s.stack.map Prod.fst := (h.opened u).1 hopen
          unfold Climbing at hclimb
          rw [hst, List.map_cons] at hmem hclimb
          rcases List.mem_cons.1 hmem with rfl | hmem
          · exact .refl
          · exact (List.pairwise_cons.1 hclimb).1 u hmem
        refine ⟨via, ⟨c, u, hw, hr, hback⟩, ?_⟩
        obtain hs | ⟨_, -, hs⟩ := bind_eq_error.1 hs
        · exact hs
        · exact absurd hs pure_ne_error
      · exact absurd hs pure_ne_error

/-- A run stops only at an edge that closes a cycle. -/
theorem run_error (hrefuse : ∀ via, onOpen via ≠ .ok ()) (hedges : Edges m) :
    ∀ {fuel : Nat} {s : Search}, Sound m s → Climbing m s →
      Search.run m onOpen fuel s = .error e → ∃ via, m.OnCycle via ∧ onOpen via = .error e
  | 0, _, _, _, hr => by cases hr
  | fuel + 1, s, h, hclimb, hr => by
    rw [Search.run] at hr
    split at hr
    · cases hr
    · rename_i hempty
      have hne : s.stack ≠ [] := fun he => hempty (by simp [he])
      obtain hs | ⟨s₁, hs, hr⟩ := bind_eq_error.1 hr
      · exact step_error h hclimb hedges hs
      · exact run_error hrefuse hedges (h.step hrefuse hedges.range hne hs)
          (hclimb.step hedges hne hs) hr

/-- **A search of everything stops only at an edge that closes a cycle.** -/
theorem all_error (hrefuse : ∀ via, onOpen via ≠ .ok ()) (hedges : Edges m)
    (h : Search.all m onOpen = .error e) : ∃ via, m.OnCycle via ∧ onOpen via = .error e := by
  suffices key : ∀ (l : List OperationId) (s₀ : Search), Sound m s₀ → s₀.stack = [] →
      work m s₀ ≤ m.searchBound →
      l.foldlM (Search.runFrom m onOpen m.searchBound) s₀ = .error e →
      ∃ via, m.OnCycle via ∧ onOpen via = .error e from
    key _ _ (sound_initial m) rfl (Nat.le_of_eq (work_initial m)) h
  intro l
  induction l with
  | nil =>
    intro s₀ _ _ _ hl
    cases hl
  | cons i l ih =>
    intro s₀ h₀ hst hw hl
    obtain h₁ | ⟨s₁, h₁, hl⟩ := bind_eq_error.1 hl
    · unfold Search.runFrom at h₁
      split at h₁
      · rename_i hi
        refine run_error hrefuse hedges (h₀.visit hi) (Climbing.visit ?_ ?_) h₁
        · simp [Climbing, hst]
        · simp [hst]
      · cases h₁
    · obtain ⟨hs₁, hst₁, hw₁, -⟩ := h₀.runFrom hrefuse hedges.range hst hw h₁
      exact ih s₁ hs₁ hst₁ hw₁ hl

/-! ## Places in an order -/

/-- In an order where each operation stands before its successors, places grow along every
edge. -/
theorem Closed.idxOf_lt : ∀ {order : List OperationId}, Closed m order → order.Nodup →
    ∀ {j : OperationId} {next : List (OperandId × OperationId)}, j ∈ order →
      m.successors j = .ok next → ∀ p ∈ next, p.2 ∈ order ∧ order.idxOf j < order.idxOf p.2
  | c :: post, ⟨⟨nextc, hnextc, hpost⟩, hclosed⟩, hn, j, next, hj, hnext, p, hp => by
    obtain ⟨hc, hn⟩ := List.nodup_cons.1 hn
    have hafter : p.2 ∈ post ∧ (j ≠ c → post.idxOf j < post.idxOf p.2) := by
      rcases List.mem_cons.1 hj with rfl | hj
      · rw [hnextc] at hnext
        cases hnext
        exact ⟨hpost p hp, fun hne => absurd rfl hne⟩
      · obtain ⟨hmem, hlt⟩ := hclosed.idxOf_lt hn hj hnext p hp
        exact ⟨hmem, fun _ => hlt⟩
    have hpc : c ≠ p.2 := fun he => hc (he ▸ hafter.1)
    refine ⟨List.mem_cons_of_mem c hafter.1, ?_⟩
    rw [List.idxOf_cons_ne _ hpc]
    by_cases hjc : j = c
    · rw [hjc, List.idxOf_cons_self]
      exact Nat.succ_pos _
    · rw [List.idxOf_cons_ne _ fun he => hjc he.symm]
      exact Nat.succ_lt_succ (hafter.2 hjc)

end Search

namespace Model

variable {m : Model}

/-! ## The check -/

theorem edges_of_linked (hl : m.Linked) (hin : ∀ {j i}, m.Writes j i → i < m.operands.length) :
    Search.Edges m where
  total := by
    intro j hj
    obtain ⟨next, hnext, -⟩ := successors_linked hl hj hin
    exact ⟨next, hnext⟩
  feeds := by
    intro j next hnext p hp
    obtain ⟨op, hop, -⟩ := successors_ok hnext
    obtain ⟨next', hnext', hmem⟩ :=
      successors_linked hl (List.getElem?_eq_some_iff.1 hop).1 hin
    rw [hnext] at hnext'
    cases hnext'
    exact (hmem p.1 p.2).1 hp

/-- **The operand that the check names lies on a cycle**, and the check has no other complaint. -/
theorem checkAcyclic_error (hl : m.Linked) (hin : ∀ {j i}, m.Writes j i → i < m.operands.length)
    {e : Error} (h : m.checkAcyclic = .error e) :
    ∃ via, e = .graph (.cycle via) ∧ m.OnCycle via := by
  obtain ⟨via, hcycle, hvia⟩ := Search.all_error (fun _ => throw_ne_ok) (edges_of_linked hl hin)
    (discard_eq_error.1 h)
  exact ⟨via, (throw_eq_error.1 hvia).symm, hcycle⟩

/-- A model that passes the check can be numbered along its edges. -/
theorem exists_rank (hl : m.Linked) (hin : ∀ {j i}, m.Writes j i → i < m.operands.length)
    (h : m.checkAcyclic = .ok ()) :
    ∃ rank : OperationId → Nat, ∀ j k, m.Feeds j k → rank j < rank k := by
  have hedges := edges_of_linked hl hin
  obtain ⟨s, hs⟩ := discard_eq_ok.1 h
  obtain ⟨hn, hclosed, hall⟩ := Search.all_ok (fun _ => throw_ne_ok) hedges.range hs
  refine ⟨s.finished.idxOf, fun j k ⟨i, hj, hk⟩ => ?_⟩
  obtain ⟨op, hop, -⟩ := id hj
  have hlt := (List.getElem?_eq_some_iff.1 hop).1
  obtain ⟨next, hnext, hmem⟩ := successors_linked hl hlt hin
  exact (hclosed.idxOf_lt hn ((hall j).2 hlt) hnext _ ((hmem i k).2 ⟨hj, hk⟩)).2

/-- **The check passes the acyclic models.** -/
theorem checkAcyclic_iff (hl : m.Linked) (hin : ∀ {j i}, m.Writes j i → i < m.operands.length) :
    m.checkAcyclic = .ok () ↔ m.Acyclic := by
  constructor
  · intro h
    obtain ⟨rank, hrank⟩ := exists_rank hl hin h
    exact acyclic_of_rank rank hrank
  · intro hac
    cases h : m.checkAcyclic with
    | ok u => rfl
    | error e =>
      obtain ⟨via, -, hcycle⟩ := checkAcyclic_error hl hin h
      exact absurd hac hcycle.not_acyclic

end Model

end HeteroNet
