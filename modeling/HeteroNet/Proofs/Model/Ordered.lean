import HeteroNet.Model.Order
import HeteroNet.Proofs.Lists
import HeteroNet.Proofs.Model.Checked

/-
The order in which the operations of a lowered model run. Every operation stands in it once, and no
operation reads what it writes itself or what one after it writes (`Ordered`). That is all a proof
needs of the order.
-/

namespace HeteroNet.Model

/-- No operation reads what it or one after it writes. -/
def Ordered : List (Operation × Placement) → Prop
  | [] => True
  | q :: post => (∀ i ∈ q.1.inputs, ∀ r ∈ q :: post, i ∉ r.1.outputs) ∧ Ordered post

theorem Ordered.outputs_not_read : ∀ {ops : List (Operation × Placement)}, Ordered ops →
    ∀ q ∈ ops, ∀ i ∈ q.1.outputs, i ∉ q.1.inputs
  | _ :: _, h, q, hq, i, ho, hi => by
    rcases List.mem_cons.1 hq with rfl | hq
    · exact h.1 i hi q List.mem_cons_self ho
    · exact outputs_not_read h.2 q hq i ho hi

variable {m : Model}

/-! ## Edges -/

theorem successors_ok {j : OperationId} {next : List (OperandId × OperationId)}
    (h : m.successors j = .ok next) : ∃ op, m.operations[j]? = some op ∧
      ∀ i k, (i, k) ∈ next ↔ i ∈ op.outputs ∧ ∃ o, m.operands[i]? = some o ∧ k ∈ o.uses := by
  obtain ⟨op, hop, h⟩ := bind_eq_ok.1 h
  obtain ⟨edges, hedges, h⟩ := bind_eq_ok.1 h
  rw [pure_eq_ok] at h
  subst h
  have hop' : m.operations[j]? = some op := by
    unfold operation at hop
    split at hop
    · rename_i op' hop'
      cases hop
      exact hop'
    · cases hop
  refine ⟨op, hop', fun i k => ?_⟩
  have hall : List.Forall₂ (fun i e => ∃ o, m.operands[i]? = some o ∧
      e = o.uses.map fun user => (i, user)) op.outputs edges := by
    refine (mapM_eq_ok.1 hedges).imp fun i e he => ?_
    obtain ⟨o, ho, he⟩ := bind_eq_ok.1 he
    exact ⟨o, Operands.get_eq_ok.1 ho, (pure_eq_ok.1 he).symm⟩
  generalize op.outputs = is at hall ⊢
  clear * - hall
  induction hall with
  | nil => simp
  | @cons i' e is es he _ ih =>
    obtain ⟨o, ho, rfl⟩ := he
    simp only [List.flatten_cons, List.mem_append, List.mem_map, Prod.mk.injEq, ih, List.mem_cons]
    constructor
    · rintro (⟨k', hk, rfl, rfl⟩ | ⟨hi, hk⟩)
      · exact ⟨.inl rfl, o, ho, hk⟩
      · exact ⟨.inr hi, hk⟩
    · rintro ⟨rfl | hi, o', ho', hk⟩
      · rw [ho] at ho'
        cases ho'
        exact .inl ⟨k, hk, rfl, rfl⟩
      · exact .inr ⟨hi, o', ho', hk⟩

/-- A reader of what an operation writes is a successor of it. -/
theorem mem_successors (hl : m.Linked) (hc : m.Checked) {j k : OperationId}
    {next : List (OperandId × OperationId)} (h : m.successors j = .ok next) {i : OperandId}
    (hj : m.Writes j i) (hk : m.Reads k i) : (i, k) ∈ next := by
  obtain ⟨op, hop, hnext⟩ := successors_ok h
  obtain ⟨op', hop', hi⟩ := hj
  rw [hop] at hop'
  cases hop'
  have hlt := hc.output_lt (List.mem_of_getElem? hop) hi
  exact (hnext i k).2 ⟨hi, _, List.getElem?_eq_getElem hlt,
    (hl.uses (List.getElem?_eq_getElem hlt) k).2 hk⟩

/-! ## The order -/

/-- **The order holds every operation once, each before those that read what it writes.** -/
theorem linearize_ok (hl : m.Linked) (hc : m.Checked) {order : List OperationId}
    (h : m.linearize = .ok order) :
    order.Nodup ∧ Search.Closed m order ∧ ∀ j, j ∈ order ↔ j < m.operations.length := by
  obtain ⟨_, -, h⟩ := bind_eq_ok.1 h
  obtain ⟨s, hs, h⟩ := bind_eq_ok.1 h
  rw [pure_eq_ok] at h
  subst h
  obtain ⟨s', hs'⟩ := discard_eq_ok.1 hc.acyclic
  have hsame := Search.all_mono (f := fun _ => pure ()) (fun _ _ => rfl) hs'
  rw [hs] at hsame
  cases hsame
  refine Search.all_ok (fun via => throw_ne_ok) (fun c next hnext p hp => ?_) hs'
  obtain ⟨op, -, hmem⟩ := successors_ok hnext
  obtain ⟨-, o, ho, hk⟩ := (hmem p.1 p.2).1 hp
  obtain ⟨op', hop', -⟩ := (hl.uses ho p.2).1 hk
  exact (List.getElem?_eq_some_iff.1 hop').1

theorem placedOperations_ok {order : List OperationId} {ops : List (Operation × Placement)} :
    m.placedOperations order = .ok ops ↔ List.Forall₂
      (fun j q => m.operations[j]? = some q.1 ∧ m.placements[j]? = some q.2) order ops := by
  rw [placedOperations, mapM_eq_ok]
  refine ⟨fun h => h.imp fun j q hq => ?_, fun h => h.imp fun j q hq => ?_⟩
  · obtain ⟨op, hop, hq⟩ := bind_eq_ok.1 hq
    obtain ⟨p, hp, hq⟩ := bind_eq_ok.1 hq
    rw [pure_eq_ok] at hq
    subst hq
    unfold operation at hop
    unfold placement at hp
    split at hop <;> split at hp <;> simp_all
  · simp [operation, placement, hq.1, hq.2, bind, Except.bind, pure, Except.pure]

/-- Each operation of an order is one of the model, with its placement. -/
theorem placed_of_mem {order : List OperationId} {ops : List (Operation × Placement)}
    (hops : m.placedOperations order = .ok ops) {q : Operation × Placement} (hq : q ∈ ops) :
    ∃ j : OperationId, m.operations[j]? = some q.1 ∧ m.placements[j]? = some q.2 := by
  obtain ⟨j, -, hj⟩ := (mem_of_forall₂ (placedOperations_ok.1 hops)).1 q hq
  exact ⟨j, hj⟩

theorem ordered_of_closed (hl : m.Linked) (hc : m.Checked) :
    ∀ {order : List OperationId} {ops : List (Operation × Placement)}, order.Nodup →
      Search.Closed m order → List.Forall₂ (fun j q => m.operations[j]? = some q.1 ∧
        m.placements[j]? = some q.2) order ops → Ordered ops
  | [], _, _, _, h => by
    rw [List.forall₂_nil_left_iff.1 h]
    trivial
  | j :: order, _, hn, hcl, h => by
    obtain ⟨q, ops, ⟨hq, -⟩, hops, rfl⟩ := List.forall₂_cons_left_iff.1 h
    obtain ⟨hj, hn⟩ := List.nodup_cons.1 hn
    obtain ⟨hnext, hcl⟩ := hcl
    refine ⟨fun i hi r hr hout => hj ?_, ordered_of_closed hl hc hn hcl hops⟩
    -- The writer is `j` or one after it, so that `j`, which reads, would come after `j`.
    have key : ∀ (order : List OperationId) (ops : List (Operation × Placement)),
        List.Forall₂ (fun j q => m.operations[j]? = some q.1 ∧ m.placements[j]? = some q.2)
          order ops → Search.Closed m order → r ∈ ops → j ∈ order.tail := by
      intro order ops hops hcl hr
      induction hops with
      | nil => cases hr
      | @cons k q' ks qs hk hks ih =>
        obtain ⟨⟨next, hnext, hall⟩, hcl⟩ := hcl
        rcases List.mem_cons.1 hr with rfl | hr
        · exact hall _ (mem_successors hl hc hnext ⟨_, hk.1, hout⟩ ⟨_, hq, hi⟩)
        · exact List.mem_of_mem_tail (ih hcl hr)
    exact key _ _ h ⟨hnext, hcl⟩ hr

end HeteroNet.Model
