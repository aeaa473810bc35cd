import HeteroNet.Proofs.Model.Linearized
import HeteroNet.Proofs.Model.WellFormed

/-
What a search costs. A walk counts the turns of the loop and lists the operations it pushes
(`Walk`); it is made of the steps of the search alone and has no bound of its own, so that it ends
at all is something to prove (`exists_walk`), and that the bound of the search cuts nothing off
follows from it (`Walk.run_eq`).

The measure is the work left: what a walk took and what it leaves are what there was
(`Walk.spends`), and the operations it pushed and those it leaves unmet are those that were unmet
(`Walk.meets`). Neither needs edges back to open operations to be refused, so both hold on cyclic
models. The work of a whole search is one turn for each operation and one for each edge
(`searchBound_eq`).
-/

namespace HeteroNet

namespace Model

variable {m : Model}

/-! ## Edges -/

/-- The operations that read operand `i`. -/
def readers (m : Model) (i : OperandId) : List OperationId :=
  (List.range m.operations.length).filter fun k =>
    (m.operations[k]?).any fun op => op.inputs.contains i

/-- The edges from operation `j`: each operand it writes, with each operation that reads it. -/
def edgesFrom (m : Model) (j : OperationId) : List (OperandId × OperationId) :=
  match m.operations[j]? with
  | some op => op.outputs.flatMap fun i => (m.readers i).map fun k => (i, k)
  | none => []

/-- The edges of a model: what writes an operand, the operand, and what reads it. -/
def edges (m : Model) : List (OperationId × OperandId × OperationId) :=
  (List.range m.operations.length).flatMap fun j => (m.edgesFrom j).map fun e => (j, e)

theorem mem_readers {i : OperandId} {k : OperationId} : k ∈ m.readers i ↔ m.Reads k i := by
  simp only [readers, List.mem_filter, List.mem_range, Reads]
  constructor
  · rintro ⟨hk, hin⟩
    refine ⟨_, List.getElem?_eq_getElem hk, ?_⟩
    simpa [List.getElem?_eq_getElem hk] using hin
  · rintro ⟨op, hop, hi⟩
    exact ⟨(List.getElem?_eq_some_iff.1 hop).1, by simpa [hop] using hi⟩

theorem mem_edges {j k : OperationId} {i : OperandId} :
    (j, i, k) ∈ m.edges ↔ m.Writes j i ∧ m.Reads k i := by
  simp only [edges, edgesFrom, List.mem_flatMap, List.mem_range, List.mem_map, Prod.mk.injEq]
  constructor
  · rintro ⟨_, hj, _, he, rfl, rfl⟩
    rw [List.getElem?_eq_getElem hj] at he
    simp only [List.mem_flatMap, List.mem_map, Prod.mk.injEq] at he
    obtain ⟨_, hi, _, hk, rfl, rfl⟩ := he
    exact ⟨⟨_, List.getElem?_eq_getElem hj, hi⟩, mem_readers.1 hk⟩
  · rintro ⟨⟨op, hop, hi⟩, hk⟩
    refine ⟨j, (List.getElem?_eq_some_iff.1 hop).1, (i, k), ?_, rfl, rfl⟩
    rw [hop]
    simp only [List.mem_flatMap, List.mem_map, Prod.mk.injEq]
    exact ⟨i, hi, k, mem_readers.2 hk, rfl, rfl⟩

/-- No edge is listed twice if no operation writes an operand twice. -/
theorem nodup_edges (h : ∀ op ∈ m.operations, op.outputs.Nodup) : m.edges.Nodup := by
  have hread : ∀ i, (m.readers i).Nodup := fun i => List.nodup_range.filter _
  have hfrom : ∀ j, (m.edgesFrom j).Nodup := by
    intro j
    unfold edgesFrom
    split
    · rename_i op hop
      refine List.nodup_flatMap.2 ⟨fun i _ => (hread i).map fun _ _ he => (Prod.mk.inj he).2, ?_⟩
      refine (h op (List.mem_of_getElem? hop)).imp fun {i i'} hne => ?_
      simp only [Function.onFun, List.disjoint_left, List.mem_map]
      rintro _ ⟨k, -, rfl⟩ ⟨k', -, he⟩
      exact hne (Prod.mk.inj he).1.symm
    · exact List.nodup_nil
  refine List.nodup_flatMap.2 ⟨fun j _ => (hfrom j).map fun _ _ he => (Prod.mk.inj he).2, ?_⟩
  refine List.nodup_range.imp fun {j j'} hne => ?_
  simp only [Function.onFun, List.disjoint_left, List.mem_map]
  rintro _ ⟨e, -, rfl⟩ ⟨e', -, he⟩
  exact hne (Prod.mk.inj he).1.symm

/-- An operand of a linked model lists its readers. -/
theorem Linked.uses_eq (hl : m.Linked) (ha : m.ReadersAscend) {i : OperandId} {o : Operand}
    (ho : m.operands[i]? = some o) : o.uses = m.readers i := by
  have hread : (m.readers i).Pairwise (· < ·) := List.pairwise_lt_range.filter _
  have huses := ha o (List.mem_of_getElem? ho)
  refine List.Perm.eq_of_pairwise' huses hread
    ((List.perm_ext_iff_of_nodup huses.nodup hread.nodup).2 fun k => ?_)
  rw [hl.uses ho, mem_readers]

theorem Linked.successors_eq (hl : m.Linked) (ha : m.ReadersAscend) {j : OperationId}
    {op : Operation} (hop : m.operations[j]? = some op)
    (hin : ∀ i ∈ op.outputs, i < m.operands.length) : m.successors j = .ok (m.edgesFrom j) := by
  have hget : m.operation j = .ok op := by
    unfold operation
    rw [hop]
  refine bind_eq_ok.2 ⟨op, hget, bind_eq_ok.2
    ⟨op.outputs.map fun i => (m.readers i).map fun k => (i, k), mapM_eq_ok.2 ?_, ?_⟩⟩
  · rw [List.forall₂_map_right_iff, List.forall₂_same]
    intro i hi
    have ho := List.getElem?_eq_getElem (hin i hi)
    exact bind_eq_ok.2 ⟨_, Operands.get_eq_ok.2 ho, by rw [hl.uses_eq ha ho]; rfl⟩
  · simp only [edgesFrom, hop, List.flatMap_def]
    rfl

/-- The operands that operations write exist. -/
def OutputsExist (m : Model) : Prop := ∀ op ∈ m.operations, ∀ i ∈ op.outputs, i < m.operands.length

/-- A turn for each operation and one for each edge. -/
theorem searchBound_eq (hl : m.Linked) (ha : m.ReadersAscend) (hin : m.OutputsExist) :
    m.searchBound = m.operations.length + m.edges.length := by
  have hvisits : ∀ j ∈ List.range m.operations.length,
      m.visits j = 1 + (m.edgesFrom j).length := by
    intro j hj
    have hop := List.getElem?_eq_getElem (List.mem_range.1 hj)
    rw [Search.visits_eq (hl.successors_eq ha hop (hin _ (List.getElem_mem _))), Nat.add_comm]
  have hsum : m.searchBound = ((List.range m.operations.length).map m.visits).sum := by
    rw [searchBound, List.sum_eq_foldr, List.foldr_map]
  rw [hsum, List.map_congr_left hvisits, List.sum_map_add, edges, List.length_flatMap]
  simp

end Model

/-! ## Walks -/

namespace Search

variable {m : Model} {onOpen : OperandId → Except Error Unit} {s s' t : Search}
  {starts pushed : List OperationId} {n : Nat} {r : Except Error Search}

/-- The operations that stand on the stack of `s'` above the height of the stack of `s`. -/
def stackedSince (s s' : Search) : List OperationId :=
  (s'.stack.take (s'.stack.length - s.stack.length)).map Prod.fst

/-- A walk from a state, with the starts that are left: which operations it pushes, how many
turns its loop takes, and what it ends with. While something is on the stack a turn is one step;
when nothing is, the next start that was not met is pushed. -/
inductive Walk (m : Model) (onOpen : OperandId → Except Error Unit) :
    List OperationId → Search → List OperationId → Nat → Except Error Search → Prop
  | ends {s : Search} : s.stack = [] → Walk m onOpen [] s [] 0 (.ok s)
  | skip {i : OperationId} {starts pushed : List OperationId} {s : Search} {n : Nat}
      {r : Except Error Search} : s.stack = [] → s.marks[i]? ≠ some .unvisited →
      Walk m onOpen starts s pushed n r → Walk m onOpen (i :: starts) s pushed n r
  | start {i : OperationId} {starts pushed : List OperationId} {s : Search} {n : Nat}
      {r : Except Error Search} : s.stack = [] → s.marks[i]? = some .unvisited →
      Walk m onOpen starts (s.visit i) pushed n r →
      Walk m onOpen (i :: starts) s (i :: pushed) n r
  | turn {starts pushed : List OperationId} {s s' : Search} {n : Nat} {r : Except Error Search} :
      s.stack ≠ [] → s.step m onOpen = .ok s' → Walk m onOpen starts s' pushed n r →
      Walk m onOpen starts s (s.stackedSince s' ++ pushed) (n + 1) r
  | stops {starts : List OperationId} {s : Search} {e : Error} :
      s.stack ≠ [] → s.step m onOpen = .error e → Walk m onOpen starts s [] 1 (.error e)

/-! ### The bound of the search -/

theorem run_of_nil (hst : s.stack = []) (fuel : Nat) : run m onOpen fuel s = .ok s := by
  cases fuel with
  | zero => rfl
  | succ fuel =>
    rw [run, if_pos (by simp [hst])]

/-- A search whose bounds cover a walk ends as the walk does. -/
theorem Walk.run_eq (h : Walk m onOpen starts s pushed n r) {bound : Nat} (hbound : n ≤ bound) :
    ∀ {fuel : Nat}, n ≤ fuel →
      (run m onOpen fuel s >>= fun s' => starts.foldlM (runFrom m onOpen bound) s') = r := by
  induction h with
  | ends hst =>
    intro fuel _
    rw [run_of_nil hst]
    rfl
  | @skip i starts pushed s n r hst hmet _ ih =>
    intro fuel hfuel
    rw [← ih hbound hfuel, run_of_nil hst]
    show (i :: starts).foldlM (runFrom m onOpen bound) s = starts.foldlM (runFrom m onOpen bound) s
    rw [List.foldlM_cons, runFrom, if_neg hmet]
    rfl
  | @start i starts pushed s n r hst hnew _ ih =>
    intro fuel _
    rw [← ih hbound hbound, run_of_nil hst]
    show (i :: starts).foldlM (runFrom m onOpen bound) s = _
    rw [List.foldlM_cons, runFrom, if_pos hnew]
  | turn hne hs _ ih =>
    intro fuel hfuel
    obtain ⟨fuel, rfl⟩ := Nat.exists_eq_add_of_le' (Nat.le_of_add_left_le hfuel)
    rw [← ih (Nat.le_of_succ_le hbound) (Nat.le_of_succ_le_succ hfuel), run,
      if_neg (by simpa using hne), hs]
    rfl
  | stops hne hs =>
    intro fuel hfuel
    obtain ⟨fuel, rfl⟩ := Nat.exists_eq_add_of_le' hfuel
    rw [run, if_neg (by simpa using hne), hs]
    rfl

/-! ### The measure -/

/-- **One step keeps the stack bounded.** -/
theorem Bounded.step (h : Bounded m s) (hne : s.stack ≠ []) (hs : s.step m onOpen = .ok s') :
    Bounded m s' := by
  obtain ⟨⟨c, e⟩, rest, hst⟩ := List.exists_cons_of_ne_nil hne
  have hmet : ∀ p ∈ s.stack, s'.marks[p.1]? ≠ some .unvisited := fun p hp =>
    met_step hne hs (h.stacked p hp).1
  have hrest : ∀ p ∈ rest, s'.marks[p.1]? ≠ some .unvisited ∧ p.2 < m.visits p.1 := by
    intro p hp
    have hp' : p ∈ s.stack := by simp [hst, hp]
    exact ⟨hmet p hp', (h.stacked p hp').2⟩
  have htop := hmet (c, e) (by simp [hst])
  obtain ⟨next, hnext, ⟨-, rfl⟩ | ⟨via, u, hu, hcase⟩⟩ := step_ok hst hs
  · exact ⟨by simp [h.size], hrest⟩
  · have hadvance : e + 1 < m.visits c := by
      rw [visits_eq hnext]
      exact Nat.succ_lt_succ (List.getElem?_eq_some_iff.1 hu).1
    obtain ⟨hun, rfl⟩ | ⟨-, -, rfl⟩ := hcase
    · have hlt : u < s.marks.length := (List.getElem?_eq_some_iff.1 hun).1
      refine ⟨by simp [Search.visit, h.size], fun p hp => ?_⟩
      simp only [Search.visit, List.mem_cons] at hp
      rcases hp with rfl | rfl | hp
      · exact ⟨by simp [Search.visit, hlt], visits_pos u⟩
      · exact ⟨htop, hadvance⟩
      · exact hrest p hp
    · refine ⟨h.size, fun p hp => ?_⟩
      rcases List.mem_cons.1 hp with rfl | hp
      · exact ⟨htop, hadvance⟩
      · exact hrest p hp

theorem Bounded.visit (h : Bounded m s) {u : OperationId} (hu : s.marks[u]? = some .unvisited)
    (hst : s.stack = []) : Bounded m (s.visit u) := by
  have hlt : u < s.marks.length := (List.getElem?_eq_some_iff.1 hu).1
  refine ⟨by simp [Search.visit, h.size], fun p hp => ?_⟩
  simp only [Search.visit, hst, List.mem_singleton] at hp
  subst hp
  exact ⟨by simp [Search.visit, hlt], visits_pos u⟩

/-- **What one step stacks was not met, and is from then on.** -/
theorem unmet_step (h : Bounded m s) (hne : s.stack ≠ []) (hs : s.step m onOpen = .ok s') :
    (unmet m s).Perm (s.stackedSince s' ++ unmet m s') := by
  obtain ⟨⟨c, e⟩, rest, hst⟩ := List.exists_cons_of_ne_nil hne
  obtain ⟨next, -, ⟨-, rfl⟩ | ⟨via, u, -, ⟨hun, rfl⟩ | ⟨-, -, rfl⟩⟩⟩ := step_ok hst hs
  · rw [unmet_finish (h.stacked (c, e) (by simp [hst])).1]
    simp [stackedSince, hst]
  · obtain ⟨hmem, herase⟩ : u ∈ unmet m s ∧
        unmet m (visit { s with stack := (c, e + 1) :: rest } u) = (unmet m s).erase u :=
      unmet_visit (s := { s with stack := (c, e + 1) :: rest }) h.size hun
    rw [herase]
    simpa [stackedSince, hst, Search.visit] using List.perm_cons_erase hmem
  · simp [stackedSince, hst, unmet]

/-- Something on the stack is a turn to come. -/
theorem Bounded.work_pos (h : Bounded m s) (hne : s.stack ≠ []) : 0 < work m s := by
  obtain ⟨⟨c, e⟩, rest, hst⟩ := List.exists_cons_of_ne_nil hne
  have he : e < m.visits c := (h.stacked (c, e) (by simp [hst])).2
  simp only [work, hst, List.map_cons, List.sum_cons]
  omega

/-- **A walk does not take more turns than there is work**, and one that ends well takes as many
as it leaves less. -/
theorem Walk.spends (h : Walk m onOpen starts s pushed n r) (hb : Bounded m s) :
    n ≤ work m s ∧ ∀ t, r = .ok t → n + work m t = work m s := by
  induction h with
  | ends _ => simp
  | skip _ _ _ ih => exact ih hb
  | start hst hnew _ ih =>
    rw [← work_visit hb.size hnew]
    exact ih (hb.visit hnew hst)
  | turn hne hs _ ih =>
    obtain ⟨hle, heq⟩ := ih (hb.step hne hs)
    have hstep := work_step hb hne hs
    refine ⟨by omega, fun t ht => ?_⟩
    have := heq t ht
    omega
  | stops hne _ => exact ⟨hb.work_pos hne, by simp⟩

/-- **A walk pushes what was not met**, each operation once, and leaves no start unmet if it ends
well. -/
theorem Walk.meets (h : Walk m onOpen starts s pushed n r) (hb : Bounded m s) :
    ∃ left, (unmet m s).Perm (pushed ++ left) ∧
      ∀ t, r = .ok t → left = unmet m t ∧ t.stack = [] ∧ ∀ i ∈ starts, i ∉ left := by
  have hnodup : ∀ s : Search, (unmet m s).Nodup := fun s => List.nodup_range.filter _
  induction h with
  | @ends s hst => exact ⟨unmet m s, by simp, by simp [hst]⟩
  | @skip i starts pushed s n r _ hmet _ ih =>
    obtain ⟨left, hperm, hok⟩ := ih hb
    refine ⟨left, hperm, fun t ht => ?_⟩
    obtain ⟨hleft, hst, hstarts⟩ := hok t ht
    have hi : i ∉ left := fun hi => by
      have hmem : i ∈ unmet m s := hperm.mem_iff.2 (List.mem_append_right _ hi)
      simp only [unmet, List.mem_filter, decide_eq_true_eq] at hmem
      exact hmet hmem.2
    exact ⟨hleft, hst, List.forall_mem_cons.2 ⟨hi, hstarts⟩⟩
  | @start i starts pushed s n r hst hnew _ ih =>
    obtain ⟨left, hperm, hok⟩ := ih (hb.visit hnew hst)
    obtain ⟨hmem, herase⟩ := unmet_visit hb.size hnew
    rw [herase] at hperm
    have hall : (unmet m s).Perm (i :: pushed ++ left) :=
      (List.perm_cons_erase hmem).trans (hperm.cons i)
    refine ⟨left, hall, fun t ht => ?_⟩
    obtain ⟨hleft, hst', hstarts⟩ := hok t ht
    have hi : i ∉ left := fun hi =>
      (List.nodup_cons.1 (hall.nodup (hnodup s))).1 (List.mem_append_right _ hi)
    exact ⟨hleft, hst', List.forall_mem_cons.2 ⟨hi, hstarts⟩⟩
  | turn hne hs _ ih =>
    obtain ⟨left, hperm, hok⟩ := ih (hb.step hne hs)
    refine ⟨left, ?_, hok⟩
    rw [List.append_assoc]
    exact (unmet_step hb hne hs).trans (hperm.append_left _)
  | @stops starts s e _ _ => exact ⟨unmet m s, by simp, by simp⟩

/-- **Every walk ends.** Each turn leaves less work, and between turns a start is used up. -/
theorem exists_walk (starts : List OperationId) {s : Search} (hb : Bounded m s) :
    ∃ pushed n r, Walk m onOpen starts s pushed n r := by
  by_cases hst : s.stack = []
  · cases starts with
    | nil => exact ⟨_, _, _, .ends hst⟩
    | cons i starts =>
      by_cases hi : s.marks[i]? = some .unvisited
      · have hw := work_visit hb.size hi
        obtain ⟨_, _, _, h⟩ := exists_walk starts (hb.visit hi hst)
        exact ⟨_, _, _, .start hst hi h⟩
      · obtain ⟨_, _, _, h⟩ := exists_walk starts hb
        exact ⟨_, _, _, .skip hst hi h⟩
  · cases hs : s.step m onOpen with
    | error e => exact ⟨_, _, _, .stops hst hs⟩
    | ok s' =>
      have hw := work_step hb hst hs
      obtain ⟨_, _, _, h⟩ := exists_walk starts (hb.step hst hs)
      exact ⟨_, _, _, .turn hst hs h⟩
termination_by work m s + starts.length
decreasing_by
  · rw [hw, List.length_cons]
    omega
  · rw [List.length_cons]
    omega
  · omega

end Search

namespace Model

variable {m : Model} {onOpen : OperandId → Except Error Unit} {pushed : List OperationId}
  {n : Nat} {r : Except Error Search}

/-! ## Walks through a whole model -/

/-- A walk from every operation in index order. -/
def Walks (m : Model) (onOpen : OperandId → Except Error Unit) (pushed : List OperationId)
    (n : Nat) (r : Except Error Search) : Prop :=
  Search.Walk m onOpen (List.range m.operations.length) (Search.initial m) pushed n r

theorem exists_walks (m : Model) (onOpen : OperandId → Except Error Unit) :
    ∃ pushed n r, m.Walks onOpen pushed n r :=
  Search.exists_walk _ (Search.sound_initial m).bounded

/-- The search is the walk: its bound does not end it early. -/
theorem Walks.result (h : m.Walks onOpen pushed n r) : Search.all m onOpen = r := by
  have hle := (h.spends (Search.sound_initial m).bounded).1
  rw [Search.work_initial] at hle
  have heq := h.run_eq hle (Nat.le_refl n)
  rwa [Search.run_of_nil rfl] at heq

/-- A walk pushes no operation twice, whatever it ends with. -/
theorem Walks.nodup (h : m.Walks onOpen pushed n r) : pushed.Nodup := by
  obtain ⟨left, hperm, -⟩ := h.meets (Search.sound_initial m).bounded
  rw [Search.unmet_initial] at hperm
  exact (List.nodup_append.1 (hperm.nodup List.nodup_range)).1

/-- A walk that ends well has met every operation, and has nothing left to do. -/
theorem Walks.ok {t : Search} (h : m.Walks onOpen pushed n (.ok t)) :
    pushed.Perm (List.range m.operations.length) ∧ n = m.searchBound := by
  have hb := (Search.sound_initial m).bounded
  obtain ⟨left, hperm, hok⟩ := h.meets hb
  obtain ⟨hleft, hst, hstarts⟩ := hok t rfl
  rw [Search.unmet_initial] at hperm
  have hnil : left = [] := List.eq_nil_iff_forall_not_mem.2 fun i hi =>
    hstarts i (hperm.mem_iff.2 (List.mem_append_right _ hi)) hi
  have hspent := (h.spends hb).2 t rfl
  rw [Search.work_initial, Search.work, ← hleft, hnil, hst] at hspent
  rw [hnil, List.append_nil] at hperm
  exact ⟨hperm.symm, by simpa using hspent⟩

/-- A walk takes at most a turn for each operation and one for each edge. -/
theorem Walks.le (h : m.Walks onOpen pushed n r) (hl : m.Linked) (ha : m.ReadersAscend)
    (hin : m.OutputsExist) : n ≤ m.operations.length + m.edges.length := by
  have hle := (h.spends (Search.sound_initial m).bounded).1
  rwa [Search.work_initial, searchBound_eq hl ha hin] at hle

theorem Replaced.readersAscend {m' : Model} (h : Replaced m m') (ha : m.ReadersAscend) :
    m'.ReadersAscend := by
  intro o' ho'
  obtain ⟨i, hi⟩ := List.mem_iff_getElem?.1 ho'
  obtain ⟨o, ho, he⟩ := h.operand hi
  have huses : o'.uses = o.uses := (congrArg Operand.uses he :)
  rw [huses]
  exact ha o (List.mem_of_getElem? ho)

theorem lower_ascends {s : Model} {ps : List Placement} (h : outcome (lower ps) m = (.ok (), s)) :
    s.ReadersAscend := by
  obtain ⟨-, -, m₁, m₂, -, hlink, -, rfl⟩ := lower_ok h
  exact (replaced_placeOperands m₂).readersAscend (link_ascends hlink)

/-- **Searches take linear time.** The walk that orders a lowered model ends, and it pushes each
operation once and takes one turn for each operation and one for each edge. The walk that looks
for cycles in a linked model ends as well, with or without one, and takes no more turns than that;
it too pushes no operation twice. -/
theorem walks_linear :
    (∀ {m s : Model} {ps : List Placement}, (lower ps).on m = (.ok (), s) →
      (∃ pushed n r, s.Walks (fun _ => pure ()) pushed n r) ∧
      ∀ {pushed n r}, s.Walks (fun _ => pure ()) pushed n r →
        pushed.Perm (List.range s.operations.length) ∧
        n = s.operations.length + s.edges.length ∧
        ∃ t, r = .ok t ∧ s.linearize = .ok t.finished) ∧
    ∀ {m s : Model}, link.on m = (.ok (), s) → s.OutputsExist →
      (∃ pushed n r, s.Walks (fun via => throw (.graph (.cycle via))) pushed n r) ∧
      ∀ {pushed n r}, s.Walks (fun via => throw (.graph (.cycle via))) pushed n r →
        pushed.Nodup ∧ n ≤ s.operations.length + s.edges.length ∧ s.checkAcyclic = discard r := by
  refine ⟨fun {m s ps} hlower => ⟨exists_walks s _, fun {pushed n r} h => ?_⟩,
    fun {m s} hlink hin => ⟨exists_walks s _, fun h => ?_⟩⟩
  · obtain ⟨hl, hc, hphase⟩ := lower_linked hlower
    have hin : s.OutputsExist := fun op hop i hi => hc.output_lt hop hi
    -- Lowering has checked the model, so the search that refuses nothing goes through.
    obtain ⟨order, horder⟩ := linearize_total hc hphase
    obtain ⟨-, -, hrest⟩ := bind_eq_ok.1 horder
    obtain ⟨t, ht, -⟩ := bind_eq_ok.1 hrest
    obtain rfl : r = .ok t := h.result.symm.trans ht
    obtain ⟨hperm, hn⟩ := h.ok
    refine ⟨hperm, hn.trans (searchBound_eq hl (lower_ascends hlower) hin), t, rfl, ?_⟩
    exact bind_eq_ok.2 ⟨(), requirePhase_ok.2 hphase, bind_eq_ok.2 ⟨t, ht, rfl⟩⟩
  · refine ⟨h.nodup, h.le (link_ok hlink) (link_ascends hlink) hin, ?_⟩
    rw [checkAcyclic, h.result]

/-- `looped` with its links, which `finish` goes on to refuse. -/
@[irreducible] def loopedLinked : Model := (link.on looped).2

/-- A lowered model of seven operations and seven edges, and a model with a cycle: the walk through
the second stops short of its three operations and two edges. -/
theorem walks_linear_looped :
    (∃ pushed r, fannedLowered.Walks (fun _ => pure ()) pushed 14 r) ∧
    ∃ pushed n r, loopedLinked.Walks (fun via => throw (.graph (.cycle via))) pushed n r ∧ n ≤ 5 := by
  have hlower : (lower fannedPlacements).on (finish.on fannedOut).2 = (.ok (), fannedLowered) := by
    rw [fannedLowered]
    exact outcome_eq (by decide +kernel)
  have hlink : link.on looped = (.ok (), loopedLinked) := by
    rw [loopedLinked]
    exact outcome_eq (by decide +kernel)
  have hcount : fannedLowered.operations.length + fannedLowered.edges.length = 14 := by
    decide +kernel
  have hlooped : loopedLinked.operations.length + loopedLinked.edges.length = 5 := by decide +kernel
  have hin : loopedLinked.OutputsExist := by
    unfold OutputsExist
    decide +kernel
  obtain ⟨⟨pushed, n, r, h⟩, hwalks⟩ := walks_linear.1 hlower
  obtain ⟨⟨pushed', n', r', h'⟩, hwalks'⟩ := walks_linear.2 hlink hin
  obtain ⟨-, hn, -⟩ := hwalks h
  obtain ⟨-, hn', -⟩ := hwalks' h'
  exact ⟨⟨pushed, r, by rwa [hn, hcount] at h⟩, pushed', n', r', h', by omega⟩

end Model

end HeteroNet
