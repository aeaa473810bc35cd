import HeteroNet.Model.Search
import HeteroNet.Proofs.Call
import Mathlib

/-
The depth-first search. A search that meets no edge back to an open operation leaves the
operations in an order where each stands before those that read what it writes (`all_ok`).

The invariant of a step (`Sound`): marks say where an operation is (on the stack, or among the
finished); what a finished operation leads to finished before it; and of a stacked operation the
edges followed so far lead to finished operations, or to the ones stacked above it. The work left
(`work`) falls by one with every step, so the search does not stop early.
-/

namespace HeteroNet.Search

variable {m : Model} {onOpen : OperandId → Except Error Unit} {s s' : Search}

/-! ## One step -/

/-- What the step at the top of the stack can do. -/
theorem step_ok {c : OperationId} {e : Nat} {rest : List (OperationId × Nat)}
    (hst : s.stack = (c, e) :: rest) (h : s.step m onOpen = .ok s') :
    ∃ next, m.successors c = .ok next ∧
      ((next[e]? = none ∧ s' = ⟨s.marks.set c .done, rest, c :: s.finished⟩) ∨
        ∃ via u, next[e]? = some (via, u) ∧
          ((s.marks[u]? = some .unvisited ∧
              s' = visit { s with stack := (c, e + 1) :: rest } u) ∨
            (s.marks[u]? ≠ some .unvisited ∧ (s.marks[u]? = some .opened → onOpen via = .ok ()) ∧
              s' = { s with stack := (c, e + 1) :: rest }))) := by
  simp only [step, hst] at h
  obtain ⟨next, hnext, h⟩ := bind_eq_ok.1 h
  refine ⟨next, hnext, ?_⟩
  split at h
  · rename_i hnone
    exact .inl ⟨hnone, (pure_eq_ok.1 h).symm⟩
  · rename_i via u hsome
    refine .inr ⟨via, u, hsome, ?_⟩
    split at h
    · rename_i hu
      exact .inl ⟨hu, (pure_eq_ok.1 h).symm⟩
    · rename_i hu
      obtain ⟨_, hopen, h⟩ := bind_eq_ok.1 h
      exact .inr ⟨by simp [hu], fun _ => hopen, (pure_eq_ok.1 h).symm⟩
    · rename_i hu₁ hu₂
      exact .inr ⟨hu₁, fun hu => absurd hu hu₂, (pure_eq_ok.1 h).symm⟩

/-! ## The invariant -/

theorem visits_eq {c : OperationId} {next : List (OperandId × OperationId)}
    (h : m.successors c = .ok next) : m.visits c = next.length + 1 := by
  simp [Model.visits, h]

theorem visits_pos (c : OperationId) : 0 < m.visits c := by
  unfold Model.visits
  split <;> omega

/-- What each of a list of operations leads to stands after it. -/
def Closed (m : Model) : List OperationId → Prop
  | [] => True
  | j :: post => (∃ next, m.successors j = .ok next ∧ ∀ p ∈ next, p.2 ∈ post) ∧ Closed m post

/-- The edges that were followed from stacked operations lead to finished ones or to ones stacked
above. -/
def Followed (m : Model) (finished : List OperationId) :
    (above : List OperationId) → List (OperationId × Nat) → Prop
  | _, [] => True
  | above, (c, e) :: rest =>
    e < m.visits c ∧ (∀ next, m.successors c = .ok next →
      ∀ p ∈ next.take e, p.2 ∈ finished ∨ p.2 ∈ above) ∧ Followed m finished (c :: above) rest

theorem Followed.mono {finished finished' : List OperationId} :
    ∀ {stack : List (OperationId × Nat)} {above above' : List OperationId},
      (∀ x, x ∈ finished ∨ x ∈ above → x ∈ finished' ∨ x ∈ above') →
      Followed m finished above stack → Followed m finished' above' stack
  | [], _, _, _, _ => trivial
  | (c, e) :: rest, above, above', hx, ⟨he, hc, hrest⟩ => by
    refine ⟨he, fun next hnext p hmem => hx _ (hc next hnext p hmem), hrest.mono fun x hx' => ?_⟩
    · simp only [List.mem_cons] at hx' ⊢
      rcases hx' with hf | rfl | ha
      · exact (hx x (.inl hf)).imp_right .inr
      · exact .inr (.inl rfl)
      · exact (hx x (.inr ha)).imp_right .inr

/-- The state of a search that met no edge back to an open operation. -/
structure Sound (m : Model) (s : Search) : Prop where
  size : s.marks.length = m.operations.length
  done : ∀ j, s.marks[j]? = some .done ↔ j ∈ s.finished
  opened : ∀ j, s.marks[j]? = some .opened ↔ j ∈ s.stack.map Prod.fst
  finishedOnce : s.finished.Nodup
  stackedOnce : (s.stack.map Prod.fst).Nodup
  closed : Closed m s.finished
  followed : Followed m s.finished [] s.stack

theorem sound_initial (m : Model) : Sound m (initial m) where
  size := by simp [initial]
  done := by simp [initial, List.getElem?_replicate]
  opened := by simp [initial, List.getElem?_replicate]
  finishedOnce := List.nodup_nil
  stackedOnce := List.nodup_nil
  closed := trivial
  followed := trivial

theorem Sound.visit (h : Sound m s) {u : OperationId} (hu : s.marks[u]? = some .unvisited) :
    Sound m (s.visit u) := by
  have hlt : u < s.marks.length := (List.getElem?_eq_some_iff.1 hu).1
  have hstack : u ∉ s.stack.map Prod.fst := by
    rw [← h.opened u, hu]
    simp
  have hfin : u ∉ s.finished := by
    rw [← h.done u, hu]
    simp
  refine ⟨by simp [Search.visit, h.size], fun j => ?_, fun j => ?_, h.finishedOnce,
    List.nodup_cons.2 ⟨hstack, h.stackedOnce⟩, h.closed,
    ⟨visits_pos u, fun next _ => by simp, h.followed.mono fun x hx => ?_⟩⟩
  · simp only [Search.visit, List.getElem?_set]
    by_cases hj : u = j
    · subst hj
      simp [hlt, hfin]
    · simp [hj, h.done j]
  · simp only [Search.visit, List.getElem?_set, List.map_cons, List.mem_cons]
    by_cases hj : u = j
    · subst hj
      simp [hlt]
    · have : ¬j = u := fun he => hj he.symm
      simp [hj, this, h.opened j]
  · rcases hx with hx | hx
    · exact .inl hx
    · cases hx

/-- Following an edge that leads to a finished operation, or to one that is about to be
stacked. -/
theorem Sound.advance {c : OperationId} {e : Nat} {rest : List (OperationId × Nat)}
    (h : Sound m s) (hst : s.stack = (c, e) :: rest) {next : List (OperandId × OperationId)}
    (hnext : m.successors c = .ok next) {via : OperandId} {u : OperationId}
    (hu : next[e]? = some (via, u)) {above : List OperationId} (hend : u ∈ s.finished ∨ u ∈ above) :
    Followed m s.finished above ((c, e + 1) :: rest) := by
  have hf := h.followed
  rw [hst] at hf
  obtain ⟨-, hc, hrest⟩ := hf
  have hp := hc next hnext
  refine ⟨?_, fun next' hnext' p hmem => ?_, hrest.mono fun x hx => ?_⟩
  · rw [visits_eq hnext]
    exact Nat.succ_lt_succ (List.getElem?_eq_some_iff.1 hu).1
  · rw [hnext] at hnext'
    cases hnext'
    rw [List.take_add_one, hu] at hmem
    rcases List.mem_append.1 hmem with hmem | hmem
    · exact (hp p hmem).imp_right (by simp)
    · simp only [Option.toList_some, List.mem_singleton] at hmem
      subst hmem
      exact hend
  · simp only [List.mem_cons, List.not_mem_nil, or_false] at hx ⊢
    exact hx.imp_right .inl

/-- All edges of the top are followed: it is done. -/
theorem Sound.finish {c : OperationId} {e : Nat} {rest : List (OperationId × Nat)}
    (h : Sound m s) (hst : s.stack = (c, e) :: rest) {next : List (OperandId × OperationId)}
    (hnext : m.successors c = .ok next) (hend : next[e]? = none) :
    Sound m ⟨s.marks.set c .done, rest, c :: s.finished⟩ := by
  have hcopen : s.marks[c]? = some .opened := (h.opened c).2 (by simp [hst])
  have hclt : c < s.marks.length := (List.getElem?_eq_some_iff.1 hcopen).1
  have hnodup := h.stackedOnce
  rw [hst, List.map_cons, List.nodup_cons] at hnodup
  have hf := h.followed
  rw [hst] at hf
  obtain ⟨-, hc, hrest⟩ := hf
  have hp := hc next hnext
  rw [List.take_of_length_le (List.getElem?_eq_none_iff.1 hend)] at hp
  refine ⟨by simp [h.size], fun j => ?_, fun j => ?_, ?_, hnodup.2, ⟨⟨next, hnext, ?_⟩, h.closed⟩,
    hrest.mono fun x hx => ?_⟩
  · simp only [List.getElem?_set, List.mem_cons]
    by_cases hj : c = j
    · subst hj
      simp [hclt]
    · have : ¬j = c := fun he => hj he.symm
      simp [hj, this, h.done j]
  · simp only [List.getElem?_set]
    by_cases hj : c = j
    · subst hj
      simpa [hclt] using hnodup.1
    · have : ¬j = c := fun he => hj he.symm
      simp [hj, h.opened j, hst, this]
  · refine List.nodup_cons.2 ⟨fun hmem => ?_, h.finishedOnce⟩
    rw [← h.done c, hcopen] at hmem
    cases hmem
  · intro p hmem
    exact (hp p hmem).resolve_right (by simp)
  · simp only [List.mem_cons, List.not_mem_nil, or_false] at hx ⊢
    rcases hx with hx | rfl
    · exact .inr hx
    · exact .inl rfl

/-- The edge leads to an operation that was not met before, which is stacked. -/
theorem Sound.follow {c : OperationId} {e : Nat} {rest : List (OperationId × Nat)}
    (h : Sound m s) (hst : s.stack = (c, e) :: rest) {next : List (OperandId × OperationId)}
    (hnext : m.successors c = .ok next) {via : OperandId} {u : OperationId}
    (hu : next[e]? = some (via, u)) (hun : s.marks[u]? = some .unvisited) :
    Sound m (Search.visit { s with stack := (c, e + 1) :: rest } u) := by
  have hadv : Followed m s.finished [u] ((c, e + 1) :: rest) :=
    h.advance hst hnext hu (.inr (by simp))
  have hs₁ : Sound m { s with stack := (c, e) :: rest } := hst ▸ h
  have hv := hs₁.visit hun
  exact ⟨hv.size, hv.done, hv.opened, hv.finishedOnce, hv.stackedOnce, hv.closed,
    hv.followed.1, hv.followed.2.1, hadv⟩

/-- The edge leads to a finished operation. -/
theorem Sound.pass {c : OperationId} {e : Nat} {rest : List (OperationId × Nat)}
    (h : Sound m s) (hst : s.stack = (c, e) :: rest) {next : List (OperandId × OperationId)}
    (hnext : m.successors c = .ok next) {via : OperandId} {u : OperationId}
    (hu : next[e]? = some (via, u)) (hdone : u ∈ s.finished) :
    Sound m { s with stack := (c, e + 1) :: rest } := by
  refine ⟨h.size, h.done, fun j => ?_, h.finishedOnce, ?_, h.closed,
    h.advance hst hnext hu (.inl hdone)⟩
  · rw [h.opened j, hst]
    simp
  · have hnodup := h.stackedOnce
    rw [hst] at hnodup
    exact hnodup

/-- **One step keeps the invariant**, if edges back to open operations are refused. -/
theorem Sound.step (h : Sound m s) (hrefuse : ∀ via, onOpen via ≠ .ok ())
    (hrange : ∀ c next, m.successors c = .ok next → ∀ p ∈ next, p.2 < m.operations.length)
    (hne : s.stack ≠ []) (hs : s.step m onOpen = .ok s') : Sound m s' := by
  obtain ⟨⟨c, e⟩, rest, hst⟩ := List.exists_cons_of_ne_nil hne
  obtain ⟨next, hnext, ⟨hend, rfl⟩ | ⟨via, u, hu, ⟨hun, rfl⟩ | ⟨hun, hopen, rfl⟩⟩⟩ := step_ok hst hs
  · exact h.finish hst hnext hend
  · exact h.follow hst hnext hu hun
  · -- An operation that was met is finished, since open ones are refused.
    have hulen : u < s.marks.length := by
      rw [h.size]
      exact hrange c next hnext _ (List.mem_of_getElem? hu)
    have hmem : u ∈ s.finished := by
      rw [← h.done u]
      cases hm : s.marks[u] with
      | unvisited => exact absurd (by rw [List.getElem?_eq_getElem hulen, hm]) hun
      | opened =>
        exact absurd (hopen (by rw [List.getElem?_eq_getElem hulen, hm])) (hrefuse via)
      | done => rw [List.getElem?_eq_getElem hulen, hm]
    exact h.pass hst hnext hu hmem

/-! ## The work left -/

/-- The operations not met yet. -/
def unmet (m : Model) (s : Search) : List OperationId :=
  (List.range m.operations.length).filter fun j => s.marks[j]? = some .unvisited

/-- The visits to the top of the stack that are left: those of the operations not met, and for
each stacked operation one for each edge not followed and one to finish it. -/
def work (m : Model) (s : Search) : Nat :=
  ((unmet m s).map m.visits).sum + (s.stack.map fun (c, e) => m.visits c - e).sum

theorem unmet_initial (m : Model) : unmet m (initial m) = List.range m.operations.length := by
  rw [unmet, List.filter_eq_self]
  intro j hj
  rw [List.mem_range] at hj
  simp [initial, hj]

theorem work_initial (m : Model) : work m (initial m) = m.searchBound := by
  rw [work, unmet_initial, Model.searchBound]
  simp [initial, List.sum_eq_foldr, List.foldr_map]

/-- Stacking an operation takes it from those not met. -/
theorem unmet_visit (hsize : s.marks.length = m.operations.length) {u : OperationId}
    (hu : s.marks[u]? = some .unvisited) :
    u ∈ unmet m s ∧ unmet m (s.visit u) = (unmet m s).erase u := by
  have hlt : u < m.operations.length := hsize ▸ (List.getElem?_eq_some_iff.1 hu).1
  refine ⟨by simp [unmet, hlt, hu], ?_⟩
  have hnodup : (unmet m s).Nodup := List.nodup_range.filter _
  rw [hnodup.erase_eq_filter, unmet, unmet, List.filter_filter]
  refine List.filter_congr fun j _ => ?_
  simp only [Search.visit, List.getElem?_set, hsize]
  by_cases hj : u = j
  · subst hj
    simp [hlt]
  · have : ¬j = u := fun he => hj he.symm
    simp [hj, this]

/-- Its visits move with it. -/
theorem work_visit (hsize : s.marks.length = m.operations.length) {u : OperationId}
    (hu : s.marks[u]? = some .unvisited) :
    work m (s.visit u) = work m s := by
  obtain ⟨hmem, herase⟩ := unmet_visit hsize hu
  have hsum := List.sum_map_erase m.visits hmem
  rw [work, work, herase]
  simp only [Search.visit, List.map_cons, List.sum_cons, Nat.sub_zero]
  omega

/-- What a step needs to do one visit, whatever it does about edges back to open operations: what
stands on the stack was met, and has visits left. -/
structure Bounded (m : Model) (s : Search) : Prop where
  size : s.marks.length = m.operations.length
  stacked : ∀ p ∈ s.stack, s.marks[p.1]? ≠ some .unvisited ∧ p.2 < m.visits p.1

theorem Followed.lt_visits {finished : List OperationId} :
    ∀ {stack : List (OperationId × Nat)} {above : List OperationId},
      Followed m finished above stack → ∀ p ∈ stack, p.2 < m.visits p.1
  | (_, _) :: _, _, ⟨he, _, hrest⟩, p, hp => by
    rcases List.mem_cons.1 hp with rfl | hp
    · exact he
    · exact hrest.lt_visits p hp

theorem Sound.bounded (h : Sound m s) : Bounded m s where
  size := h.size
  stacked p hp := by
    have hopen := (h.opened p.1).2 (List.mem_map_of_mem hp)
    exact ⟨by simp [hopen], h.followed.lt_visits p hp⟩

theorem work_advance {c : OperationId} {e : Nat} {rest : List (OperationId × Nat)}
    (hst : s.stack = (c, e) :: rest) (he : e < m.visits c) :
    work m { s with stack := (c, e + 1) :: rest } + 1 = work m s := by
  simp only [work, unmet, hst, List.map_cons, List.sum_cons]
  omega

/-- Finishing the top of the stack meets nothing. -/
theorem unmet_finish {c : OperationId} (hc : s.marks[c]? ≠ some .unvisited)
    (rest : List (OperationId × Nat)) :
    unmet m ⟨s.marks.set c .done, rest, c :: s.finished⟩ = unmet m s := by
  refine List.filter_congr fun j _ => ?_
  by_cases hj : c = j
  · subst hj
    by_cases hlt : c < s.marks.length
    · rw [List.getElem?_eq_getElem hlt, ne_eq, Option.some.injEq] at hc
      simp [hlt, hc]
    · simp [hlt]
  · simp [hj]

/-- **One step does one visit.** -/
theorem work_step (h : Bounded m s) (hne : s.stack ≠ []) (hs : s.step m onOpen = .ok s') :
    work m s' + 1 = work m s := by
  obtain ⟨⟨c, e⟩, rest, hst⟩ := List.exists_cons_of_ne_nil hne
  obtain ⟨hmet, he⟩ := h.stacked (c, e) (by simp [hst])
  obtain ⟨next, hnext, ⟨hend, rfl⟩ | ⟨via, u, hu, ⟨hun, rfl⟩ | ⟨-, -, rfl⟩⟩⟩ := step_ok hst hs
  · rw [visits_eq hnext] at he
    rw [List.getElem?_eq_none_iff] at hend
    rw [work, work, unmet_finish hmet, hst]
    simp only [List.map_cons, List.sum_cons, visits_eq hnext]
    omega
  · rw [work_visit (s := { s with stack := (c, e + 1) :: rest }) h.size hun,
      work_advance hst he]
  · exact work_advance hst he

/-- An operation that was met stays so. -/
theorem met_step {j : OperationId} (hne : s.stack ≠ []) (hs : s.step m onOpen = .ok s')
    (hj : s.marks[j]? ≠ some .unvisited) : s'.marks[j]? ≠ some .unvisited := by
  obtain ⟨⟨c, e⟩, rest, hst⟩ := List.exists_cons_of_ne_nil hne
  obtain ⟨next, -, ⟨-, rfl⟩ | ⟨via, u, -, ⟨-, rfl⟩ | ⟨-, -, rfl⟩⟩⟩ := step_ok hst hs
  · simp only [List.getElem?_set]
    split
    · split <;> simp
    · exact hj
  · simp only [Search.visit, List.getElem?_set]
    split
    · split <;> simp
    · exact hj
  · exact hj

/-! ## Whole searches -/

/-- Runs with enough fuel empty the stack. -/
theorem Sound.run (hrefuse : ∀ via, onOpen via ≠ .ok ())
    (hrange : ∀ c next, m.successors c = .ok next → ∀ p ∈ next, p.2 < m.operations.length) :
    ∀ {fuel : Nat} {s s' : Search}, Sound m s → work m s ≤ fuel →
      Search.run m onOpen fuel s = .ok s' →
      Sound m s' ∧ s'.stack = [] ∧ work m s' ≤ work m s ∧
        ∀ j : OperationId, s.marks[j]? ≠ some .unvisited → s'.marks[j]? ≠ some .unvisited
  | 0, s, s', h, hw, hr => by
    cases hr
    refine ⟨h, ?_, Nat.le_refl _, fun _ hj => hj⟩
    by_contra hne
    obtain ⟨⟨c, e⟩, rest, hst⟩ := List.exists_cons_of_ne_nil hne
    have hf := h.followed
    rw [hst] at hf
    have hlt := hf.1
    simp only [work, hst, List.map_cons, List.sum_cons] at hw
    omega
  | fuel + 1, s, s', h, hw, hr => by
    rw [Search.run] at hr
    split at hr
    · rename_i hempty
      cases hr
      exact ⟨h, List.isEmpty_iff.1 hempty, Nat.le_refl _, fun _ hj => hj⟩
    · rename_i hempty
      obtain ⟨s₁, hs, hr⟩ := bind_eq_ok.1 hr
      have hne : s.stack ≠ [] := fun he => hempty (by simp [he])
      have hw₁ := work_step h.bounded hne hs
      obtain ⟨h', hst, hle, hmet⟩ :=
        Sound.run hrefuse hrange (h.step hrefuse hrange hne hs) (by omega) hr
      exact ⟨h', hst, by omega, fun j hj => hmet j (met_step hne hs hj)⟩

/-- A search from one operation, when the stack is empty. -/
theorem Sound.runFrom (hrefuse : ∀ via, onOpen via ≠ .ok ())
    (hrange : ∀ c next, m.successors c = .ok next → ∀ p ∈ next, p.2 < m.operations.length)
    (h : Sound m s) (hst : s.stack = []) (hw : work m s ≤ m.searchBound) {i : OperationId}
    (hr : Search.runFrom m onOpen m.searchBound s i = .ok s') :
    Sound m s' ∧ s'.stack = [] ∧ work m s' ≤ m.searchBound ∧
      s'.marks[i]? ≠ some .unvisited ∧
        ∀ j : OperationId, s.marks[j]? ≠ some .unvisited → s'.marks[j]? ≠ some .unvisited := by
  unfold Search.runFrom at hr
  split at hr
  · rename_i hi
    have hwork := work_visit h.size hi
    obtain ⟨h', hst', hle, hmet⟩ := Sound.run hrefuse hrange (h.visit hi) (by omega) hr
    have hlt : i < s.marks.length := (List.getElem?_eq_some_iff.1 hi).1
    refine ⟨h', hst', by omega, hmet i (by simp [Search.visit, hlt]), fun j hj => hmet j ?_⟩
    simp only [Search.visit, List.getElem?_set]
    split
    · simp
    · exact hj
  · rename_i hi
    cases hr
    exact ⟨h, hst, hw, hi, fun _ hj => hj⟩

/-- **A search of everything that meets no open operation finishes every operation once, and
each after all it leads to.** -/
theorem all_ok (hrefuse : ∀ via, onOpen via ≠ .ok ())
    (hrange : ∀ c next, m.successors c = .ok next → ∀ p ∈ next, p.2 < m.operations.length)
    (h : Search.all m onOpen = .ok s) :
    s.finished.Nodup ∧ Closed m s.finished ∧ ∀ j, j ∈ s.finished ↔ j < m.operations.length := by
  have key : ∀ (l : List OperationId) (s₀ s : Search), Sound m s₀ → s₀.stack = [] →
      work m s₀ ≤ m.searchBound →
      l.foldlM (Search.runFrom m onOpen m.searchBound) s₀ = .ok s →
      Sound m s ∧ s.stack = [] ∧ (∀ j ∈ l, s.marks[j]? ≠ some .unvisited) ∧
        ∀ j : OperationId, s₀.marks[j]? ≠ some .unvisited → s.marks[j]? ≠ some .unvisited := by
    intro l
    induction l with
    | nil =>
      intro s₀ s h₀ hst _ hl
      cases hl
      exact ⟨h₀, hst, by simp, fun _ hj => hj⟩
    | cons i l ih =>
      intro s₀ s h₀ hst hw hl
      obtain ⟨s₁, h₁, hl⟩ := bind_eq_ok.1 hl
      obtain ⟨hs₁, hst₁, hw₁, hi, hmet₁⟩ := h₀.runFrom hrefuse hrange hst hw h₁
      obtain ⟨hs, hst', hall, hmet⟩ := ih s₁ s hs₁ hst₁ hw₁ hl
      refine ⟨hs, hst', fun j hj => ?_, fun j hj => hmet j (hmet₁ j hj)⟩
      rcases List.mem_cons.1 hj with rfl | hj
      · exact hmet j hi
      · exact hall j hj
  obtain ⟨hs, hst, hall, -⟩ := key _ _ _ (sound_initial m) rfl (Nat.le_of_eq (work_initial m)) h
  refine ⟨hs.finishedOnce, hs.closed, fun j => ⟨fun hj => ?_, fun hj => ?_⟩⟩
  · rw [← hs.done j] at hj
    exact hs.size ▸ (List.getElem?_eq_some_iff.1 hj).1
  · have hlt : j < s.marks.length := hs.size.symm ▸ hj
    have hnot := hall j (List.mem_range.2 hj)
    rw [List.getElem?_eq_getElem hlt] at hnot
    rw [← hs.done j, List.getElem?_eq_getElem hlt]
    cases hm : s.marks[j] with
    | unvisited => exact absurd (by rw [hm]) hnot
    | opened =>
      have := (hs.opened j).1 (by rw [List.getElem?_eq_getElem hlt, hm])
      simp [hst] at this
    | done => rfl

/-! ## Searches of the same graph -/

/-- A step that refuses less is the step that was taken. -/
theorem step_mono {f : OperandId → Except Error Unit}
    (hmono : ∀ via, onOpen via = .ok () → f via = .ok ()) (h : s.step m onOpen = .ok s') :
    s.step m f = .ok s' := by
  unfold Search.step at h ⊢
  split
  · rename_i hst
    simpa [hst] using h
  · rename_i c e rest hst
    simp only [hst] at h
    obtain ⟨next, hnext, h⟩ := bind_eq_ok.1 h
    refine bind_eq_ok.2 ⟨next, hnext, ?_⟩
    split
    · rename_i hn
      simpa [hn] using h
    · rename_i via u hn
      simp only [hn] at h
      dsimp only at h ⊢
      -- The two steps differ only in what they do about an open operation.
      by_cases hu : s.marks[u]? = some .opened
      · simp only [hu] at h ⊢
        obtain ⟨_, hopen, h⟩ := bind_eq_ok.1 h
        exact bind_eq_ok.2 ⟨(), hmono via hopen, h⟩
      · split
        · rename_i hu'
          simpa [hu'] using h
        · rename_i hu'
          exact absurd hu' hu
        · split at h
          · rename_i hne _ _ hu'
            exact absurd hu' hne
          · rename_i hu'
            exact absurd hu' hu
          · exact h

/-- A search that refuses nothing takes the same steps as one that refused nothing it met. -/
theorem run_mono {f : OperandId → Except Error Unit}
    (hmono : ∀ via, onOpen via = .ok () → f via = .ok ()) :
    ∀ {fuel : Nat} {s s' : Search}, Search.run m onOpen fuel s = .ok s' →
      Search.run m f fuel s = .ok s'
  | 0, _, _, h => h
  | fuel + 1, s, s', h => by
    rw [Search.run] at h ⊢
    split
    · rename_i he
      rw [if_pos he] at h
      exact h
    · rename_i he
      rw [if_neg he] at h
      obtain ⟨s₁, h₁, h⟩ := bind_eq_ok.1 h
      exact bind_eq_ok.2 ⟨s₁, step_mono hmono h₁, run_mono hmono h⟩

theorem all_mono {f : OperandId → Except Error Unit}
    (hmono : ∀ via, onOpen via = .ok () → f via = .ok ())
    (h : Search.all m onOpen = .ok s) : Search.all m f = .ok s := by
  have key : ∀ (l : List OperationId) (s₀ s : Search),
      l.foldlM (Search.runFrom m onOpen m.searchBound) s₀ = .ok s →
      l.foldlM (Search.runFrom m f m.searchBound) s₀ = .ok s := by
    intro l
    induction l with
    | nil => exact fun _ _ hl => hl
    | cons i l ih =>
      intro s₀ s hl
      obtain ⟨s₁, h₁, hl⟩ := bind_eq_ok.1 hl
      refine bind_eq_ok.2 ⟨s₁, ?_, ih s₁ s hl⟩
      unfold Search.runFrom at h₁ ⊢
      split
      · rename_i hi
        rw [if_pos hi] at h₁
        exact run_mono hmono h₁
      · rename_i hi
        rw [if_neg hi] at h₁
        exact h₁
  exact key _ _ _ h

/-- The phase of a model, its inputs and its outputs play no part in a search. -/
theorem all_congr {m m' : Model} (hops : m'.operations = m.operations)
    (hos : m'.operands = m.operands) (onOpen : OperandId → Except Error Unit) :
    Search.all m' onOpen = Search.all m onOpen := by
  obtain ⟨os, ops, pl, ins, outs, ph⟩ := m
  obtain ⟨os', ops', pl', ins', outs', ph'⟩ := m'
  obtain rfl : ops' = ops := hops
  obtain rfl : os' = os := hos
  have hrun : ∀ (fuel : Nat) (s : Search),
      Search.run ⟨os', ops', pl', ins', outs', ph'⟩ onOpen fuel s
        = Search.run ⟨os', ops', pl, ins, outs, ph⟩ onOpen fuel s := by
    intro fuel
    induction fuel with
    | zero => exact fun _ => rfl
    | succ fuel ih =>
      intro s
      rw [Search.run, Search.run]
      simp only [ih]
      rfl
  have hfrom : Search.runFrom ⟨os', ops', pl', ins', outs', ph'⟩ onOpen
      = Search.runFrom ⟨os', ops', pl, ins, outs, ph⟩ onOpen := by
    funext fuel s i
    unfold Search.runFrom
    simp only [hrun]
  unfold Search.all
  rw [hfrom]
  rfl

end HeteroNet.Search
