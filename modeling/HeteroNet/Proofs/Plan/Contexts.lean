import HeteroNet.Compile
import HeteroNet.Proofs.Plan.Finalized
import HeteroNet.Proofs.Verdict

/-
The default backends, and what a compilation marks on them. Starting a default backend changes
nothing but whether it counts as started, as long as the device has no failure to report; so the
contexts of a compilation are those of the backends that its tensors name.
-/

namespace HeteroNet

/-- One of the two default backends, started or not. -/
def Backend.IsDefault (b : Backend) : Prop :=
  { b with started := false, starts := 0 } = Backend.host ∨
    { b with started := false, starts := 0 } = Backend.device

/-- All registered backends are default ones. -/
def Registry.AllDefault (r : Registry) : Prop := ∀ b ∈ r, b.IsDefault

namespace Backend.IsDefault

variable {b : Backend}

/-- What a default backend is but for its name. -/
theorem parts (h : b.IsDefault) : b.tensorName = b.id ∧ b.stageName = b.id ∧
    b.tensors = placeOf b.id ∧ b.stages = placeOf b.id ∧ b.layout = (placeOf b.id).layout ∧
    b.refuses = [] := by
  obtain ⟨id, layout, refuses, startup, initializers, stages, tensors, sn, tn, started, starts⟩ := b
  rcases h with h | h <;> cases h <;> exact ⟨rfl, rfl, rfl, rfl, rfl, rfl⟩

theorem started (h : b.IsDefault) (started : Bool) (starts : Nat) :
    { b with started, starts }.IsDefault := h

/-- A default backend starts if the device has no failure to report. -/
theorem start_ok (h : b.IsDefault) {m : Machine} (hf : m.device.failure = none) :
    ∃ b', b.start m = (.ok (), b', m) ∧ b'.IsDefault ∧ b'.id = b.id := by
  have hrun : b.runStartup.on m = (.ok (), m) := by
    have hsync : outcome Machine.synchronize m = (.ok (), m) := by
      simp [Machine.synchronize, outcome_bind, hf]
    obtain ⟨id, layout, refuses, startup, initializers, stages, tensors, sn, tn, started, starts⟩ :=
      b
    rcases h with h | h <;> cases h
    · rfl
    · exact hsync
  unfold Backend.start
  split
  · exact ⟨b, rfl, h, rfl⟩
  · rw [hrun]
    exact ⟨_, rfl, h.started _ _, rfl⟩

end Backend.IsDefault

namespace Registry

variable {r : Registry} {b : Backend}

theorem AllDefault.add (h : r.AllDefault) (hb : b.IsDefault) : (r.add b).AllDefault := by
  intro b' hb'
  unfold Registry.add at hb'
  split at hb'
  · obtain ⟨old, hold, rfl⟩ := List.mem_map.1 hb'
    split
    · exact hb
    · exact h old hold
  · rcases List.mem_append.1 hb' with hb' | hb'
    · exact h b' hb'
    · rw [List.mem_singleton] at hb'
      exact hb' ▸ hb

theorem lookup_ok {id : BackendId} (h : r.lookup id = .ok b) : b ∈ r ∧ b.id = id := by
  unfold lookup at h
  split at h
  · rename_i b' hb'
    cases h
    exact ⟨List.mem_of_find?_eq_some hb', eq_of_beq (List.find?_some hb' :)⟩
  · cases h

end Registry

/-- The registered backends are the default ones, and the device has no failure to report. -/
structure Platform.Clean (s : Platform) : Prop where
  registry : s.registry.AllDefault
  failure : s.machine.device.failure = none

/-- A call that does not touch the machine. -/
def Starts (s s' : Platform) : Prop := s'.Clean ∧ s'.machine = s.machine

theorem Starts.trans {s₁ s₂ s₃ : Platform} (h : Starts s₁ s₂) (h' : Starts s₂ s₃) :
    Starts s₁ s₃ := ⟨h'.1, h'.2.trans h.2⟩

/-- A call that did not touch the machine, and failed with a verdict. -/
def Declines (s : Platform) (e : Failure) (s' : Platform) : Prop := e.IsVerdict ∧ Starts s s'

/-- A call that failed since the backend is not registered. -/
def Misses (s₀ s : Platform) (id : BackendId) (e : Failure) (s' : Platform) : Prop :=
  Declines s₀ e s' ∧ ∀ b, s.registry.lookup id ≠ .ok b

theorem start_ends {s : Platform} (h : s.Clean) (id : BackendId) :
    Ends (outcome (Platform.start id) s)
      (fun b s' => b.IsDefault ∧ b.id = id ∧ Starts s s') (Misses s s id) := by
  rw [Platform.start, outcome_bind_of_ok (outcome_get s)]
  refine Ends.bind (Ends.lift (fun b hb => ?_) fun e he =>
    ⟨⟨Model.judges_lookup e he, h, rfl⟩, fun b hb => by rw [he] at hb; cases hb⟩)
  obtain ⟨hmem, hid⟩ := Registry.lookup_ok hb
  obtain ⟨b', hstart, hb', hid'⟩ := (h.registry b hmem).start_ok h.failure
  dsimp only
  rw [hstart]
  exact ⟨hb', hid'.trans hid, ⟨h.registry.add hb', h.failure⟩, rfl⟩

/-! ## Contexts -/

/-- The tensors `needs` were marked, each in the context of its backend, and no others. -/
structure Marking (needs : List Site) (cs : SortedMap BackendId Context) : Prop where
  ascending : cs.Ascending
  marked : ∀ {id c}, (id, c) ∈ cs → ∀ i, i ∈ c.builder.marked ↔ (id, i) ∈ needs
  all : ∀ {id i}, (id, i) ∈ needs → ∃ c, (id, c) ∈ cs

/-- The contexts after the tensors `needs` were marked. -/
structure Contexts (needs : List Site) (cs : SortedMap BackendId Context) : Prop where
  ascending : cs.Ascending
  backend : ∀ {id c}, (id, c) ∈ cs → c.backend.IsDefault ∧ c.backend.id = id
  builder : ∀ {id c}, (id, c) ∈ cs → c.builder.backend = id ∧ c.builder.place = placeOf id ∧
    Marked c.builder
  marked : ∀ {id c}, (id, c) ∈ cs → ∀ i, i ∈ c.builder.marked ↔ (id, i) ∈ needs
  sorted : ∀ {id c}, (id, c) ∈ cs → c.builder.marked.Pairwise (· < ·)
  used : ∀ {id c}, (id, c) ∈ cs → ∃ i, (id, i) ∈ needs
  all : ∀ {id i}, (id, i) ∈ needs → ∃ c, (id, c) ∈ cs

theorem Contexts.nil : Contexts [] [] where
  ascending := List.Pairwise.nil
  backend h := by cases h
  builder h := by cases h
  marked h := by cases h
  sorted h := by cases h
  used h := by cases h
  all h := by cases h

variable {needs : List Site} {cs : SortedMap BackendId Context} {id : BackendId} {i : OperandId}
  {c : Context}

/-- A context that a compilation may have for a backend, given what it marked there. -/
structure Fresh (needs : List Site) (id : BackendId) (c : Context) : Prop where
  backend : c.backend.IsDefault ∧ c.backend.id = id
  builder : c.builder.backend = id ∧ c.builder.place = placeOf id ∧ Marked c.builder
  marked : ∀ i, i ∈ c.builder.marked ↔ (id, i) ∈ needs
  sorted : c.builder.marked.Pairwise (· < ·)

theorem Contexts.fresh (h : Contexts needs cs) (hc : (id, c) ∈ cs) : Fresh needs id c :=
  ⟨h.backend hc, h.builder hc, h.marked hc, h.sorted hc⟩

/-- The context of a backend on which nothing was marked so far. -/
theorem Fresh.new {b : Backend} (hb : b.IsDefault) (hnone : ∀ i, (b.id, i) ∉ needs) :
    Fresh needs b.id (Context.new b) where
  backend := ⟨hb, rfl⟩
  builder := ⟨hb.parts.1, hb.parts.2.2.1, rfl, rfl, rfl⟩
  marked i := ⟨fun h => (by cases h), fun h => absurd h (hnone i)⟩
  sorted := List.Pairwise.nil

/-- Marking one more operand. -/
theorem Marked.mark {b : TensorBuilder} (h : Marked b) (i : OperandId) :
    ∃ b', b.mark i = .ok b' ∧ b'.backend = b.backend ∧ b'.place = b.place ∧
      b'.marked = insertSorted i b.marked ∧ Marked b' :=
  ⟨_, if_neg (not_not.2 h.phase), rfl, rfl, rfl, h.phase, h.scratch, by rw [h.stats]⟩

/-- Marking one more operand in a context. -/
theorem Fresh.mark (h : Fresh needs id c) (i : OperandId) :
    ∃ builder, c.builder.mark i = .ok builder ∧
      Fresh (needs ++ [(id, i)]) id { c with builder } := by
  obtain ⟨hid, hplace, hm⟩ := h.builder
  obtain ⟨builder, hmark, hid', hplace', hmarked, hm'⟩ := hm.mark i
  refine ⟨builder, hmark, h.backend, ⟨hid'.trans hid, hplace'.trans hplace, hm'⟩, fun j => ?_, ?_⟩
  · rw [hmarked, mem_insertSorted, h.marked, List.mem_append, List.mem_singleton, Prod.mk.injEq]
    constructor
    · rintro (rfl | hj)
      · exact .inr ⟨rfl, rfl⟩
      · exact .inl hj
    · rintro (hj | ⟨-, rfl⟩)
      · exact .inr hj
      · exact .inl rfl
  · rw [hmarked]
    exact insertSorted_ascending h.sorted

/-- One more tensor is marked in the context of its backend. -/
theorem Marking.insert (h : Marking needs cs)
    (hc : ∀ j, j ∈ c.builder.marked ↔ (id, j) ∈ needs ++ [(id, i)]) :
    Marking (needs ++ [(id, i)]) (cs.insert id c) := by
  refine ⟨h.ascending.insert id c, fun {id' c'} hmem j => ?_, fun {id' j} hj => ?_⟩
  · rcases h.ascending.of_mem_insert hmem with ⟨rfl, rfl⟩ | ⟨hne, hmem⟩
    · exact hc j
    · rw [h.marked hmem, List.mem_append, List.mem_singleton, Prod.mk.injEq]
      exact ⟨.inl, fun hj => hj.resolve_right fun he => hne he.1⟩
  · rcases List.mem_append.1 hj with hj | hj
    · obtain ⟨c', hc'⟩ := h.all hj
      exact SortedMap.insert_mem_key _ hc'
    · rw [List.mem_singleton, Prod.mk.injEq] at hj
      obtain ⟨rfl, -⟩ := hj
      exact ⟨c, SortedMap.insert_mem_self _ _ _⟩

theorem Contexts.marking (h : Contexts needs cs) : Marking needs cs :=
  ⟨h.ascending, h.marked, h.all⟩

theorem Contexts.insert (h : Contexts needs cs) (hc : Fresh (needs ++ [(id, i)]) id c) :
    Contexts (needs ++ [(id, i)]) (cs.insert id c) := by
  obtain ⟨hasc, hmarked, hall⟩ := h.marking.insert hc.marked
  refine ⟨hasc, fun hmem => ?_, fun hmem => ?_, hmarked, fun hmem => ?_, fun hmem => ?_, hall⟩
  all_goals rcases h.ascending.of_mem_insert hmem with ⟨rfl, rfl⟩ | ⟨-, hmem⟩
  · exact hc.backend
  · exact h.backend hmem
  · exact hc.builder
  · exact h.builder hmem
  · exact hc.sorted
  · exact h.sorted hmem
  · exact ⟨i, List.mem_append_right _ (List.mem_singleton_self _)⟩
  · obtain ⟨j, hj⟩ := h.used hmem
    exact ⟨j, List.mem_append_left _ hj⟩

/-- Marking one tensor, on a context that is made if there is none yet. -/
theorem markTensor_ends {s₀ s : Platform} (hs : s.Clean) (hs₀ : Starts s₀ s)
    (h : Contexts needs cs) (site : Site) :
    Ends (outcome (markTensor cs site) s)
      (fun cs' s' => Contexts (needs ++ [site]) cs' ∧ Starts s₀ s') (Misses s₀ s site.1) := by
  obtain ⟨id, i⟩ := site
  have hrest : ∀ {c s'}, Fresh needs id c → Starts s₀ s' →
      Ends (outcome (do
        let builder ← c.builder.mark i
        return cs.insert id { c with builder } : PlatformTask (SortedMap BackendId Context)) s')
      (fun cs' s' => Contexts (needs ++ [(id, i)]) cs' ∧ Starts s₀ s') (Misses s₀ s id) := by
    intro c s' hc hs'
    obtain ⟨builder, hmark, hfresh⟩ := hc.mark i
    refine Ends.bind ?_
    rw [outcome_check, hmark]
    exact ⟨h.insert hfresh, hs'⟩
  unfold markTensor
  dsimp only
  cases hfind : cs.find? id with
  | some c =>
    exact hrest (h.fresh (SortedMap.find?_mem hfind)) hs₀
  | none =>
    have hnone : ∀ j, (id, j) ∉ needs := fun j hj => by
      obtain ⟨c, hc⟩ := h.all hj
      rw [(h.ascending.find?).2 hc] at hfind
      cases hfind
    refine Ends.bind (Ends.bind ((start_ends hs id).mono (fun b s' hb => ?_) fun e s' he =>
      ⟨⟨he.1.1, hs₀.trans he.1.2⟩, he.2⟩))
    obtain ⟨hdefault, rfl, hstarts⟩ := hb
    exact hrest (.new hdefault hnone) (hs₀.trans hstarts)

/-- **The contexts of a compilation.** -/
theorem markAll_ends {s : Platform} (hs : s.Clean) (marks : List Site) :
    Ends (outcome (marks.foldlM markTensor []) s)
      (fun cs s' => Contexts marks cs ∧ Starts s s') (Declines s) :=
  Ends.foldlM (fun done cs s' => Contexts done cs ∧ Starts s s')
    (fun _ site _ _ _ _ hI => (markTensor_ends hI.2.1 hI.2 hI.1 site).mono (fun _ _ h => h)
      fun _ _ he => he.1) ⟨.nil, hs, rfl⟩

/-- The builders of the contexts. -/
theorem Contexts.marks (h : Contexts needs cs) :
    Marks needs (cs.map fun (_, c) => c.builder) := by
  have hnames : (cs.map fun (_, c) => c.builder).map (·.backend) = cs.map Prod.fst := by
    rw [List.map_map]
    refine List.map_congr_left fun e he => ?_
    exact (h.builder he).1
  have hmem : ∀ b ∈ cs.map fun (_, c) => c.builder, ∃ c, (b.backend, c) ∈ cs ∧ c.builder = b := by
    intro b hb
    obtain ⟨⟨id, c⟩, hc, rfl⟩ := List.mem_map.1 hb
    refine ⟨c, ?_, rfl⟩
    rw [(h.builder hc).1]
    exact hc
  refine ⟨hnames ▸ h.ascending, fun {id i} hs => ?_, fun b hb => ?_, fun b hb i => ?_,
    fun b hb => ?_, fun b hb => ?_, fun b hb => ?_⟩
  · rw [hnames]
    obtain ⟨c, hc⟩ := h.all hs
    exact List.mem_map_of_mem hc
  all_goals
    obtain ⟨c, hc, rfl⟩ := hmem b hb
  · exact (h.builder hc).2.1
  · exact h.marked hc i
  · exact h.used hc
  · exact (h.sorted hc).imp fun hlt => Nat.ne_of_lt hlt
  · exact (h.builder hc).2.2

end HeteroNet
