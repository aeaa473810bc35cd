import HeteroNet.Proofs.Plan.Compiled

/-
What the builders of a plan have counted. Preparing and allocating a builder happen once each, every
tensor is counted with its memory, and the scratch tensors are those that the stages ask for
(`finalize_tallied`): one where a stage flattens what a layer on the device reads.

As in the treatment of owners, only calls that return are of interest, and nothing need be known of
the backends but that their names are distinct.
-/

namespace HeteroNet

open Model Operation

variable {b b' : TensorBuilder} {bs bs' : List TensorBuilder} {m m' : Machine} {id : BackendId}
  {i : OperandId} {a : Assembly} {constraints : ShapeConstraints}

/-- The memory that tensors take. -/
def bytesFor (ts : List Tensor) : Nat := (ts.map fun t => 4 * t.info.elements).sum

theorem bytesFor_cons (t : Tensor) (ts : List Tensor) :
    bytesFor (t :: ts) = 4 * t.info.elements + bytesFor ts := rfl

theorem bytesFor_append (ts us : List Tensor) :
    bytesFor (ts ++ us) = bytesFor ts + bytesFor us := by
  simp [bytesFor]

/-- The builder has counted what it has, and was prepared and allocated once. -/
structure Tallied (b : TensorBuilder) : Prop where
  prepares : b.stats.prepareCalls = 1
  allocates : b.stats.allocateCalls = 1
  marked : b.stats.marked = b.marked.length
  tensors : b.stats.tensors = b.tensors.length
  scratch : b.stats.scratch = b.scratch.length
  bytes : b.stats.bytes = bytesFor b.allTensors
  places : ∀ t ∈ b.allTensors, t.place = b.place

/-- The builder has made its tensors; none of them has memory. -/
structure Unallocated (b : TensorBuilder) : Prop where
  stats : b.stats =
    { markCalls := b.stats.markCalls, marked := b.marked.length, prepareCalls := 1 }
  scratch : b.scratch = []
  places : ∀ e ∈ b.tensors, e.2.place = b.place

/-! ## Preparing -/

theorem create_place {place : Place} {backend : BackendId} {info : TensorInfo} :
    Returns (outcome (Tensor.create place backend info) m) fun t _ => t.place = place :=
  (Returns.any _).bind fun _ _ _ => rfl

theorem createTensors_places {wanted : List (OperandId × TensorInfo)} :
    Returns (outcome (b.createTensors wanted) m) fun es _ => ∀ e ∈ es, e.2.place = b.place := by
  refine Ends.mapM (fun _ (es : List (OperandId × Tensor)) _ => ∀ e ∈ es, e.2.place = b.place)
    (fun done es w rest m₁ _ hI => create_place.bind fun t m₂ ht => ?_) (by simp)
  intro e he
  rcases List.mem_append.1 he with he | he
  · exact hI e he
  · obtain rfl := List.mem_singleton.1 he
    exact ht

theorem prepare_unallocated (h : Marked b) :
    Returns (outcome (b.prepare constraints) m) fun b' _ =>
      b'.backend = b.backend ∧ Unallocated b' := by
  unfold TensorBuilder.prepare
  rw [if_neg (not_not.2 h.phase)]
  refine (Returns.any _).bind fun wanted m₁ _ => createTensors_places.bind fun es m₂ hes => ?_
  refine ⟨rfl, ?_, h.scratch, hes⟩
  change { b.stats with prepareCalls := b.stats.prepareCalls + 1 } = _
  rw [h.stats]

theorem prepareAll_unallocated (h : ∀ b ∈ bs, Marked b) :
    Returns (outcome (bs.mapM (·.prepare constraints)) m) fun bs' _ =>
      bs'.map (·.backend) = bs.map (·.backend) ∧ ∀ b ∈ bs', Unallocated b := by
  refine Ends.mapM (fun (done : List TensorBuilder) bs' _ =>
    bs'.map (·.backend) = done.map (·.backend) ∧ ∀ b ∈ bs', Unallocated b)
    (fun done bs' b rest m' hl hI => ?_) ⟨rfl, fun b hb => by cases hb⟩
  have hb : b ∈ bs := by rw [hl]; simp
  refine (prepare_unallocated (h b hb)).mono fun b' m'' hb' => ⟨?_, ?_⟩
  · rw [List.map_append, List.map_append, hI.1, List.map_singleton, hb'.1]
    rfl
  · intro b'' hb''
    rcases List.mem_append.1 hb'' with hb'' | hb''
    · exact hI.2 b'' hb''
    · obtain rfl := List.mem_singleton.1 hb''
      exact hb'.2

/-! ## Allocating -/

theorem reserve_bytes {i : CellId} {n : Nat} :
    Returns (outcome (Machine.reserve i n) m) fun bytes _ => bytes = 4 * n :=
  Machine.reserve_ends (fun _ _ _ => rfl) (fun _ _ _ => trivial) fun _ _ _ => trivial

theorem Tensor.allocate_bytes {t : Tensor} :
    Returns (outcome t.allocate m) fun bytes _ => bytes = 4 * t.info.elements :=
  t.allocate_ends (fun _ _ => trivial) fun _ => reserve_bytes

theorem reserveAll_counts : ∀ {l : List Tensor} {b b' : TensorBuilder} {m m' : Machine},
    TensorBuilder.reserveAll l b m = (.ok (), b', m') →
      b' = { b with stats := { b.stats with
        bytes := b.stats.bytes + bytesFor l, tensors := b.stats.tensors + l.length } }
  | [], b, b', m, m', h => by
    cases h
    rfl
  | t :: l, b, b', m, m', h => by
    have ht := t.allocate_bytes (m := m)
    unfold TensorBuilder.reserveAll at h
    rw [Task.on_eq] at h
    revert h ht
    obtain ⟨r, m₁⟩ := outcome t.allocate m
    cases r with
    | error e =>
      intro ht h
      cases h
    | ok bytes =>
      intro hbytes h
      obtain rfl : bytes = 4 * t.info.elements := hbytes
      rw [reserveAll_counts h, bytesFor_cons, List.length_cons]
      simp only [TensorBuilder.countTensor, Nat.add_assoc, Nat.add_comm 1]

theorem Unallocated.allocate (h : Unallocated b) (hrun : b.allocate m = (.ok (), b', m')) :
    b'.backend = b.backend ∧ Tallied b' ∧ b'.scratch = [] := by
  unfold TensorBuilder.allocate at hrun
  split at hrun
  · cases hrun
  · cases hrun
  · dsimp only at hrun
    split at hrun
    · rename_i b₁ m₁ hreserve
      cases hrun
      have hb := reserveAll_counts hreserve
      rw [h.stats] at hb
      subst hb
      refine ⟨rfl, ⟨rfl, rfl, rfl, ?_, ?_, ?_, fun t ht => ?_⟩, h.scratch⟩
      · simp
      · simp [h.scratch]
      · simp [TensorBuilder.allTensors, h.scratch]
      · rw [TensorBuilder.allTensors, h.scratch, List.append_nil] at ht
        obtain ⟨e, he, rfl⟩ := List.mem_map.1 ht
        exact h.places e he
    · cases hrun

theorem allocateAll_tallied : ∀ {bs bs' : List TensorBuilder} {m m' : Machine},
    (∀ b ∈ bs, Unallocated b) → Plan.allocateAll bs m = (.ok (), bs', m') →
      bs'.map (·.backend) = bs.map (·.backend) ∧ ∀ b ∈ bs', Tallied b ∧ b.scratch = []
  | [], bs', m, m', _, hrun => by
    cases hrun
    exact ⟨rfl, fun b hb => by cases hb⟩
  | b :: bs, bs', m, m', h, hrun => by
    unfold Plan.allocateAll at hrun
    split at hrun
    · rename_i b₁ m₁ hb
      obtain ⟨hid, htallied⟩ := (h b (by simp)).allocate hb
      dsimp only at hrun
      cases hrest : Plan.allocateAll bs m₁ with
      | mk answer rest =>
        obtain ⟨rest, m₂⟩ := rest
        rw [hrest] at hrun
        cases hrun
        obtain ⟨hids, hall⟩ :=
          allocateAll_tallied (fun b hb => h b (List.mem_cons_of_mem _ hb)) hrest
        refine ⟨congrArg₂ List.cons hid hids, fun b' hb' => ?_⟩
        rcases List.mem_cons.1 hb' with rfl | hb'
        · exact htallied
        · exact hall b' hb'
    · cases hrun

/-! ## Scratch tensors -/

/-- The scratch tensors that a stage asks of a backend. -/
def Stage.scratchOn (id : BackendId) : Stage → List TensorInfo
  | .device backend _ _ (_ :: _) _ (some f) => if backend = id then [f.scratch] else []
  | _ => []

/-- The builder got the scratch tensors `infos` and counted them. -/
structure Scratched (infos : List TensorInfo) (b b' : TensorBuilder) : Prop where
  frame : b'.frame = b.frame
  scratch : b'.scratch.map (·.info) = b.scratch.map (·.info) ++ infos
  tallied : Tallied b → Tallied b'

/-- The same for several builders, each with what `infos` has for its backend. -/
def AllScratched (infos : BackendId → List TensorInfo) (bs bs' : List TensorBuilder) : Prop :=
  List.Forall₂ (fun b b' => Scratched (infos b.backend) b b') bs bs'

theorem Scratched.none (b : TensorBuilder) : Scratched [] b b :=
  ⟨rfl, (List.append_nil _).symm, id⟩

theorem Scratched.backend {infos : List TensorInfo} (h : Scratched infos b b') :
    b'.backend = b.backend :=
  (congrArg Prod.fst h.frame :)

theorem AllScratched.none {infos : BackendId → List TensorInfo}
    (h : ∀ b ∈ bs, infos b.backend = []) : AllScratched infos bs bs := by
  rw [AllScratched, List.forall₂_same]
  intro b hb
  rw [h b hb]
  exact .none b

theorem AllScratched.trans {infos infos' : BackendId → List TensorInfo}
    {bs₁ bs₂ bs₃ : List TensorBuilder} (h : AllScratched infos bs₁ bs₂)
    (h' : AllScratched infos' bs₂ bs₃) :
    AllScratched (fun id => infos id ++ infos' id) bs₁ bs₃ := by
  refine forall₂_trans (fun b₁ b₂ b₃ h₁ h₂ => ?_) h h'
  rw [h₁.backend] at h₂
  refine ⟨h₂.frame.trans h₁.frame, ?_, fun ht => h₂.tallied (h₁.tallied ht)⟩
  rw [h₂.scratch, h₁.scratch, List.append_assoc]

theorem AllScratched.backends {infos : BackendId → List TensorInfo}
    (h : AllScratched infos bs bs') : bs'.map (·.backend) = bs.map (·.backend) := by
  induction h with
  | nil => rfl
  | cons hb _ ih => rw [List.map_cons, List.map_cons, hb.backend, ih]

theorem addScratch_scratched {info : TensorInfo} :
    Returns (outcome (b.addScratch info) m) fun r _ => Scratched [info] b r.1 := by
  unfold TensorBuilder.addScratch
  split
  · trivial
  have hcreate : Returns (outcome (Tensor.create b.place b.backend info) m) fun t _ =>
      t.place = b.place ∧ t.info = info := (Returns.any _).bind fun _ _ _ => ⟨rfl, rfl⟩
  refine hcreate.bind fun t m₁ ht => t.allocate_bytes.bind fun bytes m₂ hbytes => ?_
  obtain ⟨hplace, rfl⟩ := ht
  subst hbytes
  refine ⟨rfl, by simp, fun h => ?_⟩
  have hall : ({ b with scratch := b.scratch ++ [t] } : TensorBuilder).allTensors
      = b.allTensors ++ [t] := (List.append_assoc _ _ _).symm
  refine ⟨h.prepares, h.allocates, h.marked, h.tensors, ?_, ?_, fun u hu => ?_⟩
  · simp [h.scratch]
  · change b.stats.bytes + 4 * t.info.elements
      = bytesFor ({ b with scratch := b.scratch ++ [t] } : TensorBuilder).allTensors
    rw [hall, bytesFor_append, h.bytes]
    rfl
  · change u ∈ ({ b with scratch := b.scratch ++ [t] } : TensorBuilder).allTensors at hu
    rw [hall] at hu
    rcases List.mem_append.1 hu with hu | hu
    · exact h.places u hu
    · obtain rfl := List.mem_singleton.1 hu
      exact hplace

/-- The builder that gets the scratch tensor is the only one of that name. -/
theorem addScratchTo_scratched {info : TensorInfo} : ∀ {bs : List TensorBuilder} {m : Machine},
    (bs.map (·.backend)).Nodup →
      Returns (outcome (Assembly.addScratchTo id info bs) m) fun r _ =>
        AllScratched (fun backend => if id = backend then [info] else []) bs r.1
  | [], m, _ => trivial
  | b :: bs, m, hn => by
    obtain ⟨hb, hn⟩ := List.nodup_cons.1 hn
    unfold Assembly.addScratchTo
    by_cases hid : b.backend = id
    · rw [if_pos (beq_iff_eq.2 hid)]
      have hrest : AllScratched (fun backend => if id = backend then [info] else []) bs bs :=
        .none fun b' hb' => if_neg fun he => hb (List.mem_map.2 ⟨b', hb', (hid.trans he).symm⟩)
      refine addScratch_scratched.bind fun r m₁ hr => .cons ?_ hrest
      beta_reduce
      rwa [if_pos hid.symm]
    · rw [if_neg (by simpa using hid)]
      refine (addScratchTo_scratched hn).bind fun r m₁ hr => .cons ?_ hr
      beta_reduce
      rw [if_neg (Ne.symm hid)]
      exact .none b

/-! ## Stages -/

namespace Assembly

/-- The builders are as they were. -/
def SameBuilders (a a' : Assembly) : Prop := a'.builders = a.builders

instance : IsPreorder Assembly SameBuilders where
  refl _ := rfl
  trans _ _ _ h h' := h'.trans h

theorem onMachine_same {α : Type} (t : Task α) : Keeps SameBuilders (onMachine t) := fun _ => rfl

theorem append_same (r : Runnable) : Keeps SameBuilders (append r) := fun _ => rfl

theorem tensor_same (id : BackendId) (i : OperandId) : Keeps SameBuilders (tensor id i) := by
  refine Keeps.get.bind fun a => ?_
  split
  · exact Keeps.check _
  · exact Keeps.check _

theorem hostCell_same (id : BackendId) (i : OperandId) : Keeps SameBuilders (hostCell id i) := by
  refine (tensor_same id i).bind fun t => ?_
  split
  · exact Keeps.throw _
  · exact Keeps.pure _

theorem deviceCellOf_same (t : Tensor) : Keeps SameBuilders (deviceCellOf t) := by
  unfold deviceCellOf
  split
  · exact Keeps.throw _
  · exact (onMachine_same _).bind fun _ => Keeps.pure _

theorem deviceCell_same (id : BackendId) (i : OperandId) :
    Keeps SameBuilders (deviceCell id i) :=
  (tensor_same id i).bind fun t => deviceCellOf_same t

theorem scratch_scratched {info : TensorInfo} (hn : (a.builders.map (·.backend)).Nodup) :
    Returns (outcome (scratch id info) a) fun _ a' =>
      AllScratched (fun backend => if id = backend then [info] else []) a.builders a'.builders := by
  rw [scratch, outcome_bind_of_ok (outcome_get a)]
  have hadd : Returns (outcome (onMachine (addScratchTo id info a.builders)) a) fun r _ =>
      AllScratched (fun backend => if id = backend then [info] else []) a.builders r.1 :=
    onMachine_ends (addScratchTo_scratched hn)
  exact hadd.bind fun r a' h => h

/-- A call that leaves the builders alone. -/
theorem SameBuilders.returns {α : Type} {t : Assemble α} (h : Keeps SameBuilders t) :
    Returns (outcome t a) fun _ a' => a'.builders = a.builders :=
  (h.ends (refl_of SameBuilders a)).mono (fun _ _ hs => hs) fun _ _ _ => trivial

theorem mapM_same {f : OperandId → Assemble CellId} (hf : ∀ i, Keeps SameBuilders (f i))
    (is : List OperandId) : Returns (outcome (is.mapM f) a) fun cs a' =>
      cs.length = is.length ∧ a'.builders = a.builders := by
  refine Ends.mapM (fun (done : List OperandId) (cs : List CellId) (a' : Assembly) =>
    cs.length = done.length ∧ a'.builders = a.builders)
    (fun done cs i rest a₁ _ hI => ?_) ⟨rfl, rfl⟩
  refine (SameBuilders.returns (hf i)).mono fun c a₂ h => ⟨?_, h.trans hI.2⟩
  rw [List.length_append, List.length_append, hI.1]
  rfl

end Assembly

open Assembly

theorem applyFlatten_scratched {backend : BackendId} {fl : Option Flatten} {is : List OperandId}
    {cs : List CellId} (hlen : cs.length = is.length) (hn : (a.builders.map (·.backend)).Nodup)
    (kernel : Kernel) (act : Activation) (o : OperandId) :
    Returns (outcome (Stage.applyFlatten backend fl is cs) a) fun _ a' =>
      AllScratched (fun id => Stage.scratchOn id (.device backend kernel act is o fl))
        a.builders a'.builders := by
  have hsame : ∀ {infos : BackendId → List TensorInfo}, (∀ b ∈ a.builders, infos b.backend = []) →
      Returns (outcome (pure cs : Assemble (List CellId)) a) fun _ a' =>
        AllScratched infos a.builders a'.builders := fun h => AllScratched.none h
  cases fl with
  | none => exact hsame fun b _ => by cases is <;> rfl
  | some f =>
    cases is with
    | nil => exact hsame fun b _ => rfl
    | cons i is =>
      obtain ⟨c, cs, rfl⟩ := List.exists_cons_of_length_eq_add_one hlen
      refine (scratch_scratched hn).bind fun t a₁ h₁ =>
        (SameBuilders.returns (deviceCellOf_same t)).bind fun c a₂ h₂ =>
        (SameBuilders.returns (append_same _)).bind fun _ a₃ h₃ => ?_
      rw [← h₂, ← h₃] at h₁
      exact h₁

/-- **Applying a stage** gives builders the scratch tensors that it asks of their backends. -/
theorem apply_scratched (s : Stage) (hn : (a.builders.map (·.backend)).Nodup) :
    Returns (outcome s.apply a) fun _ a' =>
      AllScratched (fun id => s.scratchOn id) a.builders a'.builders := by
  cases s with
  | host backend kernel inputs output =>
    refine (mapM_same (hostCell_same backend) inputs).bind fun ins a₁ h₁ =>
      (SameBuilders.returns (hostCell_same backend output)).bind fun out a₂ h₂ =>
      (SameBuilders.returns (append_same _)).mono fun _ a₃ h₃ => ?_
    rw [h₃, h₂, h₁.2]
    exact AllScratched.none fun b _ => rfl
  | device backend kernel activation inputs output flatten =>
    refine (SameBuilders.returns (deviceCell_same backend output)).bind fun out a₁ h₁ =>
      (mapM_same (deviceCell_same backend) inputs).bind fun ins a₂ h₂ => ?_
    rw [← h₁, ← h₂.2] at hn
    refine (applyFlatten_scratched h₂.1 hn kernel activation output).bind fun ins' a₃ h₃ => ?_
    rw [h₂.2, h₁] at h₃
    rw [outcome_deviceSteps]
    exact h₃
  | permute input output source target =>
    refine (SameBuilders.returns (tensor_same source input)).bind fun src a₁ h₁ =>
      (SameBuilders.returns (tensor_same target output)).bind fun dst a₂ h₂ =>
      (SameBuilders.returns (append_same _)).mono fun _ a₃ h₃ => ?_
    rw [h₃, h₂, h₁]
    exact AllScratched.none fun b _ => rfl

/-- All stages in order. -/
theorem applyAll_scratched : ∀ (stages : List Stage) {a : Assembly},
    (a.builders.map (·.backend)).Nodup →
      Returns (outcome (stages.forM Stage.apply) a) fun _ a' =>
        AllScratched (fun id => stages.flatMap (·.scratchOn id)) a.builders a'.builders
  | [], a, _ => by
    have hsame : AllScratched (fun id => ([] : List Stage).flatMap (·.scratchOn id))
      a.builders a.builders := .none fun b _ => rfl
    exact hsame
  | s :: stages, a, hn => by
    rw [List.forM_eq_forM, List.forM_cons, ← List.forM_eq_forM]
    refine (apply_scratched s hn).bind fun _ a₁ h₁ => ?_
    exact (applyAll_scratched stages (h₁.backends ▸ hn)).mono fun _ a₂ h₂ => h₁.trans h₂

/-! ## Making a plan -/

variable {model : Model} {d : PlanDraft}

/-- The builders of the plan have counted what they have, and their scratch tensors are those that
the stages ask for. -/
def Plan.Tallied (p : Plan) (stages : List Stage) : Prop :=
  ∀ b ∈ p.builders, HeteroNet.Tallied b ∧
    b.scratch.map (·.info) = stages.flatMap (·.scratchOn b.backend)

/-- What the stages add to builders that have no scratch tensors yet. -/
theorem AllScratched.tallied {infos : BackendId → List TensorInfo} (h : AllScratched infos bs bs')
    (hbs : ∀ b ∈ bs, Tallied b ∧ b.scratch = []) : ∀ b' ∈ bs', Tallied b' ∧
      b'.scratch.map (·.info) = infos b'.backend := by
  intro b' hb'
  obtain ⟨b, hb, hbb⟩ := (mem_of_forall₂ h).1 b' hb'
  obtain ⟨htallied, hscratch⟩ := hbs b hb
  refine ⟨hbb.tallied htallied, ?_⟩
  rw [hbb.scratch, hscratch, hbb.backend]
  rfl

theorem assemble_tallied (hn : (bs.map (·.backend)).Nodup) (hbs : ∀ b ∈ bs, Unallocated b) :
    Returns (outcome (d.assemble model) { builders := bs, machine := m }) fun p _ =>
      p.Tallied d.stages := by
  obtain ⟨r, bs', m', hrun⟩ : ∃ r bs' m', Plan.allocateAll bs m = (r, bs', m') := ⟨_, _, _, rfl⟩
  refine assemble_of_allocate hrun (fun _ _ => trivial) fun hr => ?_
  subst hr
  obtain ⟨hnames, htallied⟩ := allocateAll_tallied hbs hrun
  have hn' : (bs'.map (·.backend)).Nodup := hnames ▸ hn
  refine (applyAll_scratched d.stages hn').mono fun _ a h => ?_
  refine (Returns.any _).bind fun _ _ _ => (Returns.any _).bind fun _ _ _ => ?_
  exact h.tallied htallied

/-- **Making a plan**: what its builders have counted. -/
theorem finalize_tallied (hn : (bs.map (·.backend)).Nodup) (hbs : ∀ b ∈ bs, Marked b) :
    Returns (outcome (d.finalize model bs) m) fun p _ => p.Tallied d.stages := by
  refine finalize_of_prepare (prepareAll_unallocated hbs) fun bs' m' h => ?_
  obtain ⟨hnames, hbs'⟩ := h
  exact assemble_tallied (hnames ▸ hn) hbs'

end HeteroNet
