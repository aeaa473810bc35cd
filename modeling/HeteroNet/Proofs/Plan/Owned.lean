import HeteroNet.Proofs.Plan.Bindings
import HeteroNet.Proofs.Plan.Contexts
import HeteroNet.Proofs.Plan.Draft

/-
The tensors that a plan has for an operand, whatever backends are registered. Marking settles which
builders have a tensor for it, and nothing that follows changes that: what preparing leaves of a
builder stays its frame. A stage looks its output up among the tensors of a builder, and the last
of the steps that it appends writes there (`Fills`).

Only calls that return are of interest here, so that nothing need be known of the backends.
-/

namespace HeteroNet

open Model

variable {needs : List Site} {cs : SortedMap BackendId Context} {bs bs' : List TensorBuilder}
  {id : BackendId} {i : OperandId} {a a' : Assembly} {m : Machine}

/-- The tensors that builders have for an operand. -/
def owners (bs : List TensorBuilder) (i : OperandId) : List Tensor :=
  bs.filterMap (·.tensors.find? i)

/-- Each builder has tensors for the operands it marked. -/
def Keyed (bs : List TensorBuilder) : Prop := ∀ b ∈ bs, b.tensors.map Prod.fst = b.marked

theorem Plan.tensors_eq_owners {p : Plan} (h : Keyed p.builders) (i : OperandId) :
    p.tensors i = owners p.builders i := by
  refine List.filterMap_congr fun b hb => ?_
  by_cases hi : i ∈ b.marked
  · rw [if_pos hi]
  · rw [if_neg hi]
    rw [← h b hb, ← SortedMap.find?_isSome_iff] at hi
    exact (Option.not_isSome_iff_eq_none.1 hi).symm

/-- An operand has as many tensors as builders marked it. -/
theorem length_owners (h : Keyed bs) (i : OperandId) :
    (owners bs i).length = (bs.map (·.marked)).countP (i ∈ ·) := by
  rw [owners, List.length_filterMap_eq_countP, List.countP_map]
  refine List.countP_congr fun b hb => ?_
  simp [SortedMap.find?_isSome_iff, h b hb]

theorem owners_congr (h : bs'.map TensorBuilder.frame = bs.map TensorBuilder.frame) :
    owners bs' = owners bs := by
  have he : ∀ (bs : List TensorBuilder) (i : OperandId),
      owners bs i = (bs.map TensorBuilder.frame).filterMap (·.2.2.2.find? i) := by
    intro bs i
    rw [List.filterMap_map]
    rfl
  funext i
  rw [he, he, h]

theorem Keyed.congr (hk : Keyed bs)
    (h : bs'.map TensorBuilder.frame = bs.map TensorBuilder.frame) : Keyed bs' := by
  intro b' hb'
  obtain ⟨b, hb, -, -, hmarked, htensors⟩ := exists_frame h hb'
  rw [hmarked, htensors]
  exact hk b hb

/-! ## Marking -/

theorem markTensor_marks {s : Platform} (h : Marking needs cs) (site : Site) :
    Returns (outcome (markTensor cs site) s) fun cs' _ => Marking (needs ++ [site]) cs' := by
  obtain ⟨id, i⟩ := site
  have hrest : ∀ {c : Context} {s' : Platform}, (∀ j, j ∈ c.builder.marked ↔ (id, j) ∈ needs) →
      Returns (outcome (do
        let builder ← c.builder.mark i
        return cs.insert id { c with builder } : PlatformTask (SortedMap BackendId Context)) s')
        fun cs' _ => Marking (needs ++ [(id, i)]) cs' := by
    intro c s' hc
    have hmark : Returns (outcome (liftM (c.builder.mark i) : PlatformTask TensorBuilder) s')
        fun builder _ => builder.marked = insertSorted i c.builder.marked :=
      Returns.check fun builder hmark => by
        unfold TensorBuilder.mark at hmark
        split at hmark <;> cases hmark
        rfl
    refine hmark.bind fun builder s'' hbuilder => h.insert fun j => ?_
    simp [hbuilder, hc, or_comm]
  unfold markTensor
  dsimp only
  cases hfind : cs.find? id with
  | some c => exact hrest (h.marked (SortedMap.find?_mem hfind))
  | none =>
    have hnone : ∀ j, (id, j) ∉ needs := fun j hj => by
      obtain ⟨c, hc⟩ := h.all hj
      rw [(h.ascending.find?).2 hc] at hfind
      cases hfind
    have hnew : Returns (outcome (Platform.newContext id) s) fun c _ => c.builder.marked = [] :=
      (Returns.any _).bind fun b s' _ => rfl
    refine hnew.bind fun c s' hc => hrest fun j => ?_
    simp [hc, hnone]

theorem markAll_marks {s : Platform} (marks : List Site) :
    Returns (outcome (marks.foldlM markTensor []) s) fun cs _ => Marking marks cs :=
  Ends.foldlM (fun done cs _ => Marking done cs) (fun _ site _ _ _ _ h => markTensor_marks h site)
    Contexts.nil.marking

/-- An operand that is marked on one backend is marked in one context. -/
theorem Marking.count (h : Marking needs cs) (hs : ∀ id', (id', i) ∈ needs ↔ id' = id) :
    ((cs.map fun (_, c) => c.builder).map (·.marked)).countP (i ∈ ·) = 1 := by
  obtain ⟨c, hc⟩ := h.all ((hs id).2 rfl)
  have hnodup : cs.Nodup := List.Nodup.of_map Prod.fst (h.ascending.imp fun hlt => Std.ne_of_lt hlt)
  have hfilter : cs.filter (fun e => decide (i ∈ e.2.builder.marked)) = [(id, c)] := by
    refine eq_singleton (hnodup.filter _) fun e => ?_
    obtain ⟨id', c'⟩ := e
    rw [List.mem_filter, decide_eq_true_iff]
    constructor
    · rintro ⟨hmem, hi⟩
      obtain rfl := (hs id').1 ((h.marked hmem i).1 hi)
      have hfind := h.ascending.find?.2 hc
      rw [h.ascending.find?.2 hmem, Option.some.injEq] at hfind
      rw [hfind]
    · rintro he
      cases he
      exact ⟨hc, (h.marked hc i).2 ((hs id).2 rfl)⟩
  rw [List.map_map, List.countP_map, List.countP_eq_length_filter]
  exact congrArg List.length hfilter

/-! ## Preparing -/

theorem wanted_keys {constraints : ShapeConstraints} {b : TensorBuilder}
    {wanted : List (OperandId × TensorInfo)} (h : b.wanted constraints = .ok wanted) :
    wanted.map Prod.fst = b.marked := by
  have hall := mapM_eq_ok.1 h
  clear * - hall
  generalize b.marked = marked at hall
  induction hall with
  | nil => rfl
  | cons hw _ ih =>
    split at hw <;> cases hw
    rw [List.map_cons, ih]

theorem createTensors_keys {b : TensorBuilder} {wanted : List (OperandId × TensorInfo)} :
    Returns (outcome (b.createTensors wanted) m) fun es _ =>
      es.map Prod.fst = wanted.map Prod.fst := by
  refine Ends.mapM (fun done es _ => es.map Prod.fst = done.map Prod.fst)
    (fun done es w rest m₁ _ hI => ?_) rfl
  refine (Returns.any _).bind fun t m₂ _ => ?_
  change (es ++ [(w.1, t)]).map Prod.fst = (done ++ [w]).map Prod.fst
  rw [List.map_append, List.map_append, hI]
  rfl

theorem prepare_keeps {constraints : ShapeConstraints} {b : TensorBuilder} :
    Returns (outcome (b.prepare constraints) m) fun b' _ =>
      b'.marked = b.marked ∧ b'.tensors.map Prod.fst = b.marked := by
  unfold TensorBuilder.prepare
  split
  · trivial
  have hwanted : Returns (outcome (liftM (b.wanted constraints) : Task _) m) fun wanted _ =>
      wanted.map Prod.fst = b.marked := Returns.check fun wanted hw => wanted_keys hw
  refine hwanted.bind fun wanted m' hkeys => ?_
  exact createTensors_keys.bind fun es m' hes => ⟨rfl, hes.trans hkeys⟩

theorem prepareAll_keeps {constraints : ShapeConstraints} :
    Returns (outcome (bs.mapM (·.prepare constraints)) m) fun bs' _ =>
      bs'.map (·.marked) = bs.map (·.marked) ∧ Keyed bs' := by
  refine Ends.mapM (fun (done : List TensorBuilder) bs' _ =>
    bs'.map (·.marked) = done.map (·.marked) ∧ Keyed bs')
    (fun done bs' b rest m' _ hI => prepare_keeps.mono fun b' m'' hb' => ?_)
    ⟨rfl, fun b hb => by cases hb⟩
  obtain ⟨hmarked, hkeys⟩ := hb'
  refine ⟨by rw [List.map_append, List.map_append, hI.1, List.map_singleton, hmarked]; rfl, ?_⟩
  intro b'' hb''
  rcases List.mem_append.1 hb'' with hb'' | hb''
  · exact hI.2 b'' hb''
  · obtain rfl := List.mem_singleton.1 hb''
    rw [hkeys, hmarked]

/-! ## Stages -/

/-- The operand that a stage writes. -/
def Stage.output : Stage → OperandId
  | .host _ _ _ output => output
  | .device _ _ _ _ output _ => output
  | .permute _ output _ _ => output

/-- The last of the steps fills a tensor that some builder has for the operand. -/
def Fills (bs : List TensorBuilder) (i : OperandId) (rs : List Runnable) : Prop :=
  ∃ t ∈ owners bs i, ∃ r, rs.getLast? = some r ∧ r.output = t.cell

theorem mem_owners {t : Tensor} (h : tensorAt bs (id, i) = some t) : t ∈ owners bs i := by
  obtain ⟨b, hb, ht⟩ := Option.bind_eq_some_iff.1 h
  exact List.mem_filterMap.2 ⟨b, List.mem_of_find?_eq_some hb, ht⟩

/-- An activation works on the output in place. -/
theorem deviceSteps_last (label label' : String) (k : Kernel) (act : Activation)
    (ins : List CellId) (out : CellId) :
    ∃ r, (deviceSteps label label' k act ins out).getLast? = some r ∧ r.output = out := by
  unfold deviceSteps
  split
  · exact ⟨_, rfl, rfl⟩
  · exact ⟨_, rfl, rfl⟩

/-- **The last step of a stage fills a tensor of its output.** -/
theorem apply_fills (s : Stage) : Returns (outcome s.apply a) fun _ a' =>
    a'.builders.map TensorBuilder.frame = a.builders.map TensorBuilder.frame ∧
      ∃ rs, a'.runnables = a.runnables ++ rs ∧ Fills a.builders s.output rs := by
  refine (apply_binds s).mono fun _ a' h => ?_
  cases h with
  | host label _ ht => exact ⟨rfl, _, rfl, _, mem_owners ht, _, rfl, rfl⟩
  | device label label' _ ht _ =>
    obtain ⟨r, hr, hout⟩ := deviceSteps_last label label' _ _ _ _
    exact ⟨rfl, _, rfl, _, mem_owners ht, r, hr, hout⟩
  | flattened label₀ label label' _ ht hu _ =>
    obtain ⟨r, hr, hout⟩ := deviceSteps_last label label' _ _ _ _
    refine ⟨hu.frames, _, rfl, _, mem_owners ht, r, ?_, hout⟩
    rw [List.getLast?_cons, hr, Option.getD_some]
  | permute label _ ht => exact ⟨rfl, _, rfl, _, mem_owners ht, _, rfl, rfl⟩

/-- All stages in order. -/
theorem applyAll_fills : ∀ (stages : List Stage) {a : Assembly},
    Returns (outcome (stages.forM Stage.apply) a) fun _ a' =>
      a'.builders.map TensorBuilder.frame = a.builders.map TensorBuilder.frame ∧
        ∃ groups, a'.runnables = a.runnables ++ groups.flatten ∧
          List.Forall₂ (fun s rs => Fills a.builders (Stage.output s) rs) stages groups
  | [], a => ⟨rfl, [], (List.append_nil _).symm, .nil⟩
  | s :: stages, a => by
    rw [List.forM_eq_forM, List.forM_cons, ← List.forM_eq_forM]
    refine (apply_fills s).bind fun _ a₁ h₁ => (applyAll_fills stages).mono fun _ a₂ h₂ => ?_
    obtain ⟨hframes, rs, hrs, hfills⟩ := h₁
    obtain ⟨hframes', groups, hgroups, hall⟩ := h₂
    refine ⟨hframes'.trans hframes, rs :: groups, ?_, .cons hfills (hall.imp fun s rs h => ?_)⟩
    · rw [hgroups, hrs, List.flatten_cons, List.append_assoc]
    · unfold Fills at h ⊢
      rwa [owners_congr hframes] at h

/-! ## Plans -/

variable {model : Model} {d : PlanDraft}

/-- The plan has the tensors of the builders `bs`, and for each stage the steps that fill its
output. -/
structure Plan.Filled (p : Plan) (model : Model) (bs : List TensorBuilder) (stages : List Stage) :
    Prop where
  model_eq : p.model = model
  frames : p.builders.map TensorBuilder.frame = bs.map TensorBuilder.frame
  steps : ∃ groups, p.runnables = groups.flatten ∧
    List.Forall₂ (fun s rs => Fills bs (Stage.output s) rs) stages groups

theorem assemble_fills :
    Returns (outcome (d.assemble model) { builders := bs, machine := m }) fun p _ =>
      p.Filled model bs d.stages := by
  have hallocated := (frames_of_kept (allocateAll_kept bs m)).1
  refine assemble_of_allocate rfl (fun _ _ => trivial) fun _ =>
    (applyAll_fills d.stages).mono fun _ a h => ?_
  obtain ⟨hframes, groups, hgroups, hall⟩ := h
  refine (Returns.any _).bind fun _ _ _ => (Returns.any _).bind fun _ _ _ => ?_
  refine ⟨rfl, hframes.trans hallocated, groups, by rw [hgroups, List.nil_append], ?_⟩
  refine hall.imp fun s rs h => ?_
  unfold Fills at h ⊢
  rwa [owners_congr hallocated] at h

theorem finalize_fills : Returns (outcome (d.finalize model bs) m) fun p _ =>
    ∃ bs', bs'.map (·.marked) = bs.map (·.marked) ∧ Keyed bs' ∧ p.Filled model bs' d.stages := by
  refine finalize_of_prepare prepareAll_keeps fun bs' m' h => ?_
  obtain ⟨hmarked, hkeyed⟩ := h
  exact assemble_fills.mono fun p _ hp => ⟨bs', hmarked, hkeyed, hp⟩

end HeteroNet
