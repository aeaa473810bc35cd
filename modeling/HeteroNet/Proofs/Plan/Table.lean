import HeteroNet.Proofs.Model.Values
import HeteroNet.Proofs.SortedMap
import HeteroNet.Stage
import HeteroNet.Plan

/-
The tensors of a plan, by backend and operand. A table of builders has one tensor for every tensor
that the operations read or write, of the shape and type of its operand, on the side where its
backend keeps tensors (`Table`). Later changes to the builders (memory, scratch tensors, counters)
leave the table as it is.
-/

namespace HeteroNet

open Model

/-- On which side a backend keeps its tensors. -/
def placeOf (id : BackendId) : Place := if id = Backend.device.id then .device else .host

namespace TensorBuilder

/-- What preparing a builder settles for good. -/
def frame (b : TensorBuilder) : BackendId × Place × List OperandId × SortedMap OperandId Tensor :=
  (b.backend, b.place, b.marked, b.tensors)

end TensorBuilder

/-- The tensors of operands, each with its place in the table. -/
def entries (bs : List TensorBuilder) : List (Site × Tensor) :=
  bs.flatMap fun b => b.tensors.map fun e => ((b.backend, e.1), e.2)

def scratchOf (bs : List TensorBuilder) : List Tensor := bs.flatMap (·.scratch)

/-- All tensors: those of operands, then scratch. -/
def tensorsOf (bs : List TensorBuilder) : List Tensor := (entries bs).map Prod.snd ++ scratchOf bs

/-- The tensor of an operand on a backend. -/
def tensorAt (bs : List TensorBuilder) (s : Site) : Option Tensor :=
  (bs.find? (·.backend == s.1)).bind (·.tensors.find? s.2)

theorem entry_of_tensorAt {bs : List TensorBuilder} {s : Site} {t : Tensor}
    (h : tensorAt bs s = some t) : (s, t) ∈ entries bs := by
  obtain ⟨id, i⟩ := s
  obtain ⟨b, hb, ht⟩ := Option.bind_eq_some_iff.1 h
  obtain rfl : b.backend = id := eq_of_beq (List.find?_some hb :)
  exact List.mem_flatMap.2 ⟨b, List.mem_of_find?_eq_some hb,
    List.mem_map.2 ⟨_, SortedMap.find?_mem ht, rfl⟩⟩

theorem mem_tensorsOf_of_tensorAt {bs : List TensorBuilder} {s : Site} {t : Tensor}
    (h : tensorAt bs s = some t) : t ∈ tensorsOf bs :=
  List.mem_append_left _ (List.mem_map_of_mem (entry_of_tensorAt h))

/-- The tensors of operands have the shapes of their operands. -/
def Shaped (os : Operands) (bs : List TensorBuilder) : Prop :=
  ∀ s t, tensorAt bs s = some t → HasShape os s.2 t.info.shape

/-- The builders have a tensor for each of `sites`, and for nothing else; each of them has one. -/
structure Table (os : Operands) (sites : List Site) (bs : List TensorBuilder) : Prop where
  names : (bs.map (·.backend)).Pairwise (· < ·)
  backend : ∀ {id i}, (id, i) ∈ sites → id ∈ bs.map (·.backend)
  place : ∀ b ∈ bs, b.place = placeOf b.backend
  marked : ∀ b ∈ bs, ∀ i, i ∈ b.marked ↔ (b.backend, i) ∈ sites
  used : ∀ b ∈ bs, ∃ i, (b.backend, i) ∈ sites
  keys : ∀ b ∈ bs, b.tensors.map Prod.fst = b.marked
  once : ∀ b ∈ bs, b.marked.Nodup
  known : ∀ b ∈ bs, ∀ {i t}, (i, t) ∈ b.tensors →
    t.place = b.place ∧ ∃ o, os[i]? = some o ∧ t.info = ⟨o.shape, o.type⟩

/-! ## The frame -/

theorem entries_congr {bs bs' : List TensorBuilder}
    (h : bs'.map TensorBuilder.frame = bs.map TensorBuilder.frame) : entries bs' = entries bs := by
  have he : ∀ bs : List TensorBuilder, entries bs = (bs.map TensorBuilder.frame).flatMap
      fun f => f.2.2.2.map fun e => ((f.1, e.1), e.2) := fun bs => by
    rw [List.flatMap_map]
    rfl
  rw [he, he, h]

theorem tensorAt_congr {bs bs' : List TensorBuilder}
    (h : bs'.map TensorBuilder.frame = bs.map TensorBuilder.frame) : tensorAt bs' = tensorAt bs := by
  have he : ∀ (bs : List TensorBuilder) (s : Site), tensorAt bs s =
      ((bs.map TensorBuilder.frame).find? (·.1 == s.1)).bind (·.2.2.2.find? s.2) := by
    intro bs s
    rw [List.find?_map, Option.bind_map]
    rfl
  funext s
  rw [he, he, h]

/-- What preparing settled of a builder is found again in the builder it came from. -/
theorem exists_frame {bs bs' : List TensorBuilder}
    (h : bs'.map TensorBuilder.frame = bs.map TensorBuilder.frame) {b' : TensorBuilder}
    (hb' : b' ∈ bs') : ∃ b ∈ bs, b'.backend = b.backend ∧ b'.place = b.place ∧
      b'.marked = b.marked ∧ b'.tensors = b.tensors := by
  have hmem : b'.frame ∈ bs.map TensorBuilder.frame := h ▸ List.mem_map_of_mem hb'
  obtain ⟨b, hb, he⟩ := List.mem_map.1 hmem
  simp only [TensorBuilder.frame, Prod.mk.injEq] at he
  exact ⟨b, hb, he.1.symm, he.2.1.symm, he.2.2.1.symm, he.2.2.2.symm⟩

theorem Table.congr {os : Operands} {sites : List Site} {bs bs' : List TensorBuilder}
    (h : Table os sites bs) (hf : bs'.map TensorBuilder.frame = bs.map TensorBuilder.frame) :
    Table os sites bs' := by
  have hnames : bs'.map (·.backend) = bs.map (·.backend) := by
    have := congrArg (List.map Prod.fst) hf
    simpa only [List.map_map, Function.comp_def, TensorBuilder.frame] using this
  refine ⟨hnames ▸ h.names, fun hs => hnames ▸ h.backend hs, fun b' hb' => ?_, fun b' hb' => ?_,
    fun b' hb' => ?_, fun b' hb' => ?_, fun b' hb' => ?_, fun b' hb' => ?_⟩ <;>
    obtain ⟨b, hb, hid, hplace, hmarked, htensors⟩ := exists_frame hf hb'
  · rw [hplace, hid]
    exact h.place b hb
  · rw [hmarked, hid]
    exact h.marked b hb
  · rw [hid]
    exact h.used b hb
  · rw [hmarked, htensors]
    exact h.keys b hb
  · rw [hmarked]
    exact h.once b hb
  · intro i t ht
    rw [hplace]
    exact h.known b hb (htensors ▸ ht)

/-! ## Looking up -/

/-- A list of entries with distinct keys has at most one for each. -/
theorem find?_of_mem {m : SortedMap OperandId Tensor} {i : OperandId} {t : Tensor}
    (hm : (m.map Prod.fst).Nodup) (h : (i, t) ∈ m) : m.find? i = some t := by
  induction m with
  | nil => cases h
  | cons e m ih =>
    obtain ⟨j, u⟩ := e
    obtain ⟨hj, hm⟩ := List.nodup_cons.1 hm
    unfold SortedMap.find?
    rcases List.mem_cons.1 h with he | h
    · cases he
      simp
    · have hne : j ≠ i := fun he => hj (he ▸ List.mem_map.2 ⟨(i, t), h, rfl⟩)
      rw [if_neg hne, ih hm h]

namespace Table

variable {os : Operands} {sites : List Site} {bs : List TensorBuilder}

theorem find?_backend (h : Table os sites bs) {b : TensorBuilder} (hb : b ∈ bs) :
    bs.find? (·.backend == b.backend) = some b := by
  have hsome : (bs.find? (·.backend == b.backend)).isSome := by
    rw [List.find?_isSome]
    exact ⟨b, hb, beq_self_eq_true _⟩
  obtain ⟨b', hb'⟩ := Option.isSome_iff_exists.1 hsome
  have hid : b'.backend = b.backend := eq_of_beq (List.find?_some hb' :)
  have hnodup : (bs.map (·.backend)).Nodup := h.names.imp fun hlt => Std.ne_of_lt hlt
  rw [hb', List.inj_on_of_nodup_map hnodup (List.mem_of_find?_eq_some hb') hb hid]

theorem tensorAt_eq (h : Table os sites bs) {b : TensorBuilder} (hb : b ∈ bs) (i : OperandId) :
    tensorAt bs (b.backend, i) = b.tensors.find? i := by
  rw [tensorAt, h.find?_backend hb, Option.bind_some]

/-- The table has exactly the tensors of its entries. -/
theorem tensorAt_iff (h : Table os sites bs) {s : Site} {t : Tensor} :
    tensorAt bs s = some t ↔ (s, t) ∈ entries bs := by
  refine ⟨entry_of_tensorAt, fun ht => ?_⟩
  obtain ⟨b, hb, ht⟩ := List.mem_flatMap.1 ht
  obtain ⟨⟨j, u⟩, hu, he⟩ := List.mem_map.1 ht
  cases he
  rw [h.tensorAt_eq hb]
  exact find?_of_mem (h.keys b hb ▸ h.once b hb) hu

theorem exists_tensorAt (h : Table os sites bs) {s : Site} (hs : s ∈ sites) :
    ∃ t, tensorAt bs s = some t := by
  obtain ⟨id, i⟩ := s
  obtain ⟨b, hb, rfl⟩ := List.mem_map.1 (h.backend hs)
  have hi : i ∈ b.tensors.map Prod.fst := h.keys b hb ▸ (h.marked b hb i).2 hs
  obtain ⟨⟨j, t⟩, ht, rfl⟩ := List.mem_map.1 hi
  exact ⟨t, h.tensorAt_iff.2 (List.mem_flatMap.2 ⟨b, hb, List.mem_map.2 ⟨_, ht, rfl⟩⟩)⟩

/-- What is known of a tensor of the table. -/
theorem tensorAt_known (h : Table os sites bs) {id : BackendId} {i : OperandId} {t : Tensor}
    (ht : tensorAt bs (id, i) = some t) : (id, i) ∈ sites ∧ t.place = placeOf id ∧
      (∃ b ∈ bs, b.place = placeOf id) ∧ ∃ o, os[i]? = some o ∧ t.info = ⟨o.shape, o.type⟩ := by
  obtain ⟨b, hb, ht⟩ := List.mem_flatMap.1 (h.tensorAt_iff.1 ht)
  obtain ⟨⟨j, u⟩, hu, he⟩ := List.mem_map.1 ht
  cases he
  obtain ⟨hplace, ho⟩ := h.known b hb hu
  have hj : j ∈ b.marked := h.keys b hb ▸ List.mem_map.2 ⟨_, hu, rfl⟩
  exact ⟨(h.marked b hb j).1 hj, hplace.trans (h.place b hb), ⟨b, hb, h.place b hb⟩, ho⟩

theorem shaped (h : Table os sites bs) : Shaped os bs := by
  intro s t ht
  obtain ⟨-, -, -, o, ho, hinfo⟩ := h.tensorAt_known ht
  exact ⟨o, ho, by rw [hinfo]⟩

/-- The tensors of an operand, one for each backend in the order of their names. -/
theorem tensors_eq (h : Table os sites bs) {p : Plan} (hp : p.builders = bs) (i : OperandId) :
    p.tensors i = (bs.map (·.backend)).filterMap fun id => tensorAt bs (id, i) := by
  rw [Plan.tensors, hp, List.filterMap_map]
  refine List.filterMap_congr fun b hb => ?_
  rw [Function.comp_apply, h.tensorAt_eq hb]
  split
  · rfl
  · rename_i hi
    cases hf : b.tensors.find? i with
    | none => rfl
    | some t =>
      have hmem : i ∈ b.tensors.map Prod.fst := List.mem_map.2 ⟨_, SortedMap.find?_mem hf, rfl⟩
      exact absurd (h.keys b hb ▸ hmem) hi

theorem mem_tensors (h : Table os sites bs) {p : Plan} (hp : p.builders = bs) {i : OperandId}
    {t : Tensor} : t ∈ p.tensors i ↔ ∃ id, tensorAt bs (id, i) = some t := by
  rw [h.tensors_eq hp, List.mem_filterMap]
  constructor
  · rintro ⟨id, -, ht⟩
    exact ⟨id, ht⟩
  · rintro ⟨id, ht⟩
    exact ⟨id, h.backend (h.tensorAt_known ht).1, ht⟩

end Table

end HeteroNet
