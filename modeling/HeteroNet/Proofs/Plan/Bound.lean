import HeteroNet.Proofs.Machine.Steps
import HeteroNet.Proofs.Plan.Table

/-
The steps of an operation. On the host an operation is one step; on the device it is its kernel, with
a step before it if the input is flattened and a step after it if there is an activation; and a copy
between backends reads one tensor and writes another (`Bound`).

Whatever the steps are, they do to the words that memory stores what the operation does to logical
words, and they have a result on any words (`Bound.realizes`).
-/

namespace HeteroNet

open Operation Layout Kernel

/-- Memory stores the logical words `V` in the tensors of the table. -/
def Holds (bs : List TensorBuilder) (E : CellId → Buffer) (V : Words) : Prop :=
  ∀ s t, tensorAt bs s = some t → Stores t.layout t.info.shape (V s) (E t.cell)

/-- `ts` are the tensors of the operands `is` on a backend. -/
def TensorsAt (bs : List TensorBuilder) (id : BackendId) (is : List OperandId)
    (ts : List Tensor) : Prop :=
  List.Forall₂ (fun i t => tensorAt bs (id, i) = some t) is ts

/-- A kernel on the device, and then the activation, if there is one. -/
def deviceSteps (label label' : String) (k : Kernel) (act : Activation) (ins : List CellId)
    (out : CellId) : List Runnable :=
  .device label k ins out :: if act ≠ .none then [.device label' (.activation act) [] out] else []

/-- The steps of an operation, on the tensors of the builders. -/
inductive Bound (os : Operands) (bs : List TensorBuilder) :
    Operation × Placement → List Runnable → Prop
  | host {op p ss o out k k' act fl ts t} (label : String) :
    Planned os op ss o out k k' act fl → op.kind ≠ .permute → placeOf p.backend = .host →
    TensorsAt bs p.backend op.inputs ts → tensorAt bs (p.backend, o) = some t →
    Bound os bs (op, p) [.host label k (ts.map Tensor.cell) t.cell]
  | device {op p ss o out k k' act ts t} (label label' : String) :
    Planned os op ss o out k k' act none → op.kind ≠ .permute → placeOf p.backend = .device →
    TensorsAt bs p.backend op.inputs ts → tensorAt bs (p.backend, o) = some t →
    Bound os bs (op, p) (deviceSteps label label' k' act (ts.map Tensor.cell) t.cell)
  | flattened {op p ss o out k k' act f first rest t u} (label₀ label label' : String) :
    Planned os op ss o out k k' act (some f) → op.kind ≠ .permute →
    placeOf p.backend = .device → TensorsAt bs p.backend op.inputs (first :: rest) →
    tensorAt bs (p.backend, o) = some t → u ∈ scratchOf bs → u.place = .device →
    u.info = f.scratch →
    Bound os bs (op, p) (.device label₀ f.kernel [first.cell] u.cell ::
      deviceSteps label label' k' act (u.cell :: rest.map Tensor.cell) t.cell)
  | permute {op p a b x o s source target} (label : String) :
    op.attributes = .permute a b → op.inputs = [x] → op.outputs = [o] → HasShape os x s →
    HasShape os o s → tensorAt bs (a, x) = some source → tensorAt bs (b, o) = some target →
    Bound os bs (op, p) [.permute label source target]

/-- The cells that operations write: those of the tensors they write, and scratch. -/
def Written (bs : List TensorBuilder) (sites : List Site) (c : CellId) : Prop :=
  (∃ s ∈ sites, ∃ t, tensorAt bs s = some t ∧ t.cell = c) ∨ ∃ u ∈ scratchOf bs, u.cell = c

variable {os : Operands} {sites : List Site} {bs bs' : List TensorBuilder} {mem : Memory}
  {E : CellId → Buffer} {V : Words} {q : Operation × Placement} {rs : List Runnable}

/-- More scratch tensors do not matter. -/
theorem Bound.congr (h : Bound os bs q rs)
    (hf : bs'.map TensorBuilder.frame = bs.map TensorBuilder.frame)
    (hs : scratchOf bs ⊆ scratchOf bs') : Bound os bs' q rs := by
  have ht := tensorAt_congr hf
  cases h with
  | host label hp hk hplace hts hto =>
    exact .host label hp hk hplace (by rwa [TensorsAt, ht]) (by rwa [ht])
  | device label label' hp hk hplace hts hto =>
    exact .device label label' hp hk hplace (by rwa [TensorsAt, ht]) (by rwa [ht])
  | flattened label₀ label label' hp hk hplace hts hto hu hup hui =>
    exact .flattened label₀ label label' hp hk hplace (by rwa [TensorsAt, ht]) (by rwa [ht]) (hs hu)
      hup hui
  | permute label ha hx ho hxs hos hsource htarget =>
    exact .permute label ha hx ho hxs hos (by rwa [ht]) (by rwa [ht])

/-! ## Stored words -/

/-- Every tensor has a cell that no other tensor has. -/
def Apart (bs : List TensorBuilder) : Prop := ((tensorsOf bs).map Tensor.cell).Nodup

theorem Apart.split (h : Apart bs) : ((entries bs).map fun e => e.2.cell).Nodup ∧
    ∀ e ∈ entries bs, ∀ u ∈ scratchOf bs, e.2.cell ≠ u.cell := by
  rw [Apart, tensorsOf, List.map_append, List.map_map] at h
  obtain ⟨hn, -, hd⟩ := List.nodup_append.1 h
  exact ⟨hn, fun e he u hu => hd _ (List.mem_map.2 ⟨e, he, rfl⟩) _ (List.mem_map_of_mem hu)⟩

theorem Apart.cell_injective (hn : Apart bs) {s s' : Site} {t t' : Tensor}
    (ht : tensorAt bs s = some t) (ht' : tensorAt bs s' = some t') (hc : t.cell = t'.cell) :
    s = s' :=
  congrArg Prod.fst (List.inj_on_of_nodup_map hn.split.1 (entry_of_tensorAt ht)
    (entry_of_tensorAt ht') hc)

theorem Apart.cell_ne_scratch (hn : Apart bs) {s : Site} {t u : Tensor}
    (ht : tensorAt bs s = some t) (hu : u ∈ scratchOf bs) : t.cell ≠ u.cell :=
  hn.split.2 _ (entry_of_tensorAt ht) u hu

theorem Holds.write (hE : Holds bs E V) (hn : Apart bs) {s : Site} {t : Tensor}
    (ht : tensorAt bs s = some t) {y z : Buffer}
    (hz : Stores t.layout t.info.shape y z) :
    Holds bs (Function.update E t.cell z) (Function.update V s y) := by
  intro s' t' ht'
  by_cases hs : s' = s
  · subst hs
    rw [ht] at ht'
    cases ht'
    rwa [Function.update_self, Function.update_self]
  · have hc : t'.cell ≠ t.cell := fun hc => hs (hn.cell_injective ht' ht hc)
    rw [Function.update_of_ne hs, Function.update_of_ne hc]
    exact hE _ _ ht'

theorem Holds.scratch (hE : Holds bs E V) (hn : Apart bs) {u : Tensor} (hu : u ∈ scratchOf bs)
    (z : Buffer) : Holds bs (Function.update E u.cell z) V := by
  intro s t ht
  rw [Function.update_of_ne (hn.cell_ne_scratch ht hu)]
  exact hE _ _ ht

/-- The tensor of an operand has its shape and the layout of its backend. -/
theorem Table.stores (htable : Table os sites bs) {id : BackendId} {i : OperandId} {t : Tensor}
    (ht : tensorAt bs (id, i) = some t) {s : Shape} (hs : HasShape os i s) :
    t.layout = (placeOf id).layout ∧ t.info.shape = s := by
  obtain ⟨-, hplace, -, o, ho, hinfo⟩ := htable.tensorAt_known ht
  obtain ⟨o', ho', rfl⟩ := hs
  rw [ho] at ho'
  cases ho'
  exact ⟨by rw [Tensor.layout, hplace], by rw [hinfo]⟩

theorem Holds.storesAll (hE : Holds bs E V) (htable : Table os sites bs) {id : BackendId}
    {is : List OperandId} {ts : List Tensor} (hts : TensorsAt bs id is ts) {ss : List Shape}
    (hss : List.Forall₂ (HasShape os) is ss) :
    StoresAll (placeOf id).layout ss (is.map fun i => V (id, i)) ((ts.map Tensor.cell).map E) := by
  induction hts generalizing ss with
  | nil =>
    obtain rfl := List.forall₂_nil_left_iff.1 hss
    exact .nil
  | @cons i t is ts ht _ ih =>
    obtain ⟨s, ss, hs, hss', rfl⟩ := List.forall₂_cons_left_iff.1 hss
    obtain ⟨hl, hshape⟩ := htable.stores ht hs
    have hstores := hE _ _ ht
    rw [hl, hshape] at hstores
    exact .cons hstores (ih hss')

/-! ## Single steps -/

/-- A cell with words for a tensor of shape `s`. -/
structure HasWords (mem : Memory) (s : Shape) (c : CellId) : Prop where
  bound : c < mem.length
  whole : (mem.cell c).damaged = false
  size : (mem.contents c).size = s.elements

theorem Tensor.Ready.hasWords {t : Tensor} (h : t.Ready mem) : HasWords mem t.info.shape t.cell :=
  ⟨h.bound, h.whole, h.size⟩

/-- A kernel that gives something for all words of its input shapes. -/
def Always (l : Layout) (k : Kernel) (ss : List Shape) (out : Shape) : Prop :=
  ∀ {xs}, Sized ss xs → ∃ y, Gives l k ss out xs y

/-- Such a kernel computes the same whatever its output held. -/
theorem Always.computes {l : Layout} {k : Kernel} {ss : List Shape} {out : Shape}
    (h : Always l k ss out) {ys : List Buffer} (hys : Sized ss ys) :
    ∃ z : Buffer, z.size = out.elements ∧
      ∀ old : Buffer, old.size = out.elements → k.compute l ys old = some z := by
  obtain ⟨xs, hxs, hstores⟩ := hys.exists_storesAll (l := l)
  obtain ⟨y, hy⟩ := h hxs
  obtain ⟨z, hz, hcompute⟩ := hy _ hstores
  exact ⟨z, hz.size, hcompute⟩

theorem SizedAs.sized {ss : List Shape} {cs : List CellId} (hE : SizedAs mem E)
    (hcs : List.Forall₂ (HasWords mem) ss cs) : Sized ss (cs.map E) :=
  List.forall₂_map_right_iff.2 (hcs.imp fun _ c hc => (hE c).trans hc.size)

namespace Runnable

variable {l : Layout} {k : Kernel} {ss : List Shape} {out : Shape} {ins : List CellId} {o : CellId}

theorem effect_eq_update {r : Runnable} {w : Buffer} (h : r.result E = some w) :
    r.effect E = Function.update E r.output w := by
  rw [effect, h]
  rfl

theorem effect_host {label : String} {w : Buffer}
    (h : k.compute .nhwc (ins.map E) (E o) = some w) :
    effect E (host label k ins o) = Function.update E o w := effect_eq_update h

theorem effect_device {label : String} {w : Buffer}
    (h : k.compute .nchw (ins.map E) (E o) = some w) :
    effect E (device label k ins o) = Function.update E o w := effect_eq_update h

theorem result_of_always (hk : Always l k ss out) (hins : List.Forall₂ (HasWords mem) ss ins)
    (ho : HasWords mem out o) (hE : SizedAs mem E) :
    ∃ w, k.compute l (ins.map E) (E o) = some w ∧ w.size = (E o).size := by
  obtain ⟨z, hz, hcompute⟩ := hk.computes (hE.sized hins)
  have hold : (E o).size = out.elements := (hE o).trans ho.size
  exact ⟨z, hcompute _ hold, hz.trans hold.symm⟩

theorem host_total (label : String) (hk : Always .nhwc k ss out)
    (hins : List.Forall₂ (HasWords mem) ss ins) (ho : HasWords mem out o) :
    (host label k ins o).Total mem where
  bound := ho.bound
  result _ hE := result_of_always hk hins ho hE
  whole h := by cases h
  ready h := by cases h

theorem device_total (label : String) (hk : Always .nchw k ss out)
    (hins : List.Forall₂ (HasWords mem) ss ins) (ho : HasWords mem out o) :
    (device label k ins o).Total mem where
  bound := ho.bound
  result _ hE := result_of_always hk hins ho hE
  whole h := by
    cases h
    refine ⟨ho.whole, fun i hi => ?_⟩
    obtain ⟨s, -, hs⟩ := (mem_of_forall₂ hins).1 i hi
    exact hs.whole
  ready h := by cases h

theorem activation_total (label : String) (act : Activation) (ho : HasWords mem out o) :
    (device label (.activation act) [] o).Total mem where
  bound := ho.bound
  result E _ := ⟨_, activation_compute .nchw act [] (E o), Compute.size_activate act (E o)⟩
  whole h := by
    cases h
    exact ⟨ho.whole, by simp⟩
  ready h := by cases h

theorem mem_deviceSteps {label label' : String} {act : Activation} {r : Runnable}
    (h : r ∈ deviceSteps label label' k act ins o) :
    r = device label k ins o ∨ r = device label' (.activation act) [] o := by
  rw [deviceSteps, List.mem_cons] at h
  split at h
  · simpa using h
  · exact .inl (by simpa using h)

theorem deviceSteps_total (label label' : String) (act : Activation) (hk : Always .nchw k ss out)
    (hins : List.Forall₂ (HasWords mem) ss ins) (ho : HasWords mem out o) :
    ∀ r ∈ deviceSteps label label' k act ins o, r.Total mem := by
  intro r hr
  rcases mem_deviceSteps hr with rfl | rfl
  · exact device_total label hk hins ho
  · exact activation_total label' act ho

theorem permute_total (label : String) {source target : Tensor} (hs : source.Ready mem)
    (ht : target.Ready mem) (hshape : source.info.shape = target.info.shape) :
    (permute label source target).Total mem where
  bound := ht.bound
  result E hE := by
    have hsize : (E source.cell).size = Shape.elements source.info.shape :=
      (hE _).trans hs.size
    obtain ⟨x, hx⟩ := exists_stored (l := source.layout) hsize
    obtain ⟨y, hy⟩ := exists_stores (l := target.layout) (hshape ▸ hx.words)
    refine ⟨y, ?_, hy.size.trans ((hE _).trans ht.size).symm⟩
    rw [result, hx.back, Option.bind_some, hy.converted]
  whole h := by cases h
  ready h := by
    cases h
    exact ⟨hs, ht, hshape⟩

end Runnable

/-! ## The steps of an operation -/

/-- The tensors of the builders have their memory. -/
def AllReady (bs : List TensorBuilder) (mem : Memory) : Prop := ∀ t ∈ tensorsOf bs, t.Ready mem

/-- The steps do to memory what the operation does to logical words. -/
structure Realizes (os : Operands) (bs : List TensorBuilder) (mem : Memory)
    (q : Operation × Placement) (rs : List Runnable) : Prop where
  total : ∀ r ∈ rs, r.Total mem
  written : ∀ r ∈ rs, Written bs (writes q) r.output
  device : ∀ r ∈ rs, 0 < r.commands → ∃ b ∈ bs, b.place = .device
  holds : ∀ {E V}, SizedAs mem E → Fit os V → Holds bs E V →
    Holds bs (rs.foldl Runnable.effect E) (act os V q)

theorem AllReady.tensorAt (h : AllReady bs mem) {s : Site} {t : Tensor}
    (ht : tensorAt bs s = some t) : t.Ready mem :=
  h t (mem_tensorsOf_of_tensorAt ht)

theorem AllReady.scratch (h : AllReady bs mem) {u : Tensor} (hu : u ∈ scratchOf bs) :
    u.Ready mem :=
  h u (List.mem_append_right _ hu)

theorem AllReady.rewritten {W : CellId → Prop} {mem' : Memory} (h : AllReady bs mem)
    (hm : Memory.Rewritten W mem mem') : AllReady bs mem' :=
  fun t ht => (h t ht).rewritten hm

theorem AllReady.hasWords (h : AllReady bs mem) (hshaped : Shaped os bs) {id : BackendId}
    {i : OperandId} {t : Tensor} (ht : HeteroNet.tensorAt bs (id, i) = some t) {s : Shape}
    (hs : HasShape os i s) : HasWords mem s t.cell :=
  (hshaped _ _ ht).unique hs ▸ (h.tensorAt ht).hasWords

theorem AllReady.allHaveWords (h : AllReady bs mem) (hshaped : Shaped os bs) {id : BackendId}
    {is : List OperandId} {ts : List Tensor} (hts : TensorsAt bs id is ts) {ss : List Shape}
    (hss : List.Forall₂ (HasShape os) is ss) :
    List.Forall₂ (HasWords mem) ss (ts.map Tensor.cell) := by
  induction hts generalizing ss with
  | nil =>
    obtain rfl := List.forall₂_nil_left_iff.1 hss
    exact .nil
  | @cons i t is ts ht _ ih =>
    obtain ⟨s, ss, hs, hss', rfl⟩ := List.forall₂_cons_left_iff.1 hss
    exact .cons (h.hasWords hshaped ht hs) (ih hss')

section

variable {op : Operation} {p : Placement} {ss : List Shape} {o : OperandId} {out : Shape}
  {k k' : Kernel} {activation : Activation} {fl : Option Flatten}

/-- What an operation with a planned stage leaves in its output. -/
theorem Planned.act_eq (h : Planned os op ss o out k k' activation fl) (hk : op.kind ≠ .permute)
    (hV : Fit os V) : ∃ y, y.size = out.elements ∧
      Gives .nhwc k ss out (op.inputs.map fun i => V (p.backend, i)) (Compute.activate activation y) ∧
      DeviceGives k' fl ss out (op.inputs.map fun i => V (p.backend, i)) y ∧
      act os V (op, p) = Function.update V (p.backend, o) (Compute.activate activation y) := by
  have hsized := hV.sized h.shapes p.backend
  obtain ⟨y, hy, hhost, hdevice⟩ := h.gives hsized
  refine ⟨y, hy, hhost, hdevice, ?_⟩
  obtain ⟨y', hy', -, hact⟩ := h.works.act_eq (p := p) hV
  have hreads : (reads (op, p)).map V = op.inputs.map fun i => V (p.backend, i) := by
    rw [reads, List.map_map, source_of_kind hk]
    rfl
  rw [hreads, hhost.compute hsized (Buffer.size_zeros _), Option.some.injEq] at hy'
  rw [hact, target_of_kind hk, hy']

theorem Planned.writes_eq (h : Planned os op ss o out k k' activation fl)
    (hk : op.kind ≠ .permute) : writes (op, p) = [(p.backend, o)] := by
  rw [h.works.writes_eq, target_of_kind hk]

/-- The kernels of a planned operation give something for all words of its inputs. -/
theorem Planned.always (h : Planned os op ss o out k k' activation fl) : Always .nhwc k ss out :=
  fun {_} hxs => by
    obtain ⟨y, -, hy, -⟩ := h.gives hxs
    exact ⟨_, hy⟩

theorem Planned.always_device (h : Planned os op ss o out k k' activation none) :
    Always .nchw k' ss out :=
  fun {_} hxs => by
    obtain ⟨y, -, -, hy⟩ := h.gives hxs
    exact ⟨y, hy⟩

/-- The input that is flattened, and the others. -/
theorem Planned.exists_first {f : Flatten} {id : BackendId} {first : Tensor} {rest : List Tensor}
    (h : Planned os op ss o out k k' activation (some f))
    (hts : TensorsAt bs id op.inputs (first :: rest)) : ∃ i is s ss', op.inputs = i :: is ∧
      ss = s :: ss' ∧ tensorAt bs (id, i) = some first ∧ TensorsAt bs id is rest ∧
      HasShape os i s ∧ List.Forall₂ (HasShape os) is ss' := by
  obtain ⟨i, is, hfirst, hrest, hinputs⟩ := List.forall₂_cons_right_iff.1 hts
  have hshapes := h.shapes
  rw [hinputs] at hshapes
  obtain ⟨s, ss', hs, hss, rfl⟩ := List.forall₂_cons_left_iff.1 hshapes
  exact ⟨i, is, s, ss', hinputs, rfl, hfirst, hrest, hs, hss⟩

/-- A flattened input has the elements of the input. -/
theorem Planned.flatten_gives {f : Flatten} {s : Shape}
    (h : Planned os op (s :: ss) o out k k' activation (some f)) :
    s.elements = f.scratch.shape.elements ∧
      Always .nchw f.kernel [s] f.scratch.shape ∧ Always .nchw k' (f.scratch.shape :: ss) out := by
  have hzeros : Sized ss (ss.map fun s => Buffer.zeros s.elements) := by
    rw [Sized, List.forall₂_map_right_iff, List.forall₂_same]
    exact fun s _ => Buffer.size_zeros _
  have hfirst : ∀ {x : Buffer}, x.size = s.elements →
      Gives .nchw f.kernel [s] f.scratch.shape [x] x := by
    intro x hx
    obtain ⟨-, -, -, hf, -⟩ := h.gives (.cons hx hzeros)
    exact hf
  have helements : s.elements = f.scratch.shape.elements := by
    obtain ⟨y, hy⟩ := exists_stores (l := .nchw) (s := s) (Buffer.size_zeros s.elements)
    obtain ⟨z, hz, -⟩ := hfirst (Buffer.size_zeros s.elements) [y] (.cons hy .nil)
    exact (Buffer.size_zeros s.elements).symm.trans hz.words
  refine ⟨helements, fun {xs} hxs => ?_, fun {xs} hxs => ?_⟩
  · obtain ⟨x, rfl, hx⟩ := sized_one hxs
    exact ⟨x, hfirst hx⟩
  · obtain ⟨x, xs, hx, hxs', rfl⟩ := List.forall₂_cons_left_iff.1 hxs
    obtain ⟨y, -, -, -, hy⟩ := h.gives (.cons (hx.trans helements.symm) hxs')
    exact ⟨y, hy⟩

end

/-- **The steps of an operation have a result on any words**, once its tensors have memory. -/
theorem Bound.total (h : Bound os bs q rs) (hshaped : Shaped os bs) (hready : AllReady bs mem) :
    ∀ r ∈ rs, r.Total mem := by
  cases h with
  | host label hp hk hplace hts ht =>
    intro r hr
    rw [List.mem_singleton] at hr
    subst hr
    exact Runnable.host_total label hp.always (hready.allHaveWords hshaped hts hp.shapes)
      (hready.hasWords hshaped ht hp.shape)
  | @device op p ss o out k k' act ts t label label' hp hk hplace hts ht =>
    exact Runnable.deviceSteps_total label label' act hp.always_device
      (hready.allHaveWords hshaped hts hp.shapes) (hready.hasWords hshaped ht hp.shape)
  | @flattened op p ss o out k k' act f first rest t u label₀ label label' hp hk hplace hts ht hu
      hup hui =>
    obtain ⟨i, is, s, ss', -, rfl, hfirst, hrest, hs, hss⟩ := hp.exists_first hts
    obtain ⟨-, hkf, hk'⟩ := hp.flatten_gives
    have huw : HasWords mem f.scratch.shape u.cell := hui ▸ (hready.scratch hu).hasWords
    intro r hr
    rcases List.mem_cons.1 hr with rfl | hr
    · exact Runnable.device_total label₀ hkf (.cons (hready.hasWords hshaped hfirst hs) .nil) huw
    · exact Runnable.deviceSteps_total label label' act hk'
        (.cons huw (hready.allHaveWords hshaped hrest hss)) (hready.hasWords hshaped ht hp.shape) r hr
  | permute label ha hx ho hxs hos hsource htarget =>
    intro r hr
    rw [List.mem_singleton] at hr
    subst hr
    have hshape := (hshaped _ _ hsource).unique hxs
    have hshape' := (hshaped _ _ htarget).unique hos
    exact Runnable.permute_total label (hready.tensorAt hsource) (hready.tensorAt htarget)
      (hshape.trans hshape'.symm)

theorem written_single {s : Site} {t : Tensor} (ht : tensorAt bs s = some t)
    (hwrites : writes q = [s]) : Written bs (writes q) t.cell :=
  .inl ⟨s, by rw [hwrites]; exact List.mem_singleton_self s, t, ht, rfl⟩

/-- The steps of an operation write its output and scratch tensors. -/
theorem Bound.written (h : Bound os bs q rs) : ∀ r ∈ rs, Written bs (writes q) r.output := by
  intro r hr
  cases h with
  | host label hp hk _ _ ht =>
    rw [List.mem_singleton.1 hr]
    exact written_single ht (hp.writes_eq hk)
  | device label label' hp hk _ _ ht =>
    rcases Runnable.mem_deviceSteps hr with rfl | rfl <;>
      exact written_single ht (hp.writes_eq hk)
  | flattened label₀ label label' hp hk _ _ ht hu _ _ =>
    rcases List.mem_cons.1 hr with rfl | hr
    · exact .inr ⟨_, hu, rfl⟩
    · rcases Runnable.mem_deviceSteps hr with rfl | rfl <;>
        exact written_single ht (hp.writes_eq hk)
  | permute label ha hx ho hxs hos _ htarget =>
    rw [List.mem_singleton.1 hr]
    refine written_single htarget ?_
    rw [(works_of_permute ha hx ho hxs hos).writes_eq, Operation.target, ha]

section

variable {op : Operation} {p : Placement} {ss : List Shape} {o : OperandId} {out : Shape}
  {k k' : Kernel} {activation : Activation} {fl : Option Flatten}

theorem realizes_host (htable : Table os sites bs) (hn : Apart bs) (hready : AllReady bs mem)
    {ts : List Tensor} {t : Tensor} (label : String)
    (hp : Planned os op ss o out k k' activation fl) (hk : op.kind ≠ .permute)
    (hplace : placeOf p.backend = .host) (hts : TensorsAt bs p.backend op.inputs ts)
    (ht : tensorAt bs (p.backend, o) = some t) :
    Realizes os bs mem (op, p) [.host label k (ts.map Tensor.cell) t.cell] where
  total := (Bound.host label hp hk hplace hts ht).total htable.shaped hready
  written := (Bound.host label hp hk hplace hts ht).written
  device r hr hc := by
    rw [List.mem_singleton] at hr
    subst hr
    cases hc
  holds {E V} _ hV hE := by
    obtain ⟨y, hy, hhost, -, hact⟩ := hp.act_eq (p := p) hk hV
    obtain ⟨hl, hshape⟩ := htable.stores ht hp.shape
    have hstores := hE.storesAll htable hts hp.shapes
    rw [hplace] at hstores hl
    obtain ⟨z, hz, hcompute⟩ := hhost _ hstores
    have hold : (E t.cell).size = out.elements := hshape ▸ (hE _ _ ht).size
    rw [hact, List.foldl_cons, List.foldl_nil, Runnable.effect_host (hcompute _ hold)]
    refine hE.write hn ht ?_
    rw [hl, hshape]
    exact hz

/-- The kernel of a device stage, and its activation, leave the words of the output. -/
theorem Holds.deviceSteps (hE : Holds bs E V) (htable : Table os sites bs) (hn : Apart bs)
    {id : BackendId} {t : Tensor} (ht : tensorAt bs (id, o) = some t)
    (hplace : placeOf id = .device) (hshape : HasShape os o out) {xs : List Buffer} {y : Buffer}
    (hgives : Gives .nchw k' ss out xs y) {ins : List CellId}
    (hins : StoresAll .nchw ss xs (ins.map E)) (label label' : String) :
    Holds bs ((HeteroNet.deviceSteps label label' k' activation ins t.cell).foldl
      Runnable.effect E) (Function.update V (id, o) (Compute.activate activation y)) := by
  obtain ⟨hl, hs⟩ := htable.stores ht hshape
  rw [hplace] at hl
  obtain ⟨z, hz, hcompute⟩ := hgives _ hins
  have hold : (E t.cell).size = out.elements := hs ▸ (hE _ _ ht).size
  have hfirst : Holds bs (Function.update E t.cell z) (Function.update V (id, o) y) := by
    refine hE.write hn ht ?_
    rw [hl, hs]
    exact hz
  rw [HeteroNet.deviceSteps, List.foldl_cons, Runnable.effect_device (hcompute _ hold)]
  split
  · have hact : Runnable.effect (Function.update E t.cell z)
        (.device label' (.activation activation) [] t.cell)
        = Function.update (Function.update E t.cell z) t.cell (Compute.activate activation z) := by
      refine Runnable.effect_device ?_
      rw [activation_compute, Function.update_self]
    rw [List.foldl_cons, List.foldl_nil, hact, Function.update_idem]
    have hsecond := hfirst.write hn ht (y := Compute.activate activation y)
      (z := Compute.activate activation z) (by rw [hl, hs]; exact hz.map _)
    rwa [Function.update_idem, Function.update_idem] at hsecond
  · rename_i hnone
    rw [List.foldl_nil, not_not.1 hnone, Compute.activate_none]
    exact hfirst

theorem realizes_device (htable : Table os sites bs) (hn : Apart bs) (hready : AllReady bs mem)
    {ts : List Tensor} {t : Tensor} (label label' : String)
    (hp : Planned os op ss o out k k' activation none) (hk : op.kind ≠ .permute)
    (hplace : placeOf p.backend = .device) (hts : TensorsAt bs p.backend op.inputs ts)
    (ht : tensorAt bs (p.backend, o) = some t) :
    Realizes os bs mem (op, p)
      (deviceSteps label label' k' activation (ts.map Tensor.cell) t.cell) where
  total := (Bound.device label label' hp hk hplace hts ht).total htable.shaped hready
  written := (Bound.device label label' hp hk hplace hts ht).written
  device r hr _ := by
    obtain ⟨-, -, ⟨b, hb, hbp⟩, -⟩ := htable.tensorAt_known ht
    exact ⟨b, hb, hbp.trans hplace⟩
  holds {E V} _ hV hE := by
    obtain ⟨y, -, -, hdevice, hact⟩ := hp.act_eq (p := p) hk hV
    have hstores := hE.storesAll htable hts hp.shapes
    rw [hplace] at hstores
    rw [hact]
    exact hE.deviceSteps htable hn ht hplace hp.shape hdevice hstores label label'

theorem realizes_flattened (htable : Table os sites bs) (hn : Apart bs) (hready : AllReady bs mem)
    {f : Flatten} {first : Tensor} {rest : List Tensor} {t u : Tensor} (label₀ label label' : String)
    (hp : Planned os op ss o out k k' activation (some f)) (hk : op.kind ≠ .permute)
    (hplace : placeOf p.backend = .device)
    (hts : TensorsAt bs p.backend op.inputs (first :: rest))
    (ht : tensorAt bs (p.backend, o) = some t) (hu : u ∈ scratchOf bs) (hup : u.place = .device)
    (hui : u.info = f.scratch) :
    Realizes os bs mem (op, p) (.device label₀ f.kernel [first.cell] u.cell ::
      deviceSteps label label' k' activation (u.cell :: rest.map Tensor.cell) t.cell) := by
  obtain ⟨i, is, s, ss', hinputs, rfl, hfirst, hrest, hs, hss⟩ := hp.exists_first hts
  have hb := Bound.flattened label₀ label label' hp hk hplace hts ht hu hup hui
  refine ⟨hb.total htable.shaped hready, hb.written, fun r hr _ => ?_, fun {E V} hsized hV hE => ?_⟩
  · obtain ⟨-, -, ⟨b, hb, hbp⟩, -⟩ := htable.tensorAt_known ht
    exact ⟨b, hb, hbp.trans hplace⟩
  · obtain ⟨y, -, -, hdevice, hact⟩ := hp.act_eq (p := p) hk hV
    rw [hinputs, List.map_cons] at hdevice
    obtain ⟨hflat, hkernel⟩ := hdevice
    have hstores := hE.storesAll htable (List.Forall₂.cons hfirst .nil) (.cons hs .nil)
    rw [hplace] at hstores
    obtain ⟨z, hz, hcompute⟩ := hflat _ hstores
    have hold : (E u.cell).size = f.scratch.shape.elements :=
      (hsized _).trans (hui ▸ (hready.scratch hu).size)
    have hflattened : f.kernel.compute .nchw ([first.cell].map E) (E u.cell) = some z :=
      hcompute _ hold
    rw [List.foldl_cons, Runnable.effect_device hflattened, hact]
    have hE' := hE.scratch hn hu z
    have hothers := hE'.storesAll htable hrest hss
    rw [hplace] at hothers
    have hfirst' : Stores .nchw f.scratch.shape (V (p.backend, i))
        (Function.update E u.cell z u.cell) := by
      rw [Function.update_self]
      exact hz
    have hins : StoresAll .nchw _ _
        ((u.cell :: rest.map Tensor.cell).map (Function.update E u.cell z)) :=
      .cons hfirst' hothers
    exact hE'.deviceSteps htable hn ht hplace hp.shape hkernel hins label label'

theorem realizes_permute (htable : Table os sites bs) (hn : Apart bs) (hready : AllReady bs mem)
    {a b : BackendId} {x : OperandId} {s : Shape} {source target : Tensor} (label : String)
    (ha : op.attributes = .permute a b) (hx : op.inputs = [x]) (ho : op.outputs = [o])
    (hxs : HasShape os x s) (hos : HasShape os o s) (hsource : tensorAt bs (a, x) = some source)
    (htarget : tensorAt bs (b, o) = some target) :
    Realizes os bs mem (op, p) [.permute label source target] := by
  have hworks := works_of_permute ha hx ho hxs hos
  have hwrites : op.target p = b := by rw [Operation.target, ha]
  have hreads : reads (op, p) = [(a, x)] := by
    rw [reads, hx, Operation.source, ha]
    rfl
  obtain ⟨-, hshape⟩ := htable.stores hsource hxs
  obtain ⟨-, hshape'⟩ := htable.stores htarget hos
  have hb := Bound.permute (p := p) label ha hx ho hxs hos hsource htarget
  refine ⟨hb.total htable.shaped hready, hb.written, fun r hr hc => ?_, fun {E V} _ hV hE => ?_⟩
  · rw [List.mem_singleton] at hr
    subst hr
    obtain ⟨-, hplace, ⟨b', hb', hbp⟩, -⟩ := htable.tensorAt_known htarget
    refine ⟨b', hb', hbp.trans (hplace.symm.trans ?_)⟩
    by_contra hhost
    simp [Runnable.commands, Tensor.commands, hhost] at hc
  · obtain ⟨y, hy, hsize, hact⟩ := hworks.act_eq (p := p) hV
    rw [hreads, List.map_singleton, copy_compute ((hV a hxs).trans (Buffer.size_zeros _).symm),
      Option.some.injEq] at hy
    subst hy
    obtain ⟨z, hz⟩ := exists_stores (l := target.layout) (s := target.info.shape)
      (hshape' ▸ hsize)
    have hresult : Runnable.result (.permute label source target) E = some z := by
      rw [Runnable.result, (hE _ _ hsource).back, Option.bind_some, hz.converted]
    rw [hact, hwrites, List.foldl_cons, List.foldl_nil, Runnable.effect_eq_update hresult]
    exact hE.write hn htarget hz

end

/-- **The steps of an operation do to memory what the operation does to logical words.** -/
theorem Bound.realizes (h : Bound os bs q rs) (htable : Table os sites bs) (hn : Apart bs)
    (hready : AllReady bs mem) : Realizes os bs mem q rs := by
  cases h with
  | host label hp hk hplace hts ht =>
    exact realizes_host htable hn hready label hp hk hplace hts ht
  | device label label' hp hk hplace hts ht =>
    exact realizes_device htable hn hready label label' hp hk hplace hts ht
  | flattened label₀ label label' hp hk hplace hts ht hu hup hui =>
    exact realizes_flattened htable hn hready label₀ label label' hp hk hplace hts ht hu hup hui
  | permute label ha hx ho hxs hos hsource htarget =>
    exact realizes_permute htable hn hready label ha hx ho hxs hos hsource htarget

end HeteroNet
