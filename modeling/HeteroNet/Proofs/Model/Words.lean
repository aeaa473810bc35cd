import HeteroNet.Proofs.Model.Built
import HeteroNet.Proofs.Model.Ordered
import HeteroNet.Proofs.Plan.Stages
import Mathlib.Logic.Function.Basic

/-
The run of a lowered model, in logical words. Every backend has words for every operand, and an
operation replaces those of its output, on the backend where it writes, by what its kernel gives
for those of its inputs, on the backend where it reads. Layouts, cells and commands play no part.

Since operations run in order, what the run leaves depends only on the words that no operation
writes (`run_agrees`): nothing that an earlier run left can be seen in a later one.
-/

namespace HeteroNet

/-- Where a tensor stands: the backend that has it, and its operand. -/
abbrev Site := BackendId × OperandId

/-- The logical words of every tensor. -/
abbrev Words := Site → Buffer

namespace Operation

/-- The backend on which an operation reads. -/
def source (op : Operation) (p : Placement) : BackendId :=
  match op.attributes with
  | .permute source _ => source
  | _ => p.backend

/-- The backend on which an operation writes. -/
def target (op : Operation) (p : Placement) : BackendId :=
  match op.attributes with
  | .permute _ target => target
  | _ => p.backend

def reads (q : Operation × Placement) : List Site := q.1.inputs.map fun i => (q.1.source q.2, i)

def writes (q : Operation × Placement) : List Site := q.1.outputs.map fun i => (q.1.target q.2, i)

theorem tensorsOf_eq (op : Operation) (p : Placement) :
    Model.tensorsOf op p = reads (op, p) ++ writes (op, p) := by
  unfold Model.tensorsOf reads writes source target
  split <;> simp_all

theorem source_of_kind {op : Operation} (h : op.kind ≠ .permute) (p : Placement) :
    op.source p = p.backend := by
  unfold source
  split
  · rename_i ha
    exact absurd (by rw [kind, ha]; rfl) h
  · rfl

theorem target_of_kind {op : Operation} (h : op.kind ≠ .permute) (p : Placement) :
    op.target p = p.backend := by
  unfold target
  split
  · rename_i ha
    exact absurd (by rw [kind, ha]; rfl) h
  · rfl

/-- What the operation gives for logical words of its inputs. -/
def apply (op : Operation) (os : Operands) (xs : List Buffer) : Option Buffer := do
  let k ← (op.kernel os).toOption
  let o ← os[op.outputs.headD 0]?
  k.compute .nhwc xs (Buffer.zeros o.shape.elements)

/-- The words after an operation ran. -/
def act (os : Operands) (V : Words) (q : Operation × Placement) : Words :=
  Function.update V (q.1.target q.2, q.1.outputs.headD 0)
    ((q.1.apply os ((reads q).map V)).getD #[])

/-- The operation has a kernel, which has a result on words of the right sizes. -/
structure Works (os : Operands) (op : Operation) (ss : List Shape) (o : OperandId) (out : Shape)
    (k : Kernel) : Prop where
  outputs : op.outputs = [o]
  shapes : List.Forall₂ (HasShape os) op.inputs ss
  shape : HasShape os o out
  kernel : op.kernel os = .ok k
  result : ∀ {xs}, Sized ss xs →
    ∃ y, k.compute .nhwc xs (Buffer.zeros out.elements) = some y ∧ y.size = out.elements

end Operation

open Operation

/-- Each tensor has as many words as its operand has elements. -/
def Fit (os : Operands) (V : Words) : Prop :=
  ∀ b {i s}, HasShape os i s → (V (b, i)).size = s.elements

theorem Fit.sized {os : Operands} {V : Words} (h : Fit os V) {is : List OperandId}
    {ss : List Shape} (hs : List.Forall₂ (HasShape os) is ss) (b : BackendId) :
    Sized ss (is.map fun i => V (b, i)) := by
  induction hs with
  | nil => exact .nil
  | cons hi _ ih => exact .cons (h b hi) ih

theorem Planned.works {os : Operands} {op : Operation} {ss : List Shape} {o : OperandId}
    {out : Shape} {k deviceKernel : Kernel} {act : Activation} {flatten : Option Flatten}
    (h : Planned os op ss o out k deviceKernel act flatten) : op.Works os ss o out k where
  outputs := h.outputs
  shapes := h.shapes
  shape := h.shape
  kernel := h.kernel
  result := by
    intro xs hxs
    obtain ⟨y, hy, hgives, -⟩ := h.gives hxs
    exact ⟨_, hgives.compute hxs (Buffer.size_zeros _), (Compute.size_activate act y).trans hy⟩

/-- A copy gives the words it is given. -/
theorem copy_compute {x old : Buffer} (h : x.size = old.size) :
    Kernel.copy.compute .nhwc [x] old = some x := by
  change old.replace x = _
  rw [Buffer.replace, if_pos h]

theorem works_of_permute {os : Operands} {op : Operation} {a b : BackendId} {x o : OperandId}
    {s : Shape} (ha : op.attributes = .permute a b) (hx : op.inputs = [x]) (ho : op.outputs = [o])
    (hxs : HasShape os x s) (hos : HasShape os o s) : op.Works os [s] o s .copy where
  outputs := ho
  shapes := by
    rw [hx]
    exact .cons hxs .nil
  shape := hos
  kernel := by
    rw [Operation.kernel, ha]
    rfl
  result := by
    intro xs hsized
    obtain ⟨x, rfl, hsize⟩ := sized_one hsized
    exact ⟨x, copy_compute (hsize.trans (Buffer.size_zeros _).symm), hsize⟩

namespace Operation.Works

variable {os : Operands} {op : Operation} {ss : List Shape} {o : OperandId} {out : Shape}
  {k : Kernel} {p : Placement} {V : Words}

theorem writes_eq (h : op.Works os ss o out k) : writes (op, p) = [(op.target p, o)] := by
  rw [writes, h.outputs]
  rfl

theorem apply_eq (h : op.Works os ss o out k) (xs : List Buffer) :
    op.apply os xs = k.compute .nhwc xs (Buffer.zeros out.elements) := by
  obtain ⟨operand, hoperand, rfl⟩ := h.shape
  simp [apply, h.kernel, h.outputs, hoperand, Except.toOption]

theorem act_eq (h : op.Works os ss o out k) (hV : Fit os V) :
    ∃ y, k.compute .nhwc ((reads (op, p)).map V) (Buffer.zeros out.elements) = some y ∧
      y.size = out.elements ∧ act os V (op, p) = Function.update V (op.target p, o) y := by
  have hsized : Sized ss ((reads (op, p)).map V) := by
    rw [reads, List.map_map]
    exact hV.sized h.shapes _
  obtain ⟨y, hy, hsize⟩ := h.result hsized
  refine ⟨y, hy, hsize, ?_⟩
  rw [act, h.apply_eq, hy, h.outputs]
  rfl

theorem act_fit (h : op.Works os ss o out k) (hV : Fit os V) : Fit os (act os V (op, p)) := by
  obtain ⟨y, -, hsize, hact⟩ := h.act_eq (p := p) hV
  rw [hact]
  intro b i s hs
  by_cases hi : (b, i) = (op.target p, o)
  · cases hi
    rw [Function.update_self, hsize, hs.unique h.shape]
  · rw [Function.update_of_ne hi, hV b hs]

end Operation.Works

/-! ## Runs -/

namespace Model

variable {os : Operands}

/-- An operation that reads before the others write takes the same words for its inputs. -/
theorem reads_congr {q : Operation × Placement} {post : List (Operation × Placement)} {V V' : Words}
    (hq : ∀ i ∈ q.1.inputs, ∀ r ∈ q :: post, i ∉ r.1.outputs)
    (hV : ∀ s, s ∉ (q :: post).flatMap writes → V s = V' s) :
    (reads q).map V = (reads q).map V' := by
  refine List.map_congr_left fun s hs => hV s fun hw => ?_
  obtain ⟨i, hi, rfl⟩ := List.mem_map.1 hs
  obtain ⟨r, hr, hw⟩ := List.mem_flatMap.1 hw
  obtain ⟨j, hj, he⟩ := List.mem_map.1 hw
  obtain rfl : j = i := congrArg Prod.snd he
  exact hq j hi r hr hj

/-- **What a run leaves depends only on the words that no operation writes.** -/
theorem run_agrees : ∀ {ops : List (Operation × Placement)} {V V' : Words}, Ordered ops →
    (∀ q ∈ ops, ∃ o, q.1.outputs = [o]) →
    (∀ s, s ∉ ops.flatMap writes → V s = V' s) → ops.foldl (act os) V = ops.foldl (act os) V'
  | [], V, V', _, _, h => funext fun s => h s (by simp)
  | q :: post, V, V', ⟨hq, hpost⟩, hout, h => by
    rw [List.foldl_cons, List.foldl_cons]
    refine run_agrees hpost (fun r hr => hout r (List.mem_cons_of_mem _ hr)) fun s hs => ?_
    obtain ⟨o, ho⟩ := hout q (by simp)
    rw [act, act, reads_congr hq h]
    by_cases hsite : s = (q.1.target q.2, q.1.outputs.headD 0)
    · rw [hsite, Function.update_self, Function.update_self]
    · rw [Function.update_of_ne hsite, Function.update_of_ne hsite]
      refine h s fun hw => ?_
      rcases List.mem_append.1 hw with hw | hw
      · refine hsite ?_
        rw [writes, ho] at hw
        rw [ho]
        exact List.mem_singleton.1 hw
      · exact hs hw

theorem run_fit : ∀ {ops : List (Operation × Placement)} {V : Words},
    (∀ q ∈ ops, ∃ ss o out k, q.1.Works os ss o out k) → Fit os V → Fit os (ops.foldl (act os) V)
  | [], _, _, hV => hV
  | q :: ops, V, hworks, hV => by
    obtain ⟨ss, o, out, k, hq⟩ := hworks q (by simp)
    rw [List.foldl_cons]
    exact run_fit (fun r hr => hworks r (List.mem_cons_of_mem _ hr)) (hq.act_fit hV)

/-! ## What a run starts with -/

/-- What a new plan has in the tensors of an operand: the constant, or zeros. -/
def initial (os : Operands) : Words := fun s =>
  match os[s.2]? with
  | some o =>
    match o.data with
    | some data => (o.element.decode data).toArray
    | none => Buffer.zeros o.shape.elements
  | none => #[]

theorem length_wordsOfBytes : ∀ bytes : Bytes,
    (ElementType.wordsOfBytes bytes).length = bytes.length / 4
  | a :: b :: c :: d :: rest => by
    rw [ElementType.wordsOfBytes, List.length_cons, length_wordsOfBytes rest]
    simp only [List.length_cons]
    omega
  | [] | [_] | [_, _] | [_, _, _] => by simp [ElementType.wordsOfBytes]

theorem length_decode_eq (e : ElementType) (bytes : Bytes) :
    (e.decode bytes).length = bytes.length / e.size := by
  cases e with
  | quant8 => simp only [ElementType.decode, List.length_map, ElementType.size, Nat.div_one]
  | scalarFloat32 | scalarInt32 | scalarUInt32 | float32 | int32 => exact length_wordsOfBytes bytes

theorem length_decode {e : ElementType} {bytes : Bytes} {n : Nat} (h : bytes.length = n * e.size) :
    (e.decode bytes).length = n := by
  rw [length_decode_eq, h, Nat.mul_div_cancel _ e.size_pos]

theorem initial_fit {os : Operands} (h : ConstantsSized os) : Fit os (initial os) := by
  rintro b i s ⟨o, ho, rfl⟩
  simp only [initial, ho]
  cases hd : o.data with
  | none => exact Buffer.size_zeros _
  | some data =>
    have hlen : data.length = o.shape.elements * o.element.size := h ho hd
    simpa using length_decode hlen

/-- The words after the inputs are written, to all tensors of each. -/
def push (given : OperandId → Option Buffer) (V : Words) : Words := fun s => (given s.2).getD (V s)

/-- As many words are given for an operand as it has elements. -/
def GivenSized (os : Operands) (given : OperandId → Option Buffer) : Prop :=
  ∀ {i ws s}, given i = some ws → HasShape os i s → ws.size = s.elements

theorem push_fit {os : Operands} {given : OperandId → Option Buffer} {V : Words}
    (hg : GivenSized os given) (hV : Fit os V) : Fit os (push given V) := by
  intro b i s hs
  rw [push]
  cases hi : given i with
  | none => exact hV b hs
  | some ws => exact hg hi hs

end Model

end HeteroNet
