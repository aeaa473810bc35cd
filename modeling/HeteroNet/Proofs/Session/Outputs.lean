import HeteroNet.Proofs.Session.Run

/-
What a run writes to the outputs, in the terms of the caller's model: the inputs have the words that
the caller's buffers give (`Model.given`), and each output buffer starts with the bytes of the words
that the run left, behind which it is as before (`Session.Ran.output`).
-/

namespace HeteroNet

open Operation Model

/-! ## The caller's model -/

namespace Model

variable {m₀ m s m' : Model} {ps : List Placement} {copies : Copies}

theorem Lowering.inputs (h : Lowering m₀ m ps copies s m') : m'.inputs = m₀.inputs :=
  h.lowered.inputs.trans (h.split.same.1.trans h.finished.inputs)

theorem Lowering.outputs (h : Lowering m₀ m ps copies s m') : m'.outputs = m₀.outputs :=
  h.lowered.outputs.trans (h.split.same.2.1.trans h.finished.outputs)

theorem Lowering.input_lt (h : Lowering m₀ m ps copies s m') {i : OperandId}
    (hi : i ∈ m₀.inputs) : i < m₀.operands.length := by
  rw [← h.finished.inputs] at hi
  exact h.length_eq ▸ h.checked.given (List.mem_append_left _ hi)

theorem Lowering.words_eq (h : Lowering m₀ m ps copies s m') {i : OperandId}
    (hi : i < m₀.operands.length) (bytes : Bytes) : m'.words i bytes = m₀.words i bytes := by
  have ho := List.getElem?_eq_getElem hi
  obtain ⟨o', ho', hshape, htype, -⟩ := h.operand ho
  rw [words, words, ho, ho', Option.map_some, Option.map_some, hshape, Operand.element, htype,
    ← Operand.element]

/-- Buffers give the same words for the lowered model as for the caller's. -/
theorem Lowering.given_eq (h : Lowering m₀ m ps copies s m') (buffers : List Bytes) :
    m'.given buffers = m₀.given buffers := by
  have hrec : ∀ {bound : List (OperandId × Bytes)}, (∀ e ∈ bound, e.1 < m₀.operands.length) →
      m'.givenBy bound = m₀.givenBy bound := by
    intro bound
    induction bound with
    | nil => exact fun _ => rfl
    | cons e bound ih =>
      intro hb
      obtain ⟨j, bytes⟩ := e
      funext i
      rw [givenBy, givenBy, ih fun e he => hb e (List.mem_cons_of_mem _ he)]
      split
      · rename_i hji
        rw [h.words_eq (hji ▸ hb (j, bytes) (by simp))]
      · rfl
  rw [given, given, h.inputs]
  exact hrec fun e he => h.input_lt (List.of_mem_zip (a := e.1) (b := e.2) he).1

end Model

/-! ## The words of a run -/

variable {m₀ : Model} {policy : Policy} {p : Plan} {ops : List (Operation × Placement)}
  {s s' : Session} {m m' : Machine} {slot : SlotId} {i : OperandId} {o : Operand}

theorem Plan.Compiled.final_fit {given : OperandId → Option Buffer} (h : p.Compiled m₀ policy ops)
    (hg : GivenSized p.model.operands given) :
    Fit p.model.operands (p.model.final ops given) :=
  run_fit h.made.runs.works (push_fit hg (initial_fit h.constants))

namespace Session

/-- The words of the inputs of a bound session. -/
theorem Wired.given (hw : s.Wired p) (hb : s.requireBound = .ok ()) :
    GivenSized p.model.operands (p.model.given s.inputs) ∧
      ∀ i, (p.model.given s.inputs i).isSome ↔ i ∈ p.model.inputs := by
  obtain ⟨cs, hcs⟩ := exists_bindings (requireBound_ok.1 hb).1
  have hbindings := slots_bindings (hcs ▸ hw.sources)
  rw [Model.given, inputs_bindings hcs]
  exact ⟨givenOf_sized hbindings, fun i => givenOf_isSome hbindings⟩

theorem output_eq_ok {bytes : Bytes} :
    s.output slot = .ok bytes ↔ ∃ b, s.sinks[slot]? = some (some b) ∧ b.buffer = bytes := by
  unfold output
  split <;> simp_all

/-- Overwriting a buffer with the words of its operand. -/
theorem buffer_overwrite {os : Operands} {b : Binding} (hb : b.Of os i) (ho : os[i]? = some o)
    {ws : Buffer} (hws : ws.size = o.shape.elements) :
    (b.overwrite ws).buffer = o.element.encode ws.toList ++ b.buffer.drop o.byteSize := by
  obtain ⟨-, o', ho', he, hs, -⟩ := hb
  rw [ho] at ho'
  cases ho'
  have htake : ws.toList.take b.shape.elements = ws.toList := by
    rw [hs, ← hws, ← Array.length_toList]
    exact List.take_length
  rw [Binding.overwrite, htake, he]
  dsimp only
  rw [ElementType.length_encode, Array.length_toList, hws, Operand.byteSize]

/-- The binding of an output after a run: what the run left in the first tensor of the operand stands
at the start of its buffer, and what lies behind is as before. -/
theorem Ran.sink (h : Ran p ops s m s' m') (hc : p.Compiled m₀ policy ops) (hw : s.Wired p)
    (hslot : m₀.outputs[slot]? = some i) (ho : m₀.operands[i]? = some o) :
    ∃ id b ws, FirstSite (sites ops) i id ∧
      ws = p.model.final ops (m₀.given s.inputs) (id, i) ∧ ws.size = o.shape.elements ∧
      s.sinks[slot]? = some (some b) ∧ s'.sinks[slot]? = some (some (b.overwrite ws)) ∧
      o.byteSize ≤ b.buffer.length ∧
      (b.overwrite ws).buffer = o.element.encode ws.toList ++ b.buffer.drop o.byteSize := by
  obtain ⟨m, ps, copies, sm, hlowering⟩ := hc.compiles.lowering hc.built
  rw [← hlowering.outputs] at hslot
  obtain ⟨o', ho', hshape, htype, -⟩ := hlowering.operand ho
  obtain ⟨b, hb, hof⟩ : ∃ b, s.sinks[slot]? = some (some b) ∧ b.Of p.model.operands i := by
    obtain ⟨cs, hcs⟩ := exists_bindings (requireBound_ok.1 h.bound).2
    have hlt : slot < s.sinks.length := by
      rw [← hw.sinks.length_eq]
      exact (List.getElem?_eq_some_iff.1 hslot).1
    obtain ⟨b, hb⟩ : ∃ b, s.sinks[slot] = some b := by
      have hsome := (requireBound_ok.1 h.bound).2 s.sinks[slot] (List.getElem_mem hlt)
      exact Option.isSome_iff_exists.1 hsome
    have hb : s.sinks[slot]? = some (some b) := by rw [List.getElem?_eq_getElem hlt, hb]
    obtain ⟨j, hj, hof⟩ := hw.sinks.getElem? hb
    rw [hslot] at hj
    cases hj
    exact ⟨b, hb, hof⟩
  obtain ⟨b', hb', hpulled⟩ := h.sinks slot _ hb
  obtain ⟨id, hfirst, rfl⟩ := hpulled b rfl
  obtain ⟨hsized, -⟩ := hw.given h.bound
  rw [hof.operand] at hfirst hb'
  have hsize := hc.final_fit hsized id (s := o.shape) ⟨o', ho', hshape⟩
  rw [hlowering.given_eq] at hsize hb'
  have helement : o'.element = o.element := congrArg TypeInfo.element htype
  have hbytes : o'.byteSize = o.byteSize := by
    rw [Operand.byteSize, Operand.byteSize, hshape, helement]
  have hlong : o.byteSize ≤ b.buffer.length := by
    obtain ⟨-, o₁, ho₁, -, -, hle⟩ := hof
    rw [ho'] at ho₁
    cases ho₁
    rwa [hbytes] at hle
  refine ⟨id, b, _, hfirst, rfl, hsize, hb, hb', hlong, ?_⟩
  rw [← hshape] at hsize
  rw [buffer_overwrite hof ho' hsize, helement, hbytes]

/-- **What a run writes to an output**: the words it left in the first tensor of the operand. -/
theorem Ran.output (h : Ran p ops s m s' m') (hc : p.Compiled m₀ policy ops) (hw : s.Wired p)
    (hslot : m₀.outputs[slot]? = some i) (ho : m₀.operands[i]? = some o) :
    ∃ id old ws, FirstSite (sites ops) i id ∧
      ws = p.model.final ops (m₀.given s.inputs) (id, i) ∧ ws.size = o.shape.elements ∧
      s.output slot = .ok old ∧
      s'.output slot = .ok (o.element.encode ws.toList ++ old.drop o.byteSize) := by
  obtain ⟨id, b, ws, hfirst, hws, hsize, hb, hb', -, hbuffer⟩ := h.sink hc hw hslot ho
  exact ⟨id, b.buffer, ws, hfirst, hws, hsize, output_eq_ok.2 ⟨b, hb, rfl⟩,
    output_eq_ok.2 ⟨_, hb', hbuffer⟩⟩

/-! ## All outputs -/

variable {t t' : Session}

/-- The outputs of `s` were written with values: each buffer starts with the bytes of the value of
its operand, and goes on as before. -/
def Wrote (m : Model) (value : OperandId → Option Buffer) (s t : Session) : Prop :=
  ∀ (slot : SlotId) (i : OperandId) (o : Operand), m.outputs[slot]? = some i →
    m.operands[i]? = some o → ∃ ws old, value i = some ws ∧ ws.size = o.shape.elements ∧
      s.output slot = .ok old ∧
      t.output slot = .ok (o.element.encode ws.toList ++ old.drop o.byteSize)

/-- Buffers written with the same values start with the same bytes. -/
theorem Wrote.same {model : Model} {value : OperandId → Option Buffer}
    (h : Wrote model value s t) (h' : Wrote model value s' t') (hslot : model.outputs[slot]? = some i)
    (ho : model.operands[i]? = some o) {bytes bytes' : Bytes} (hb : t.output slot = .ok bytes)
    (hb' : t'.output slot = .ok bytes') : bytes.take o.byteSize = bytes'.take o.byteSize := by
  obtain ⟨ws, old, hws, hsize, -, hout⟩ := h slot i o hslot ho
  obtain ⟨ws', old', hws', -, -, hout'⟩ := h' slot i o hslot ho
  rw [hws, Option.some.injEq] at hws'
  subst hws'
  rw [hb, Except.ok.injEq] at hout
  rw [hb', Except.ok.injEq] at hout'
  have hlen : (o.element.encode ws.toList).length = o.byteSize := by
    rw [ElementType.length_encode, Array.length_toList, hsize, Operand.byteSize]
  rw [hout, hout', ← hlen, List.take_left, List.take_left]

/-- **What a run writes are the values of the caller's model**, if the operations of the plan read
where others write. -/
theorem Ran.evaluates_matched (h : Ran p ops s m t m')
    (hc : p.Compiled m₀ policy ops) (hw : s.Wired p) (hmatched : p.model.Matched) :
    Wrote m₀ (m₀.value (m₀.given s.inputs)) s t := by
  intro slot i o hslot ho
  obtain ⟨id, old, ws, hfirst, hws, hsize, hold, hout⟩ := h.output hc hw hslot ho
  obtain ⟨mf, ps, copies, sm, hlowering⟩ := hc.compiles.lowering hc.built
  obtain ⟨hsized, hgiven⟩ := hw.given h.bound
  rw [hlowering.given_eq, hlowering.inputs] at hgiven
  rw [hlowering.given_eq] at hsized
  refine ⟨ws, old, ?_, hsize, hold, hout⟩
  rw [hws]
  exact hlowering.value_run hmatched hgiven hsized hc.made.runs hfirst.1
    (List.getElem?_eq_some_iff.1 ho).1

theorem Ran.evaluates (h : Ran p ops s m t m')
    (hc : p.Compiled m₀ policy ops) (hw : s.Wired p)
    (hplain : ∀ op ∈ m₀.operations, op.kind ≠ .permute) :
    Wrote m₀ (m₀.value (m₀.given s.inputs)) s t := by
  obtain ⟨mf, ps, copies, sm, hlowering⟩ := hc.compiles.lowering hc.built
  exact h.evaluates_matched hc hw (hlowering.matched hplain)

/-- What plans of one model and policy leave is the same for the same inputs. -/
theorem Ran.agree {p' : Plan} {ops' : List (Operation × Placement)} {m₁ m₁' : Machine}
    (h : Ran p ops s m t m₁) (h' : Ran p' ops' s' m' t' m₁')
    (hc : p.Compiled m₀ policy ops) (hc' : p'.Compiled m₀ policy ops') (hw : s.Wired p)
    (hw' : s'.Wired p') (hinputs : s'.inputs = s.inputs) :
    ∃ value, Wrote m₀ value s t ∧ Wrote m₀ value s' t' := by
  obtain ⟨hmodel, rfl⟩ := hc.compiles.unique hc'.compiles
  have hslot : ∀ i, ∃ x : Option Buffer, ∀ id, FirstSite (sites ops') i id →
      x = some (p.model.final ops' (m₀.given s.inputs) (id, i)) := by
    intro i
    by_cases hi : ∃ id, FirstSite (sites ops') i id
    · obtain ⟨id, hid⟩ := hi
      exact ⟨_, fun id' hid' => by rw [hid.unique hid']⟩
    · exact ⟨none, fun id hid => absurd ⟨id, hid⟩ hi⟩
  choose value hvalue using hslot
  refine ⟨value, fun slot i o hslot ho => ?_, fun slot i o hslot ho => ?_⟩
  · obtain ⟨id, old, ws, hfirst, hws, hsize, hold, hout⟩ := h.output hc hw hslot ho
    exact ⟨ws, old, (hvalue i id hfirst).trans (by rw [hws]), hsize, hold, hout⟩
  · obtain ⟨id, old, ws, hfirst, hws, hsize, hold, hout⟩ := h'.output hc' hw' hslot ho
    rw [hmodel, hinputs] at hws
    exact ⟨ws, old, (hvalue i id hfirst).trans (by rw [hws]), hsize, hold, hout⟩

end Session

end HeteroNet
