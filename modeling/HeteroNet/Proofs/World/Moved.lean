import HeteroNet.Proofs.Model.Heads
import HeteroNet.Proofs.Storage.Bytes
import HeteroNet.Proofs.World.Runs

/-
Runs of models that only move data. The bytes of an output are those of the operand at the head of
its chain of writers, bit for bit, whatever the type of the elements and wherever the operations are
placed (`moves_bytes`): words are moved and never computed with, and storing them undoes reading
them.
-/

namespace HeteroNet

open Operation Model

namespace Session

/-- The bytes that a run starts with for operand `h`: those bound to the last slot that lists it, or
else those of a constant. -/
inductive Supplied (s : Session) (m : Model) (h : OperandId) : Bytes → Prop
  | bound {k : SlotId} {b : Binding} : m.inputs[k]? = some h →
    (∀ k', k < k' → m.inputs[k']? ≠ some h) → s.sources[k]? = some (some b) →
    Supplied s m h b.buffer
  | constant {o : Operand} {data : Bytes} : h ∉ m.inputs → m.operands[h]? = some o →
    o.data = some data → Supplied s m h data

variable {m₀ : Model} {policy : Policy} {p : Plan} {ops : List (Operation × Placement)}
  {s : Session} {h : OperandId} {a : Operand} {ws : Buffer}

/-- What a session gives for an operand are the words of the buffer bound to the last slot that lists
it. -/
theorem Wired.supplied_bound (hc : p.Compiled m₀ policy ops) (hw : s.Wired p)
    (hb : s.requireBound = .ok ()) (ha : m₀.operands[h]? = some a)
    (hg : m₀.given s.inputs h = some ws) :
    ∃ bytes, s.Supplied m₀ h bytes ∧ a.byteSize ≤ bytes.length ∧
      ws = ((a.element.decode bytes).take a.shape.elements).toArray := by
  obtain ⟨m, ps, copies, sm, hlow⟩ := hc.compiles.lowering hc.built
  obtain ⟨cs, hcs⟩ := exists_bindings (requireBound_ok.1 hb).1
  rw [← hlow.given_eq, Model.given, inputs_bindings hcs] at hg
  obtain ⟨k, b, hk, hlast, hbk, rfl⟩ := givenOf_last (slots_bindings (hcs ▸ hw.sources)) hg
  have hsource : s.sources[k]? = some (some b) := by
    rw [hcs, List.getElem?_map, hbk, Option.map_some]
  obtain ⟨i, hi, hof⟩ := hw.sources.getElem? hsource
  rw [hk] at hi
  cases hi
  obtain ⟨-, o, ho, helement, hshape, hlen⟩ := hof
  obtain ⟨a', ha', hshape', htype', -⟩ := hlow.operand ha
  rw [ho] at ha'
  cases ha'
  have hsame : o.element = a.element := congrArg TypeInfo.element htype'
  rw [hlow.inputs] at hk
  refine ⟨b.buffer, .bound hk (fun k' hk' => hlow.inputs ▸ hlast k' hk') hsource, ?_, ?_⟩
  · rwa [Operand.byteSize, hshape', hsame] at hlen
  · rw [Binding.values, helement, hshape, hshape', hsame]

/-- An operand that is not computed has the words of the bytes supplied for it. -/
theorem Wired.supplied (hc : p.Compiled m₀ policy ops) (hw : s.Wired p)
    (hb : s.requireBound = .ok ()) (ha : m₀.operands[h]? = some a)
    (hunwritten : ∀ op ∈ m₀.operations, h ∉ op.outputs)
    (hws : m₀.evaluate (m₀.given s.inputs) 1 h = some ws) :
    ∃ bytes, s.Supplied m₀ h bytes ∧ a.byteSize ≤ bytes.length ∧
      ws = ((a.element.decode bytes).take a.shape.elements).toArray := by
  obtain ⟨m, ps, copies, sm, hlow⟩ := hc.compiles.lowering hc.built
  cases hg : m₀.given s.inputs h with
  | some x =>
    rw [evaluate_given hg, Option.some.injEq] at hws
    subst hws
    exact hw.supplied_bound hc hb ha hg
  | none =>
    cases hd : a.data with
    | some data =>
      rw [evaluate_constant hg ha hd, Option.some.injEq] at hws
      have hlen := hlow.constants ha hd
      refine ⟨data, .constant ?_ ha hd, hlen.ge, ?_⟩
      · intro hi
        obtain ⟨-, hgiven⟩ := hw.given hb
        rw [hlow.given_eq, hlow.inputs] at hgiven
        have hsome := (hgiven h).2 hi
        rw [hg] at hsome
        cases hsome
      · rw [← hws, List.take_of_length_le (Nat.le_of_eq (length_decode hlen))]
    | none =>
      simp only [evaluate, hg, ha, hd, Option.bind_eq_bind, Option.bind_eq_some_iff] at hws
      obtain ⟨op, hfind, -⟩ := hws
      exact absurd (by simpa using List.find?_some hfind)
        (hunwritten op (List.mem_of_find?_eq_some hfind))

/-- Words of as many elements of one type stand for the same bytes. -/
theorem encode_supplied {o : Operand} {bytes : Bytes} (helement : a.element = o.element)
    (hlen : a.byteSize ≤ bytes.length) (hsize : ws.size = o.shape.elements)
    (hws : ws = ((a.element.decode bytes).take a.shape.elements).toArray) :
    a.byteSize = o.byteSize ∧ o.element.encode ws.toList = bytes.take o.byteSize := by
  have hcount : a.shape.elements = o.shape.elements := by
    rw [← hsize, hws, List.size_toArray, length_take_decode hlen]
  rw [Operand.byteSize, helement, hcount] at hlen
  refine ⟨by rw [Operand.byteSize, Operand.byteSize, hcount, helement], ?_⟩
  rw [hws, helement, hcount]
  exact ElementType.encode_take_decode _ hlen

end Session

namespace World

variable {settings : Settings} {w : World} {e : Entry} {s t : Session} {m : Machine}

/-- Every plan was compiled once, on a platform without a failure. -/
theorem Reached.compiled (h : Reached settings w) (he : e ∈ w.entries) :
    e.model.Built ∧ ∃ s s' : Platform, s.Clean ∧
      outcome (compile e.model e.policy) s = (.ok e.plan, s') := by
  induction h with
  | start => cases he
  | @step w w' hreached hstep ih =>
    cases hstep with
    | compiled hbuilt hrun =>
      rcases List.mem_append.1 he with he | he
      · exact ih he
      · obtain rfl := List.mem_singleton.1 he
        exact ⟨hbuilt, _, _, hreached.sound.clean, hrun⟩
    | _ => exact ih he

/-- **Moving data is exact.** In a model that only copies and reshapes, every output has one head,
and a successful run writes to its buffer the bytes of that operand: those that the caller bound to
the last slot for it, or those of the constant. -/
theorem moves_bytes (hw : Reached settings w) (he : e ∈ w.entries)
    (hkind : ∀ op ∈ e.model.operations, op.kind = .nop ∨ op.kind = .reshape)
    (hs : Session.Made e.plan s)
    (hrun : outcome Session.run (s, w.platform.machine) = (.ok (), (t, m)))
    {slot : SlotId} {i : OperandId} (hslot : e.model.outputs[slot]? = some i) :
    ∃ o h bytes out, e.model.operands[i]? = some o ∧ (∀ h', e.model.Head i h' ↔ h' = h) ∧
      s.Supplied e.model h bytes ∧ o.byteSize ≤ bytes.length ∧
      t.output slot = .ok out ∧ o.byteSize ≤ out.length ∧
      out.take o.byteSize = bytes.take o.byteSize := by
  obtain ⟨hbuilt, platform, platform', hclean, hcompile⟩ := hw.compiled he
  obtain ⟨ops, hcompiled, hran⟩ := hw.sound.ran_of_ok he hs hrun
  obtain ⟨mf, ps, copies, sm, hlow⟩ := hcompiled.compiles.lowering hbuilt
  have hchained := hlow.chained fun op hop => compile_moves hbuilt hclean hcompile hop (hkind op hop)
  have hplain : ∀ op ∈ e.model.operations, op.kind ≠ .permute := fun op hop hk => by
    simpa [hk] using hkind op hop
  obtain ⟨o, ho⟩ : ∃ o, e.model.operands[i]? = some o := by
    have hi := hlow.checked.given (i := i)
      (List.mem_append_right _ (hlow.finished.outputs ▸ List.mem_of_getElem? hslot))
    exact ⟨_, List.getElem?_eq_getElem (hlow.length_eq ▸ hi)⟩
  obtain ⟨-, hgiven⟩ := hs.wired.given hran.bound
  rw [hlow.given_eq, hlow.inputs] at hgiven
  obtain ⟨ws, old, hvalue, hsize, -, hout⟩ :=
    hran.evaluates hcompiled hs.wired hplain slot i o hslot ho
  obtain ⟨h, a, hhead, ha, helement, hws⟩ := evaluate_head hchained hkind
    (hlow.unsupplied hgiven) ho hvalue
  obtain ⟨bytes, hsupplied, hlen, hwords⟩ := Session.Wired.supplied hcompiled hs.wired hran.bound ha
    hhead.last hws
  obtain ⟨hbytes, hencode⟩ := Session.encode_supplied helement hlen hsize hwords
  refine ⟨o, h, bytes, _, ho, fun h' => ⟨fun hh' => hhead.unique hchained hh', fun hh' => hh' ▸ hhead⟩,
    hsupplied, hbytes ▸ hlen, hout, ?_, ?_⟩
  · rw [hencode, List.length_append, List.length_take, Nat.min_eq_left (hbytes ▸ hlen)]
    exact Nat.le_add_right _ _
  · rw [hencode]
    exact List.take_left' (by rw [List.length_take, Nat.min_eq_left (hbytes ▸ hlen)])

/-- What the host reshaped and the device copied are the bytes that the caller bound. -/
theorem moves_bytes_relay : ∃ t m bytes out,
    outcome Session.run (relaySession, relayWorld.platform.machine) = (.ok (), (t, m)) ∧
      relaySession.Supplied relay 0 bytes ∧ t.output 0 = .ok out ∧ out.take 8 = bytes.take 8 := by
  obtain ⟨⟨t, m⟩, hrun⟩ : ∃ x, outcome Session.run (relaySession, relayWorld.platform.machine)
      = (.ok (), x) := ⟨_, outcome_eq (by decide +kernel)⟩
  have hreshape : ⟨[0], [1], .reshape none⟩ ∈ relay.operations := by decide +kernel
  have hcopy : ⟨[1], [2], .nop⟩ ∈ relay.operations := by decide +kernel
  have hhead : relay.Head 2 0 :=
    .written hcopy (List.mem_singleton_self 2) (List.mem_singleton_self 1)
      (.written hreshape (List.mem_singleton_self 1) (List.mem_singleton_self 0)
        (.unwritten (by decide +kernel)))
  have hoperand : relay.operands[2]? = some { shape := [1, 2], type := { element := .float32 } } := by
    decide +kernel
  have hslot : relayEntry.model.outputs[0]? = some 2 := by decide +kernel
  obtain ⟨o, h, bytes, out, ho, hunique, hsupplied, -, hout, -, hsame⟩ :=
    moves_bytes relay_reached (e := relayEntry) (List.mem_singleton_self _) (by decide +kernel)
      relay_made hrun hslot
  obtain rfl := (hunique 0).1 hhead
  rw [show relayEntry.model.operands = relay.operands from rfl, hoperand] at ho
  cases ho
  exact ⟨t, m, bytes, out, hrun, hsupplied, hout, hsame⟩

end World

end HeteroNet
