import HeteroNet.Proofs.Session.Calls
import HeteroNet.Proofs.World.Runs

/-
Calls on a session are atomic, in every world. One that fails, for whatever reason and in whatever
order the outputs would have been pulled, leaves the session as it was: its bindings, its state, and
every byte of the buffers (`calls_atomic`). A run that succeeds writes the start of each output
buffer, as many bytes as the operand has, and no byte of any buffer beyond.
-/

namespace HeteroNet

open Operation Model

namespace Session

variable {m₀ : Model} {policy : Policy} {p : Plan} {ops : List (Operation × Placement)}
  {s t : Session} {m m' : Machine}

/-- The session `t` is `s` after a run, as far as the buffers may have been written. -/
structure Overwritten (model : Model) (s t : Session) : Prop where
  plan : t.plan = s.plan
  sources : t.sources = s.sources
  count : t.sinks.length = s.sinks.length
  sink : ∀ (slot : SlotId) (i : OperandId) (o : Operand), model.outputs[slot]? = some i →
    model.operands[i]? = some o → ∃ b bytes, s.sinks[slot]? = some (some b) ∧
      t.sinks[slot]? = some (some { b with buffer := bytes }) ∧
      bytes.length = b.buffer.length ∧ bytes.drop o.byteSize = b.buffer.drop o.byteSize

theorem Ran.overwritten (h : Ran p ops s m t m') (hc : p.Compiled m₀ policy ops)
    (hw : s.Wired p) : Overwritten m₀ s t where
  plan := h.plan
  sources := h.sources
  count := h.count
  sink slot i o hslot ho := by
    obtain ⟨id, b, ws, -, -, hsize, hb, hb', hlong, hbuffer⟩ := h.sink hc hw hslot ho
    have hlen : (o.element.encode ws.toList).length = o.byteSize := by
      rw [ElementType.length_encode, Array.length_toList, hsize, Operand.byteSize]
    refine ⟨b, (b.overwrite ws).buffer, hb, hb', ?_, ?_⟩
    · rw [hbuffer, List.length_append, List.length_drop, hlen]
      omega
    · rw [hbuffer, ← hlen, List.drop_left]

/-- Binding a buffer leaves the session as it was, if the buffer is refused. -/
theorem rebind_error {f : Session → Except Error Session} {err : Failure} {x : Session × Machine}
    (h : outcome (rebind f) (s, m) = (.error err, x)) : x = (s, m) := by
  rw [outcome_rebind] at h
  cases hf : f s with
  | ok s' => simp [hf] at h
  | error e =>
    simp only [hf, Prod.mk.injEq] at h
    exact h.2.symm

end Session

namespace World

variable {settings : Settings} {w : World} {e : Entry} {s t : Session} {m : Machine}

/-- A run that fails leaves the session as it was. -/
theorem Sound.run_error (h : Sound w) (he : e ∈ w.entries) (hs : Session.Made e.plan s)
    {err : Failure} (hrun : outcome Session.run (s, w.platform.machine) = (.error err, (t, m))) :
    t = s := by
  obtain ⟨ops, hcompiled, hk⟩ := h.usable e he
  have hends := Session.run_ends hcompiled hk hs.wired h.clean.failure
  rw [hrun] at hends
  rcases hends with ⟨err', -, -, hsame⟩ | ⟨-, hsame⟩
  · exact congrArg Prod.fst hsame
  · exact hsame

/-- **Calls on a session are atomic.** A call that fails leaves no trace in the session: bindings,
state and the bytes of all buffers are as before. A run that succeeds ends in the state `ran` and
changes nothing but the first bytes of each output buffer, as many as its operand has. -/
theorem calls_atomic (hw : Reached settings w) (he : e ∈ w.entries)
    (hs : Session.Made e.plan s) :
    (∀ (c : Session.Call) (err : Failure) (t : Session) (m : Machine),
      outcome c.task (s, w.platform.machine) = (.error err, (t, m)) → t = s) ∧
    ∀ (t : Session) (m : Machine),
      outcome Session.run (s, w.platform.machine) = (.ok (), (t, m)) →
        t.state = .ran ∧ Session.Overwritten e.model s t := by
  refine ⟨fun c err t m hcall => ?_, fun t m hrun => ?_⟩
  · cases c with
    | setInput slot buffer =>
      rw [Session.Call.task] at hcall
      exact congrArg Prod.fst (Session.rebind_error hcall)
    | setOutput slot buffer =>
      rw [Session.Call.task] at hcall
      exact congrArg Prod.fst (Session.rebind_error hcall)
    | run =>
      rw [Session.Call.task] at hcall
      exact hw.sound.run_error he hs hcall
  · obtain ⟨ops, hcompiled, hran⟩ := hw.sound.ran_of_ok he hs hrun
    exact ⟨hran.state, hran.overwritten hcompiled hs.wired⟩

/-- The world with a fault pending that the next run meets. -/
def pendingWorld : World :=
  relayWorld.onMachine (relayWorld.platform.machine.injectFault "lost")

/-- The run that meets the fault leaves the session as it was. Without the fault the ninth byte of the
output buffer, whose operand has eight, stays as it was. -/
theorem calls_atomic_relay :
    (∃ err t m, outcome Session.run (relaySession, pendingWorld.platform.machine)
        = (.error err, (t, m)) ∧ t = relaySession) ∧
      ∃ t m, outcome Session.run (relaySession, relayWorld.platform.machine) = (.ok (), (t, m)) ∧
        t.state = .ran ∧ Session.Overwritten relay relaySession t := by
  have hmem : relayEntry ∈ relayWorld.entries := List.mem_singleton_self _
  constructor
  · have hreached : Reached {} pendingWorld := .step relay_reached (.fault "lost")
    obtain ⟨err, t, m, hrun⟩ : ∃ err t m, outcome Session.run
        (relaySession, pendingWorld.platform.machine) = (.error err, (t, m)) := by
      have hfails : (outcome Session.run
          (relaySession, pendingWorld.platform.machine)).1.toOption = none := by decide +kernel
      revert hfails
      obtain ⟨answer, t, m⟩ := outcome Session.run (relaySession, pendingWorld.platform.machine)
      cases answer with
      | ok u => exact fun hfails => by cases hfails
      | error err => exact fun _ => ⟨err, t, m, rfl⟩
    have hrun' : outcome Session.Call.run.task (relaySession, pendingWorld.platform.machine)
        = (.error err, (t, m)) := by
      rw [Session.Call.task]
      exact hrun
    exact ⟨err, t, m, hrun, (calls_atomic hreached hmem relay_made).1 .run err t m hrun'⟩
  · obtain ⟨⟨t, m⟩, hrun⟩ : ∃ x, outcome Session.run (relaySession, relayWorld.platform.machine)
        = (.ok (), x) := ⟨_, outcome_eq (by decide +kernel)⟩
    exact ⟨t, m, hrun, (calls_atomic relay_reached hmem relay_made).2 t m hrun⟩

end World

end HeteroNet
