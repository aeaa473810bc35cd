import HeteroNet.Proofs.Plan.Backed
import HeteroNet.Proofs.World.Runs

/-
Copies between backends that a caller writes. What such an operation means is a copy, so the model in
which it copies in place means the same (`Model.value_inPlace`). Where the copies agree with the
policy, runs write what that model means; they agree exactly where no step of the plan reads memory
that nothing writes (`World.copies_agree`). Lowering does not see to it for copies that it did not
add: `World.copies_zeros` is a run that reads a tensor no one wrote.
-/

namespace HeteroNet

open Operation Model

/-! ## Copying in place -/

/-- The operation, which copies in place if it copied between backends. -/
def Operation.inPlace (op : Operation) : Operation :=
  { op with attributes := match op.attributes with
      | .permute _ _ => .nop
      | a => a }

/-- The model in which what the caller copied between backends is copied in place. -/
def Model.inPlace (m : Model) : Model := { m with operations := m.operations.map Operation.inPlace }

@[simp] theorem Operation.inputs_inPlace (op : Operation) : op.inPlace.inputs = op.inputs := rfl

@[simp] theorem Model.operands_inPlace (m : Model) : m.inPlace.operands = m.operands := rfl

/-- Both copies have one kernel. -/
@[simp] theorem Operation.kernel_inPlace (op : Operation) (os : Operands) :
    op.inPlace.kernel os = op.kernel os := by
  obtain ⟨inputs, outputs, attributes⟩ := op
  cases attributes <;> rfl

namespace Model

variable {m : Model} {given : OperandId → Option Buffer}

theorem inPlace_plain : ∀ op ∈ m.inPlace.operations, op.kind ≠ .permute := by
  intro op hop
  obtain ⟨op, -, rfl⟩ := List.mem_map.1 hop
  obtain ⟨inputs, outputs, attributes⟩ := op
  cases attributes <;> simp [Operation.inPlace, Operation.kind, Attributes.kind]

theorem evaluate_inPlace : ∀ (depth : Nat) (i : OperandId),
    m.inPlace.evaluate given depth i = m.evaluate given depth i
  | 0, _ => rfl
  | depth + 1, i => by
    have ih : m.inPlace.evaluate given depth = m.evaluate given depth :=
      funext (evaluate_inPlace depth)
    have hfind : m.inPlace.operations.find? (fun op => op.outputs.contains i)
        = (m.operations.find? fun op => op.outputs.contains i).map Operation.inPlace := by
      rw [inPlace, List.find?_map]
      rfl
    simp only [evaluate, ih, hfind, Option.bind_eq_bind, Option.bind_map, Function.comp_def,
      operands_inPlace, inputs_inPlace, kernel_inPlace]

/-- Buffers give the same words. -/
theorem given_inPlace (buffers : List Bytes) : m.inPlace.given buffers = m.given buffers := by
  have hrec : ∀ bound : List (OperandId × Bytes), m.inPlace.givenBy bound = m.givenBy bound := by
    intro bound
    induction bound with
    | nil => rfl
    | cons e bound ih =>
      funext i
      rw [givenBy, givenBy, ih]
      rfl
  exact hrec _

/-- Copying in place changes no value. -/
theorem value_inPlace (i : OperandId) : m.inPlace.value given i = m.value given i := by
  rw [value, value, evaluate_inPlace, inPlace, List.length_map]

end Model

namespace World

variable {settings : Settings} {w : World} {e : Entry}

/-- **Copies that a caller writes.** The steps of a plan read what is written if and only if the
copies that the caller wrote agree with the policy. If they do, a successful run writes what the
model means in which they copy in place, and what a plan for that model writes for the same inputs,
wherever its operations are placed. -/
theorem copies_agree (hw : Reached settings w) (he : e ∈ w.entries) :
    (e.plan.Backed ↔ e.model.Fitted e.policy) ∧
    (e.model.Fitted e.policy → ∀ (s t : Session) (m : Machine), Session.Made e.plan s →
      outcome Session.run (s, w.platform.machine) = (.ok (), (t, m)) →
      Session.Wrote e.model (e.model.inPlace.value (e.model.inPlace.given s.inputs)) s t ∧
      ∀ (settings' : Settings) (w' : World) (e' : Entry) (s' t' : Session) (m' : Machine),
        Reached settings' w' → e' ∈ w'.entries → e'.model = e.model.inPlace →
        Session.Made e'.plan s' → s'.inputs = s.inputs →
        outcome Session.run (s', w'.platform.machine) = (.ok (), (t', m')) →
        ∀ (slot : SlotId) (i : OperandId) (o : Operand) (bytes bytes' : Bytes),
          e.model.outputs[slot]? = some i → e.model.operands[i]? = some o →
          t.output slot = .ok bytes → t'.output slot = .ok bytes' →
          bytes.take o.byteSize = bytes'.take o.byteSize) := by
  obtain ⟨ops, hcompiled, hkept⟩ := hw.sound.usable e he
  refine ⟨hcompiled.backed_iff hkept.ready, fun hfitted s t m hs hrun => ?_⟩
  obtain ⟨ops', hcompiled', hran⟩ := hw.sound.ran_of_ok he hs hrun
  have hmatched : e.plan.model.Matched :=
    (hcompiled'.compiles.matched_iff hcompiled'.built).2 hfitted
  have hwrote := hran.evaluates_matched hcompiled' hs.wired hmatched
  rw [← funext value_inPlace, ← given_inPlace] at hwrote
  refine ⟨hwrote, ?_⟩
  intro settings' w' e' s' t' m' hw' he' hmodel hs' hinputs hrun' slot i o bytes bytes' hslot ho hb hb'
  have hplain : ∀ op ∈ e'.model.operations, op.kind ≠ .permute := hmodel ▸ inPlace_plain
  have hwrote' := (run_evaluates hw' he' hplain hs' hrun').1
  rw [hmodel, hinputs] at hwrote'
  -- The outputs are those of the model in which the caller's copies stand as he wrote them.
  have hsame : Session.Wrote e.model (e.model.inPlace.value (e.model.inPlace.given s.inputs)) s' t' :=
    hwrote'
  exact hwrote.same hsame hslot ho hb hb'

/-! ## A row that is passed on -/

/-- A row that two operations pass on. -/
def ferrying (first second : Attributes) : Model :=
  let row : Edit OperandId := addOperand [1, 2] { element := .float32 }
  (addOutput 2).on ((addInput 0).on ((addOperation ⟨[1], [2], second⟩).on
    ((addOperation ⟨[0], [1], first⟩).on
      (row.on (row.on (row.on {}).2).2).2).2).2).2 |>.2

theorem ferrying_built (first second : Attributes) : (ferrying first second).Built :=
  .addOutput 2 (.addInput 0 (.addOperation _ (.addOperation _
    (.addOperand _ _ (.addOperand _ _ (.addOperand _ _ .empty))))))

@[irreducible] def ferried (first second : Attributes) (s : Platform) :
    Except Failure Plan × Platform :=
  outcome (compile (ferrying first second) {}) s

theorem compile_ferrying (first second : Attributes) (s : Platform) :
    outcome (compile (ferrying first second) {}) s = ferried first second s := by
  delta ferried
  rfl

/-- The plan of the operations, which are all placed on the device. -/
def ferryEntry (first second : Attributes) (s : Platform) : Entry where
  model := ferrying first second
  policy := {}
  plan := (ferried first second s).1.toOption.getD ⟨ferrying first second, [], []⟩

/-- The platform on which the operations were compiled. -/
def ferryPlatform (first second : Attributes) : Platform :=
  (ferried first second ({} : Settings).platform).2

/-- The plan of the caller's operations. -/
def writtenEntry (first second : Attributes) : Entry :=
  ferryEntry first second ({} : Settings).platform

/-- The plan, made after the other one, in which both operations copy in place. -/
def inPlaceEntry (first second : Attributes) : Entry :=
  ferryEntry .nop .nop (ferryPlatform first second)

def ferryWorld (first second : Attributes) : World :=
  ⟨(ferried .nop .nop (ferryPlatform first second)).2,
    [writtenEntry first second, inPlaceEntry first second]⟩

theorem ferry_reached {first second : Attributes}
    (h : (ferried first second ({} : Settings).platform).1 = .ok (writtenEntry first second).plan)
    (h' : (ferried .nop .nop (ferryPlatform first second)).1
      = .ok (inPlaceEntry first second).plan) :
    Reached {} (ferryWorld first second) := by
  have hrun : outcome (compile (ferrying first second) {}) ({} : Settings).platform
      = (.ok (writtenEntry first second).plan, ferryPlatform first second) :=
    (compile_ferrying first second _).trans (outcome_eq h)
  have hrun' : outcome (compile (ferrying .nop .nop) {}) (ferryPlatform first second)
      = (.ok (inPlaceEntry first second).plan, (ferryWorld first second).platform) :=
    (compile_ferrying .nop .nop _).trans (outcome_eq h')
  exact .step (.step .start (.compiled (ferrying_built first second) hrun))
    (.compiled (ferrying_built .nop .nop) hrun')

/-- The row `[1, 2]`. -/
def ferryRow : Bytes := [0, 0, 128, 63, 0, 0, 0, 64]

@[irreducible] def ferrySource (p : Plan) : Session :=
  ((Session.new p).setInput 0 ferryRow).toOption.getD (Session.new p)

/-- The session with both slots bound. -/
@[irreducible] def ferrySession (p : Plan) : Session :=
  ((ferrySource p).setOutput 0 (List.replicate 8 9)).toOption.getD (ferrySource p)

theorem ferry_made {p : Plan} (h : (Session.new p).setInput 0 ferryRow = .ok (ferrySource p))
    (h' : (ferrySource p).setOutput 0 (List.replicate 8 9) = .ok (ferrySession p)) :
    Session.Made p (ferrySession p) :=
  .setOutput 0 _ (.setInput 0 _ .new h) h'

/-- A run on a plan of the world with the two. -/
@[irreducible] def ferryRun (first second : Attributes) (e : Entry) :
    Except Failure Unit × Session × Machine :=
  outcome Session.run (ferrySession e.plan, (ferryWorld first second).platform.machine)

theorem ferry_run (first second : Attributes) {e : Entry}
    (h : (ferryRun first second e).1 = .ok ()) :
    outcome Session.run (ferrySession e.plan, (ferryWorld first second).platform.machine)
      = (.ok (), (ferryRun first second e).2) := by
  rw [← ferryRun]
  exact outcome_eq h

/-- The caller copies to the device and then copies there: both runs write the row. -/
theorem copies_agree_ferried : ∃ (w : World) (e e' : Entry) (s s' t t' : Session) (m m' : Machine)
    (bytes bytes' : Bytes), e ∈ w.entries ∧ e' ∈ w.entries ∧ e'.model = e.model.inPlace ∧
      (∃ op ∈ e.model.operations, op.kind = .permute) ∧ e.plan.Backed ∧
      outcome Session.run (s, w.platform.machine) = (.ok (), (t, m)) ∧
      outcome Session.run (s', w.platform.machine) = (.ok (), (t', m')) ∧
      t.output 0 = .ok bytes ∧ t'.output 0 = .ok bytes' ∧ bytes.take 8 = bytes'.take 8 := by
  have hreached : Reached {} (ferryWorld (.permute "cpu" "gpu") .nop) :=
    ferry_reached (by decide +kernel) (by decide +kernel)
  have hmade : Session.Made (writtenEntry (.permute "cpu" "gpu") .nop).plan (ferrySession _) :=
    ferry_made (by decide +kernel) (by decide +kernel)
  have hmade' : Session.Made (inPlaceEntry (.permute "cpu" "gpu") .nop).plan (ferrySession _) :=
    ferry_made (by decide +kernel) (by decide +kernel)
  obtain ⟨hbacked, hagree⟩ := copies_agree hreached
    (e := writtenEntry (.permute "cpu" "gpu") .nop) (List.mem_cons_self ..)
  have hfitted : (ferrying (.permute "cpu" "gpu") .nop).Fitted {} := by decide +kernel
  have hrun := ferry_run (.permute "cpu" "gpu") .nop
    (e := writtenEntry (.permute "cpu" "gpu") .nop) (by decide +kernel)
  have hrun' := ferry_run (.permute "cpu" "gpu") .nop
    (e := inPlaceEntry (.permute "cpu" "gpu") .nop) (by decide +kernel)
  have hout : (ferryRun (.permute "cpu" "gpu") .nop
      (writtenEntry (.permute "cpu" "gpu") .nop)).2.1.output 0 = .ok ferryRow := by decide +kernel
  have hout' : (ferryRun (.permute "cpu" "gpu") .nop
      (inPlaceEntry (.permute "cpu" "gpu") .nop)).2.1.output 0 = .ok ferryRow := by decide +kernel
  have hsame := (hagree hfitted _ _ _ hmade hrun).2 {} _ _ _ _ _ hreached
    (List.mem_cons_of_mem _ (List.mem_singleton_self _)) (by decide +kernel) hmade'
    (by decide +kernel) hrun' 0 2 { shape := [1, 2], type := { element := .float32 } } _ _
    (by decide +kernel) (by decide +kernel) hout hout'
  exact ⟨_, writtenEntry _ _, inPlaceEntry _ _, _, _, _, _, _, _, _, _, List.mem_cons_self ..,
    List.mem_cons_of_mem _ (List.mem_singleton_self _), by decide +kernel, by decide +kernel,
    hbacked.2 hfitted, hrun, hrun', hout, hout', hsame⟩

/-- The device copies and then the caller copies from the host, where no one wrote: the compilation
and the run succeed, and what the run writes is not what both operations copy in place. -/
theorem copies_zeros : ∃ (w : World) (e e' : Entry) (s s' t t' : Session) (m m' : Machine),
    Reached {} w ∧ e ∈ w.entries ∧ e' ∈ w.entries ∧ e'.model = e.model.inPlace ∧
      ¬ e.plan.Backed ∧ Session.Made e.plan s ∧ Session.Made e'.plan s' ∧ s'.inputs = s.inputs ∧
      outcome Session.run (s, w.platform.machine) = (.ok (), (t, m)) ∧
      outcome Session.run (s', w.platform.machine) = (.ok (), (t', m')) ∧
      t.output 0 = .ok (List.replicate 8 0) ∧ t'.output 0 = .ok ferryRow := by
  have hreached : Reached {} (ferryWorld .nop (.permute "cpu" "gpu")) :=
    ferry_reached (by decide +kernel) (by decide +kernel)
  obtain ⟨ops, hcompiled, hkept⟩ := hreached.sound.usable
    (writtenEntry .nop (.permute "cpu" "gpu")) (List.mem_cons_self ..)
  have hunfitted : ¬ (ferrying .nop (.permute "cpu" "gpu")).Fitted {} := by decide +kernel
  exact ⟨_, writtenEntry _ _, inPlaceEntry _ _, _, _, _, _, _, _, hreached, List.mem_cons_self ..,
    List.mem_cons_of_mem _ (List.mem_singleton_self _), by decide +kernel,
    fun hbacked => hunfitted ((hcompiled.backed_iff hkept.ready).1 hbacked),
    ferry_made (by decide +kernel) (by decide +kernel),
    ferry_made (by decide +kernel) (by decide +kernel), by decide +kernel,
    ferry_run _ _ (by decide +kernel), ferry_run _ _ (by decide +kernel), by decide +kernel,
    by decide +kernel⟩

end World

end HeteroNet
