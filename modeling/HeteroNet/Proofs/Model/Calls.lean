import HeteroNet.Proofs.Model.Placed
import HeteroNet.Proofs.Model.Values

/-
A model under any sequence of calls, those that fail included. One invariant goes through all three
phases (`Exact`): constants have as many bytes as their operands, and a model that is no longer being
built has the links of its operations. What one call does to it is said once (`Exact.call`), and
`calls_exact` follows by induction on the calls.

Lowering rewires the inputs of operations and appends copies, so there the links are exact because
they are computed anew, and not because they were so before.
-/

namespace HeteroNet

namespace Model

variable {m m' m'' : Model} {ps : List Placement}

/-- How a call may move the phase of a model. -/
inductive Call.Moves : Call → Phase → Phase → Prop
  | stays (c : Call) (p : Phase) : Moves c p p
  | finishes : Moves .finish .building .finished
  | lowers (ps : List Placement) : Moves (.lower ps) .finished .lowered

theorem Call.Moves.forward {c : Call} {p q : Phase} (h : c.Moves p q) (hp : p ≠ .building) :
    q ≠ .building := by
  cases h with
  | stays => exact hp
  | finishes => decide
  | lowers => decide

/-- What holds of a model in every phase. -/
structure Exact (m : Model) : Prop where
  constants : ConstantsSized m.operands
  links : m.phase ≠ .building → m.Linked ∧ m.ReadersAscend
  checked : m.phase = .finished → m.Checked

/-- The operands of `m` are declared in `m'` as they were. -/
def Declares (m m' : Model) : Prop :=
  m.operands.map Operand.declared <+: m'.operands.map Operand.declared

theorem Exact.sound (h : m.Exact) (hphase : m.phase = .building) : m.Sound :=
  ⟨h.constants, .inl hphase⟩

/-- A sound model is exact while it is built. -/
theorem Sound.exact (h : m.Sound) (hphase : m.phase = .building) : m.Exact where
  constants := h.constants
  links := fun hne => absurd hphase hne
  checked := fun hf => by rw [hphase] at hf; cases hf

/-! ## Finishing -/

theorem ReadersAscend.withPhase (h : m.ReadersAscend) (p : Phase) :
    ReadersAscend { m with phase := p } :=
  h

/-- A model that cannot be finished changes in its links at most. -/
theorem finish_error {e : Error} (h : outcome finish m = (.error e, m')) : Relinked m m' := by
  simp only [finish, outcome_bind_error, outcome_get, outcome_check, outcome_modify, Prod.mk.injEq,
    Except.ok.injEq] at h
  obtain h | ⟨_, _, ⟨rfl, rfl⟩, ⟨-, rfl⟩ | ⟨_, _, ⟨-, rfl⟩, h⟩⟩ := h
  · simp at h
  · exact refl_of Relinked _
  obtain h | ⟨_, _, ⟨rfl, rfl⟩, ⟨-, rfl⟩ | ⟨_, _, ⟨-, rfl⟩, h⟩⟩ := h
  · simp at h
  · exact refl_of Relinked _
  obtain h | ⟨_, m₁, h₁, h⟩ := h
  · exact keeps_link.of_eq h
  obtain h | ⟨_, _, ⟨rfl, rfl⟩, ⟨-, rfl⟩ | ⟨_, _, -, h, -⟩⟩ := h
  · simp at h
  · exact keeps_link.of_eq h₁
  · simp at h

/-- Finishing leaves a model that is still built, or one with the links of its operations. -/
theorem finish_exact (h : m.Sound) (hphase : m.phase = .building) :
    (outcome finish m).2.Exact ∧ Call.finish.Moves .building (outcome finish m).2.phase := by
  have hs := h.finish
  rcases hrun : outcome finish m with ⟨r, m'⟩
  rw [hrun] at hs
  cases r with
  | error e =>
    have hp : m'.phase = .building := (finish_error hrun).phase.trans hphase
    exact ⟨hs.exact hp, by rw [hp]; exact .stays _ _⟩
  | ok u =>
    obtain ⟨m₁, hlink, -, rfl⟩ := finish_ok hrun
    obtain ⟨hl, hc, -⟩ := finish_linked hrun
    exact ⟨⟨hs.constants, fun _ => ⟨hl, (link_ascends hlink).withPhase _⟩, fun _ => hc⟩, .finishes⟩

/-! ## Lowering -/

theorem Replaced.ascends (h : Replaced m m') (hm : m.ReadersAscend) : m'.ReadersAscend := by
  intro o' ho'
  obtain ⟨i, hi⟩ := List.mem_iff_getElem?.1 ho'
  obtain ⟨o, ho, he⟩ := h.operand hi
  have huses : o'.uses = o.uses := (congrArg Operand.uses he :)
  rw [huses]
  exact hm o (List.mem_of_getElem? ho)

theorem Conserves.declares (h : Conserves m m') : Declares m m' := by
  rw [Declares, ← h.operands, List.map_take]
  exact List.take_prefix _ _

/-- Lowering a finished model refuses it, or leaves one whose links are those of the operations that
lowering has rewired and appended. -/
theorem Exact.lower (h : m.Exact) (hphase : m.phase = .finished) (ps : List Placement) :
    (outcome (lower ps) m).2 = m ∨
      ((outcome (lower ps) m).2.Exact ∧ (outcome (lower ps) m).2.phase = .lowered ∧
        Declares m (outcome (lower ps) m).2) := by
  obtain ⟨hl, -⟩ := h.links (by rw [hphase]; decide)
  have hc := h.checked hphase
  have hw := (checked_iff hl ⟨hc.arity, hc.given⟩).1 hc
  by_cases hlen : ps.length = m.operations.length
  · obtain ⟨s, hrun, hs⟩ := lower_total hl hc hphase hlen
    obtain ⟨copies, m₁, hlow⟩ := lower_lowering .refl h.constants hl hc hrun
    obtain ⟨-, -, _, m₂, -, hlink, -, rfl⟩ := lower_ok hrun
    have hascend := (replaced_placeOperands m₂).ascends (link_ascends hlink)
    rw [hrun]
    refine .inr ⟨⟨hlow.lowConstants, fun _ => ⟨hlow.lowLinked, hascend.withPhase _⟩, ?_⟩, hs,
      (hlow.lowered.conserves (hlow.split.conserves hw hlen)).declares⟩
    intro hf
    cases hf
  · left
    rw [Model.lower, outcome_bind_of_ok (outcome_get m),
      outcome_bind_of_ok (outcome_check_of_ok (requirePhase_ok.2 hphase) m), if_pos hlen]
    rfl

/-! ## Any call -/

theorem building_keeps {α : Type} {body : Edit α} (h : m.phase = .building)
    (hbody : (outcome body m).2.phase = .building) :
    (outcome (liftM (m.requirePhase .building) >>= fun _ => body) m).2.phase = .building :=
  building_call (P := fun s => s.phase = .building) h fun _ => hbody

theorem checked_keeps {α β : Type} {x : Except Error β} {body : β → Edit α}
    (h : m.phase = .building) (hbody : ∀ b, (outcome (body b) m).2.phase = .building) :
    (outcome (liftM x >>= body) m).2.phase = .building :=
  checked_call (P := fun s => s.phase = .building) h fun b _ => hbody b

/-- A model that is being built stays so, unless it is finished. -/
theorem Call.building (h : m.phase = .building) (c : Call) (hc : c ≠ .finish) :
    (c.after m).phase = .building := by
  cases c with
  | addOperand shape type =>
    show (outcome (Model.addOperand shape type) m).2.phase = .building
    rw [Model.addOperand, outcome_bind_of_ok (outcome_get m)]
    exact building_keeps h h
  | setValue i data =>
    show (outcome (Model.setValue i data) m).2.phase = .building
    rw [Model.setValue, outcome_bind_of_ok (outcome_get m)]
    refine building_keeps h (checked_keeps h fun o => ?_)
    by_cases hlen : data.length ≠ o.byteSize
    · rw [if_pos hlen]
      exact h
    · rw [if_neg hlen]
      exact h
  | addOperation op =>
    show (outcome (Model.addOperation op) m).2.phase = .building
    rw [Model.addOperation, outcome_bind_of_ok (outcome_get m)]
    exact building_keeps h (checked_keeps h fun _ => h)
  | addInput i =>
    show (outcome (Model.addInput i) m).2.phase = .building
    rw [Model.addInput, outcome_bind_of_ok (outcome_get m)]
    exact building_keeps h (checked_keeps h fun _ => h)
  | addOutput i =>
    show (outcome (Model.addOutput i) m).2.phase = .building
    rw [Model.addOutput, outcome_bind_of_ok (outcome_get m)]
    exact building_keeps h (checked_keeps h fun _ => h)
  | finish => exact absurd rfl hc
  | lower ps =>
    show (outcome (Model.lower ps) m).2.phase = .building
    rw [Model.lower, wrong_phase (by rw [h]; decide)]
    exact h

theorem Call.sound (h : m.Sound) (hphase : m.phase = .building) : ∀ c : Call, (c.after m).Sound
  | addOperand shape type => h.addOperand shape type
  | setValue i data => h.setValue i data
  | addOperation op => h.addOperation op
  | addInput i => h.addInput i
  | addOutput i => h.addOutput i
  | finish => h.finish
  | lower ps => by
    show (outcome (Model.lower ps) m).2.Sound
    rw [Model.lower, wrong_phase (by rw [hphase]; decide)]
    exact h

/-- **What one call does to a model.** -/
theorem Exact.call (h : m.Exact) (c : Call) : (c.after m).Exact ∧
    c.Moves m.phase (c.after m).phase ∧ (m.phase ≠ .building → Declares m (c.after m)) := by
  have hsame : c.after m = m → (c.after m).Exact ∧ c.Moves m.phase (c.after m).phase ∧
      (m.phase ≠ .building → Declares m (c.after m)) := by
    intro he
    rw [he]
    exact ⟨h, .stays _ _, fun _ => List.prefix_rfl⟩
  cases hphase : m.phase with
  | building =>
    have hs := h.sound hphase
    by_cases hc : c = .finish
    · subst hc
      obtain ⟨he, hm⟩ := finish_exact hs hphase
      exact ⟨he, hm, fun hne => absurd rfl hne⟩
    · have hp := Call.building hphase c hc
      exact ⟨(Call.sound hs hphase c).exact hp, by rw [hp]; exact .stays _ _,
        fun hne => absurd rfl hne⟩
  | finished =>
    rw [hphase] at hsame
    have hb : m.phase ≠ .building := by rw [hphase]; decide
    by_cases hc : ∃ ps, c = .lower ps
    · obtain ⟨ps, rfl⟩ := hc
      rcases h.lower hphase ps with he | ⟨hx, hp, hd⟩
      · exact hsame he
      · refine ⟨hx, ?_, fun _ => hd⟩
        have hp' : (Call.after m (.lower ps)).phase = .lowered := hp
        rw [hp']
        exact .lowers ps
    · exact hsame (Call.idle hb c fun _ ps he => hc ⟨ps, he⟩)
  | lowered =>
    rw [hphase] at hsame
    exact hsame (Call.after_lowered hphase c)

/-! ## Any calls -/

theorem ofCalls_append (calls later : List Call) :
    ofCalls (calls ++ later) = later.foldl Call.after (ofCalls calls) :=
  List.foldl_append

/-- Calls keep a model exact, and once it is finished they keep what was declared of it. -/
theorem Exact.calls : ∀ (later : List Call) {m : Model}, m.Exact →
    (later.foldl Call.after m).Exact ∧
      (m.phase ≠ .building → Declares m (later.foldl Call.after m))
  | [], m, h => ⟨h, fun _ => List.prefix_rfl⟩
  | c :: later, m, h => by
    obtain ⟨hx, hmoves, hd⟩ := h.call c
    obtain ⟨hrest, hdrest⟩ := Exact.calls later hx
    exact ⟨hrest, fun hne => (hd hne).trans (hdrest (hmoves.forward hne))⟩

theorem exact_ofCalls (calls : List Call) : (ofCalls calls).Exact := by
  refine (Exact.calls calls (m := {}) ⟨fun {i o data} ho => ?_, fun hne => absurd rfl hne, ?_⟩).1
  · cases ho
  · intro hf
    cases hf

/-- **Whatever calls are made on a model, and whichever of them fail**, its phase moves forward only,
by finishing and by lowering; its constants have as many bytes as their operands; and once it is
finished, every operand is linked to the one operation that writes it, if any, and to those that read
it, each once and in index order, and no later call changes what was declared of it. -/
theorem calls_exact (calls : List Call) :
    (∀ c : Call, c.Moves (ofCalls calls).phase (ofCalls (calls ++ [c])).phase) ∧
    ConstantsSized (ofCalls calls).operands ∧
    ((ofCalls calls).phase ≠ .building →
      (ofCalls calls).Linked ∧ (ofCalls calls).ReadersAscend ∧
        ∀ later, Declares (ofCalls calls) (ofCalls (calls ++ later))) := by
  have h := exact_ofCalls calls
  refine ⟨fun c => ?_, h.constants, fun hne => ?_⟩
  · rw [ofCalls_append]
    exact (h.call c).2.1
  · obtain ⟨hl, hr⟩ := h.links hne
    refine ⟨hl, hr, fun later => ?_⟩
    rw [ofCalls_append]
    exact (h.calls later).2 hne

/-- Calls that build `fannedOut`, finish it and lower it, among others that fail: data of a wrong
length, an operand that does not exist, finishing twice, and building on afterwards. -/
def fannedCalls : List Call :=
  let x : Call := .addOperand [1, 2] { element := .float32 }
  [x, x, x, x, x, .addOperand [] { element := .scalarInt32 }, .setValue 5 [1], .setValue 5 [0, 0, 0, 0],
    .addOperation ⟨[0], [1], .nop⟩, .addOperation ⟨[1, 1], [2], .add 5⟩, .addOperation ⟨[1], [3], .nop⟩,
    .addOperation ⟨[2, 3], [4], .add 5⟩, .addInput 0, .addInput 9, .addOutput 4, .finish, .finish,
    .lower [], .lower fannedPlacements, .setValue 0 [0, 0, 0, 0, 0, 0, 0, 0]]

/-- The copy that the two operations on the device share has both as its readers, though one of them
reads it twice. -/
theorem calls_exact_fannedCalls :
    (ofCalls fannedCalls).phase ≠ .building ∧ (ofCalls fannedCalls).Linked ∧
      (ofCalls fannedCalls).ReadersAscend := by
  have hne : (ofCalls fannedCalls).phase ≠ .building := by decide +kernel
  obtain ⟨hl, hr, -⟩ := (calls_exact fannedCalls).2.2 hne
  exact ⟨hne, hl, hr⟩

end Model

end HeteroNet
