import HeteroNet.Compile
import HeteroNet.Settings
import HeteroNet.Proofs.Session.Wired

/-
The state of a session under any calls on it, each made on whatever machine there is at that time. A
slot is bound once a buffer was bound to it, and stays bound; a run that fails changes no state. So
the state that a session keeps is the one its bindings make up, and `ran` if the last call that
succeeded was a run (`state_follows`).

One session is left out. A new session is `created`, whether its plan has inputs or not, although
every input of a plan that is fed by constants alone is bound from the start
(`unfed_state`). Its first call that succeeds puts that right.
-/

namespace HeteroNet

namespace Session

/-- A call on a session. -/
inductive Call where
  | setInput (slot : SlotId) (buffer : Bytes)
  | setOutput (slot : SlotId) (buffer : Bytes)
  | run
  deriving DecidableEq, Repr

/-- Binds a buffer. One that is refused leaves the session as it was. -/
def rebind (f : Session → Except Error Session) : SessionTask Unit := do
  let (s, m) ← get
  let s ← f s
  set (s, m)

def Call.task : Call → SessionTask Unit
  | setInput slot buffer => rebind (·.setInput slot buffer)
  | setOutput slot buffer => rebind (·.setOutput slot buffer)
  | run => Session.run

/-- A session and the calls on it that succeeded, after one more call. -/
def advance (x : Session × List Call) (c : Machine × Call) : Session × List Call :=
  match outcome c.2.task (x.1, c.1) with
  | (.ok _, y) => (y.1, x.2 ++ [c.2])
  | (.error _, y) => (y.1, x.2)

/-- A session on a plan after some calls, and those of them that succeeded. -/
def history (p : Plan) (calls : List (Machine × Call)) : Session × List Call :=
  calls.foldl advance (new p, [])

variable {p : Plan} {s s' : Session} {m : Machine} {done : List Call} {slot : SlotId}
  {buffer : Bytes} {bs bs' : List (Option Binding)} {bind : SlotId → Bytes → Call} {count : Nat}

/-! ## Slots -/

/-- Some slot was never bound by a call. -/
def Unbound (bind : SlotId → Bytes → Call) (count : Nat) (done : List Call) : Prop :=
  ∃ slot < count, ∀ buffer, bind slot buffer ∉ done

/-- The slots that have a binding are those that a call bound. -/
structure Follows (bind : SlotId → Bytes → Call) (count : Nat) (done : List Call)
    (bs : List (Option Binding)) : Prop where
  length : bs.length = count
  slot : ∀ slot < count, bs[slot]? = some none ↔ ∀ buffer, bind slot buffer ∉ done

namespace Follows

theorem start : Follows bind count [] (List.replicate count none) where
  length := List.length_replicate
  slot slot hslot := by simp [hslot]

/-- Binding a slot. -/
theorem set (h : Follows bind count done bs) (hbind : ∀ {i j x y}, bind i x = bind j y → i = j)
    (hslot : slot < count) (buffer : Bytes) (b : Binding) :
    Follows bind count (done ++ [bind slot buffer]) (bs.set slot (some b)) where
  length := by rw [List.length_set, h.length]
  slot i hi := by
    by_cases he : slot = i
    · subst he
      rw [List.getElem?_set_self (h.length.symm ▸ hslot)]
      simp only [Option.some.injEq, reduceCtorEq, false_iff, not_forall, not_not]
      exact ⟨buffer, by simp⟩
    · rw [List.getElem?_set_ne he, h.slot i hi]
      refine forall_congr' fun x => not_congr ?_
      rw [List.mem_append, List.mem_singleton]
      exact ⟨.inl, fun hx => hx.resolve_right fun heq => he (hbind heq).symm⟩

/-- A call of another kind. -/
theorem other (h : Follows bind count done bs) {c : Call} (hc : ∀ slot buffer, c ≠ bind slot buffer) :
    Follows bind count (done ++ [c]) bs where
  length := h.length
  slot i hi := by
    rw [h.slot i hi]
    refine forall_congr' fun x => not_congr ?_
    rw [List.mem_append, List.mem_singleton]
    exact ⟨.inl, fun hx => hx.resolve_right fun heq => hc i x heq.symm⟩

/-- Only which slots are bound matters. -/
theorem congr (h : Follows bind count done bs)
    (he : bs'.map (·.isSome) = bs.map (·.isSome)) : Follows bind count done bs' where
  length := by
    have hlen := congrArg List.length he
    rw [List.length_map, List.length_map] at hlen
    exact hlen.trans h.length
  slot i hi := by
    have hi' := congrArg (·[i]?) he
    simp only [List.getElem?_map] at hi'
    rw [← h.slot i hi]
    revert hi'
    cases bs'[i]? with
    | none => cases bs[i]? <;> simp
    | some b' =>
      cases bs[i]? with
      | none => simp
      | some b => cases b' <;> cases b <;> simp

theorem none_mem (h : Follows bind count done bs) : none ∈ bs ↔ Unbound bind count done := by
  rw [List.mem_iff_getElem?]
  constructor
  · intro ⟨i, hi⟩
    have hlt : i < count := h.length ▸ (List.getElem?_eq_some_iff.1 hi).1
    exact ⟨i, hlt, (h.slot i hlt).1 hi⟩
  · intro ⟨i, hlt, hi⟩
    exact ⟨i, (h.slot i hlt).2 hi⟩

end Follows

/-! ## The state that the bindings make up -/

theorem boundState_eq (s : Session) : s.boundState =
    if none ∈ s.sources then .created else if none ∈ s.sinks then .inputsBound
      else .outputsBound := by
  have hany : ∀ bs : List (Option Binding), (bs.any (·.isNone) = true) = (none ∈ bs) := by
    intro bs
    simp
  simp only [boundState, hany]

/-- The state of a session on which these calls succeeded. -/
structure StateFollows (p : Plan) (done : List Call) (state : SessionState) : Prop where
  ran : state = .ran ↔ done.getLast? = some .run
  created : done.getLast? ≠ some .run →
    (state = .created ↔ Unbound .setInput p.model.inputs.length done)
  inputsBound : done.getLast? ≠ some .run →
    (state = .inputsBound ↔ ¬Unbound .setInput p.model.inputs.length done ∧
      Unbound .setOutput p.model.outputs.length done)
  outputsBound : done.getLast? ≠ some .run →
    (state = .outputsBound ↔ ¬Unbound .setInput p.model.inputs.length done ∧
      ¬Unbound .setOutput p.model.outputs.length done)

/-- What is known of a session from the calls on it that succeeded. -/
structure Tracked (p : Plan) (done : List Call) (s : Session) : Prop where
  plan : s.plan = p
  sources : Follows .setInput p.model.inputs.length done s.sources
  sinks : Follows .setOutput p.model.outputs.length done s.sinks
  ran : done.getLast? = some .run → s.state = .ran
  derived : done ≠ [] → done.getLast? ≠ some .run → s.state = s.boundState
  new : done = [] → s.state = .created

theorem Tracked.follows (h : Tracked p done s) (hfed : p.model.inputs ≠ [] ∨ done ≠ []) :
    StateFollows p done s.state := by
  by_cases hlast : done.getLast? = some .run
  · exact ⟨⟨fun _ => hlast, fun _ => h.ran hlast⟩, fun hne => absurd hlast hne,
      fun hne => absurd hlast hne, fun hne => absurd hlast hne⟩
  have hstate : s.state = s.boundState := by
    by_cases hdone : done = []
    · -- Nothing was bound yet, and there is an input.
      subst hdone
      have hunbound : none ∈ s.sources := by
        refine h.sources.none_mem.2 ⟨0, ?_, fun _ => List.not_mem_nil⟩
        exact List.length_pos_of_ne_nil (hfed.resolve_right fun hne => hne rfl)
      rw [h.new rfl, boundState_eq, if_pos hunbound]
    · exact h.derived hdone hlast
  rw [hstate, boundState_eq]
  by_cases hin : none ∈ s.sources
  · have hin' := h.sources.none_mem.1 hin
    rw [if_pos hin]
    constructor <;> simp [hlast, hin']
  have hin' := mt h.sources.none_mem.2 hin
  rw [if_neg hin]
  by_cases hout : none ∈ s.sinks
  · have hout' := h.sinks.none_mem.1 hout
    rw [if_pos hout]
    constructor <;> simp [hlast, hin', hout']
  · have hout' := mt h.sinks.none_mem.2 hout
    rw [if_neg hout]
    constructor <;> simp [hlast, hin', hout']

/-! ## One call -/

theorem outcome_rebind (f : Session → Except Error Session) (s : Session) (m : Machine) :
    outcome (rebind f) (s, m) = match f s with
      | .ok s' => (.ok (), (s', m))
      | .error e => (.error (.error e), (s, m)) := by
  rw [rebind, outcome_bind_of_ok (outcome_get _), outcome_bind, outcome_lift]
  cases f s with
  | ok s' => rfl
  | error e => rfl

theorem Tracked.setInput (h : Tracked p done s) (hs : s.setInput slot buffer = .ok s') :
    Tracked p (done ++ [.setInput slot buffer]) s' := by
  obtain ⟨b, hb, hs⟩ := bind_eq_ok.1 hs
  cases hs
  obtain ⟨i, hi, -⟩ := bind_of hb
  have hslot : slot < p.model.inputs.length := h.plan ▸ (List.getElem?_eq_some_iff.1 hi).1
  exact {
    plan := h.plan
    sources := h.sources.set (fun he => (Call.setInput.inj he).1) hslot buffer b
    sinks := h.sinks.other fun _ _ he => by cases he
    ran := fun hlast => by simp at hlast
    derived := fun _ _ => rfl
    new := fun hnil => by simp at hnil }

theorem Tracked.setOutput (h : Tracked p done s) (hs : s.setOutput slot buffer = .ok s') :
    Tracked p (done ++ [.setOutput slot buffer]) s' := by
  obtain ⟨b, hb, hs⟩ := bind_eq_ok.1 hs
  cases hs
  obtain ⟨i, hi, -⟩ := bind_of hb
  have hslot : slot < p.model.outputs.length := h.plan ▸ (List.getElem?_eq_some_iff.1 hi).1
  exact {
    plan := h.plan
    sources := h.sources.other fun _ _ he => by cases he
    sinks := h.sinks.set (fun he => (Call.setOutput.inj he).1) hslot buffer b
    ran := fun hlast => by simp at hlast
    derived := fun _ _ => rfl
    new := fun hnil => by simp at hnil }

/-! ## Runs -/

/-- The sessions are on one plan, have the same inputs and the same slots bound, and are in the same
state. -/
structure SameSlots (x y : Session × Machine) : Prop where
  plan : y.1.plan = x.1.plan
  sources : y.1.sources = x.1.sources
  sinks : y.1.sinks.map (·.isSome) = x.1.sinks.map (·.isSome)
  state : y.1.state = x.1.state

instance : IsPreorder (Session × Machine) SameSlots where
  refl _ := ⟨rfl, rfl, rfl, rfl⟩
  trans _ _ _ h h' := ⟨h'.plan.trans h.plan, h'.sources.trans h.sources, h'.sinks.trans h.sinks,
    h'.state.trans h.state⟩

theorem keeps_pullOne (slot : SlotId) : Keeps SameSlots (pullOne slot) := by
  intro (s, m)
  have hsame : ∀ m', SameSlots (s, m) (s, m') := fun _ => ⟨rfl, rfl, rfl, rfl⟩
  rw [pullOne, outcome_bind_of_ok (outcome_get _)]
  dsimp only
  split
  · rename_i b hb
    split
    · rename_i t _ _
      rw [outcome_bind, onMachine_eq]
      cases hr : outcome (b.pull t) m with
      | mk r m' =>
        cases r with
        | error e => exact hsame m'
        | ok b' =>
          -- A slot that had a binding gets another one.
          refine ⟨rfl, rfl, ?_, rfl⟩
          show (s.sinks.set slot (some b')).map (·.isSome) = s.sinks.map (·.isSome)
          obtain ⟨hlt, hb⟩ := List.getElem?_eq_some_iff.1 hb
          have hlt' : slot < (s.sinks.map (·.isSome)).length := by simpa using hlt
          have hsome : (some b').isSome = (s.sinks.map (·.isSome))[slot] := by simp [hb]
          rw [List.map_set, hsome, List.set_getElem_self]
    · exact hsame m
  · exact hsame m

/-- A run leaves the slots as they are bound, and the state as it was unless it succeeds. -/
theorem run_leaves (s : Session) (m : Machine) : Ends (outcome Session.run (s, m))
    (fun _ y => SameSlots ({ s with state := .ran }, m) y) (fun _ y => SameSlots (s, m) y) := by
  have hmachine : ∀ {α : Type} (t : Task α), Keeps SameSlots (onMachine t) :=
    fun t x => ⟨rfl, rfl, rfl, rfl⟩
  have hself : SameSlots (s, m) (s, m) := refl_of SameSlots _
  rw [run, outcome_bind_of_ok (outcome_get _)]
  refine Ends.bind (Ends.lift (fun _ _ => ?_) fun _ _ => hself)
  refine Ends.bind (((hmachine _).ends hself).mono (fun _ y hy => ?_) fun _ _ hy => hy)
  refine Ends.bind (((hmachine _).ends hy).mono (fun _ y hy => ?_) fun _ _ hy => hy)
  refine Ends.bind (((Keeps.forM keeps_pullOne _).ends hy).mono (fun _ y hy => ?_) fun _ _ hy => hy)
  exact ⟨hy.plan, hy.sources, hy.sinks, rfl⟩

theorem SameSlots.boundState {x y : Session × Machine} (h : SameSlots x y) :
    y.1.boundState = x.1.boundState := by
  have hany : ∀ bs : List (Option Binding), bs.any (·.isNone) = (bs.map (·.isSome)).any (!·) := by
    intro bs
    simp [List.any_map, Function.comp_def]
  simp only [Session.boundState, hany, h.sources, h.sinks]

/-- A run that succeeds. -/
theorem Tracked.run {y : Session × Machine} (h : Tracked p done s)
    (hy : SameSlots ({ s with state := .ran }, m) y) : Tracked p (done ++ [.run]) y.1 where
  plan := hy.plan.trans h.plan
  sources := by
    rw [hy.sources]
    exact h.sources.other fun _ _ he => by cases he
  sinks := (h.sinks.congr hy.sinks).other fun _ _ he => by cases he
  ran _ := hy.state
  derived _ hlast := by simp at hlast
  new hnil := by simp at hnil

/-- A run that fails. -/
theorem Tracked.failed {y : Session × Machine} (h : Tracked p done s) (hy : SameSlots (s, m) y) :
    Tracked p done y.1 where
  plan := hy.plan.trans h.plan
  sources := by
    rw [hy.sources]
    exact h.sources
  sinks := h.sinks.congr hy.sinks
  ran hlast := hy.state.trans (h.ran hlast)
  derived hne hlast := (hy.state.trans (h.derived hne hlast)).trans hy.boundState.symm
  new hnil := hy.state.trans (h.new hnil)

/-- What one call does to a session that is tracked. -/
theorem Tracked.advance (h : Tracked p done s) (c : Machine × Call) :
    Tracked p (advance (s, done) c).2 (advance (s, done) c).1 := by
  obtain ⟨m, c⟩ := c
  unfold Session.advance
  cases c with
  | setInput slot buffer =>
    simp only [Call.task, outcome_rebind]
    cases hs : s.setInput slot buffer with
    | ok s' => exact h.setInput hs
    | error e => exact h
  | setOutput slot buffer =>
    simp only [Call.task, outcome_rebind]
    cases hs : s.setOutput slot buffer with
    | ok s' => exact h.setOutput hs
    | error e => exact h
  | run =>
    have hrun := run_leaves s m
    revert hrun
    simp only [Call.task]
    obtain ⟨r, y⟩ := outcome Session.run (s, m)
    cases r with
    | ok u => exact h.run
    | error e => exact h.failed

/-! ## Any calls -/

theorem Tracked.start (p : Plan) : Tracked p [] (Session.new p) where
  plan := rfl
  sources := .start
  sinks := .start
  ran hlast := by cases hlast
  derived hne := absurd rfl hne
  new _ := rfl

theorem tracked (p : Plan) (calls : List (Machine × Call)) :
    Tracked p (history p calls).2 (history p calls).1 := by
  induction calls using List.reverseRecOn with
  | nil => exact .start p
  | append_singleton calls c ih =>
    rw [history, List.foldl_append]
    exact ih.advance c

/-- **The state of a session follows its bindings**, after any calls on it, on any plan and whatever
machine each call meets: it is `ran` if the last call that succeeded was a run, and otherwise it says
which slots were bound so far. A plan without inputs is excepted until a call has succeeded. -/
theorem state_follows (p : Plan) (calls : List (Machine × Call))
    (hfed : p.model.inputs ≠ [] ∨ (history p calls).2 ≠ []) :
    StateFollows p (history p calls).2 (history p calls).1.state :=
  (tracked p calls).follows hfed

/-- A constant row that is copied. -/
def unfed : Model :=
  let row : Edit OperandId := Model.addOperand [1, 2] { element := .float32 }
  (Model.addOutput 1).on ((Model.addOperation ⟨[0], [1], .nop⟩).on
    ((Model.setValue 0 [0, 0, 128, 63, 0, 0, 0, 64]).on
      (row.on (row.on {}).2).2).2).2 |>.2

@[irreducible] def unfedCompiled : Except Failure Plan × Platform :=
  outcome (compile unfed {}) ({} : Settings).platform

/-- The plan that the compilation made. -/
def unfedPlan : Plan := unfedCompiled.1.toOption.getD ⟨unfed, [], []⟩

/-- A run before the output is bound, then the binding and a run that succeeds. -/
def unfedCalls : List (Machine × Call) :=
  [.run, .setOutput 0 [1, 2, 3, 4, 5, 6, 7, 8, 9], .run].map (unfedCompiled.2.machine, ·)

/-- The last call that succeeded was a run. -/
theorem state_follows_unfed : (history unfedPlan unfedCalls).2 ≠ [] ∧
    StateFollows unfedPlan (history unfedPlan unfedCalls).2
      (history unfedPlan unfedCalls).1.state := by
  have hne : (history unfedPlan unfedCalls).2 ≠ [] := by decide +kernel
  exact ⟨hne, state_follows unfedPlan unfedCalls (.inr hne)⟩

/-- **The state of a new session need not follow its bindings**: on a plan without inputs every input
is bound, and the session is `created` all the same. -/
theorem unfed_state : unfedCompiled.1 = .ok unfedPlan ∧
    (history unfedPlan []).1.state = .created ∧ (history unfedPlan []).1.boundState = .inputsBound ∧
      ¬StateFollows unfedPlan (history unfedPlan []).2 (history unfedPlan []).1.state := by
  refine ⟨by decide +kernel, rfl, by decide +kernel, fun h => ?_⟩
  have hlast : (history unfedPlan []).2.getLast? ≠ some .run := by
    intro he
    cases he
  obtain ⟨slot, hslot, -⟩ := (h.created hlast).1 rfl
  have hnone : unfedPlan.model.inputs.length = 0 := by decide +kernel
  rw [hnone] at hslot
  exact absurd hslot (Nat.not_lt_zero slot)

end Session

end HeteroNet
