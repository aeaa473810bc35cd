import HeteroNet.Proofs.Model.Calls

/-
Finishing a model that is refused. The refusal may come halfway through linking, so links of this
attempt are left in the operands, among those of earlier ones. No call reads them: building does not
look at links, and finishing computes all of them anew before it checks them. So two models that
differ in their links alone (`Alike`) answer every call alike and stay alike, and finishing makes them
equal.
-/

namespace HeteroNet

namespace Model

variable {α β : Type} {m m' : Model}

/-! ## What calls answer -/

/-- A call with its answer: the index of what it added, if it adds anything. -/
def Call.edit : Call → Edit (Option Nat)
  | addOperand shape type => some <$> Model.addOperand shape type
  | setValue i data => (fun _ => none) <$> Model.setValue i data
  | addOperation op => some <$> Model.addOperation op
  | addInput i => some <$> Model.addInput i
  | addOutput i => some <$> Model.addOutput i
  | finish => (fun _ => none) <$> Model.finish
  | lower ps => (fun _ => none) <$> Model.lower ps

theorem Call.after_eq (m : Model) (c : Call) : c.after m = (c.edit.on m).2 := by
  cases c <;> exact (congrArg Prod.snd (outcome_map _ _ m)).symm

/-- What calls answer that are made one after another. -/
def answers : List Call → Model → List (Except Error (Option Nat))
  | [], _ => []
  | c :: calls, m => (c.edit.on m).1 :: answers calls (c.after m)

/-! ## Models that differ in their links -/

/-- The models differ at most in the links of their operands, and only while they are built. -/
structure Alike (m m' : Model) : Prop where
  relinked : Relinked m m'
  closed : m.phase ≠ .building → m' = m

theorem Alike.refl : Alike m m := ⟨refl_of Relinked m, fun _ => rfl⟩

/-- While a model is built its links may differ. -/
theorem Relinked.alike (h : Relinked m m') (hb : m.phase = .building) : Alike m m' :=
  ⟨h, fun hne => absurd hb hne⟩

/-- Looking up an operand fails on both models alike, or gives operands that differ in their links. -/
theorem Relinked.get (h : Relinked m m') (i : OperandId) :
    (∃ e, m.operands.get i = .error e ∧ m'.operands.get i = .error e) ∨
      ∃ o o', m.operands.get i = .ok o ∧ m'.operands.get i = .ok o' ∧
        o'.clearLinks = o.clearLinks := by
  cases hi : m'.operands[i]? with
  | some o' =>
    obtain ⟨o, ho, he⟩ := h.operand hi
    exact .inr ⟨o, o', Operands.get_eq_ok.2 ho, Operands.get_eq_ok.2 hi, he⟩
  | none =>
    have hi' : m.operands[i]? = none := by
      rw [List.getElem?_eq_none_iff] at hi ⊢
      exact h.length ▸ hi
    exact .inl ⟨_, by rw [Operands.get, hi'], by rw [Operands.get, hi]⟩

theorem Relinked.checkIndices (h : Relinked m m') : m'.checkIndices = m.checkIndices := by
  have hget : ∀ i, discard (m'.operands.get i) = discard (m.operands.get i) := by
    intro i
    obtain ⟨e, he, he'⟩ | ⟨o, o', ho, ho', -⟩ := h.get i
    · rw [he, he']
    · rw [ho, ho']
      rfl
  simp only [Model.checkIndices, h.operations, h.inputs, h.outputs, hget]

/-- Linking starts by removing all links, so it does not see those it finds. -/
theorem Relinked.link (h : Relinked m m') : outcome link m' = outcome link m := by
  have hcleared : { m' with operands := m'.operands.map Operand.clearLinks } =
      { m with operands := m.operands.map Operand.clearLinks } := by
    obtain ⟨hos, hops, hps, hin, hout, hphase⟩ := h
    rw [hos, hops, hps, hin, hout, hphase]
  rw [Model.link, outcome_bind_of_ok (outcome_modify _ m'), outcome_bind_of_ok (outcome_modify _ m),
    hcleared]

/-! ## One call on both -/

/-- Two calls answer the same, and leave models that differ in their links at most. -/
structure Agree (r r' : Except Error α × Model) : Prop where
  answer : r'.1 = r.1
  left : Alike r.2 r'.2

namespace Agree

theorem refl (r : Except Error α × Model) : Agree r r := ⟨rfl, .refl⟩

theorem map {x : Edit α} (f : α → β) (h : Agree (outcome x m) (outcome x m')) :
    Agree (outcome (f <$> x) m) (outcome (f <$> x) m') := by
  rw [outcome_map, outcome_map]
  exact ⟨congrArg (Except.map f) h.answer, h.left⟩

/-- Both calls end with a new model and an answer. -/
theorem commit {s s' : Model} {a a' : α} (ha : a' = a) (hs : Alike s s') :
    Agree (outcome (do set s; return a : Edit α) m) (outcome (do set s'; return a' : Edit α) m') :=
  ⟨congrArg Except.ok ha, hs⟩

/-- A check that does not read links, and what follows it. -/
theorem check {x : Except Error β} {body body' : β → Edit α} (h : Alike m m')
    (hbody : ∀ b, x = .ok b → Agree (outcome (body b) m) (outcome (body' b) m')) :
    Agree (outcome (liftM x >>= body) m) (outcome (liftM x >>= body') m') := by
  cases x with
  | error e => exact ⟨rfl, h⟩
  | ok b => exact hbody b rfl

/-- A call that only a model in phase `p` takes. -/
theorem phase {p : Phase} {body : Model → Edit α} (h : Alike m m')
    (hbody : m.phase = p → Agree (outcome (body m) m) (outcome (body m') m')) :
    Agree (outcome (do
      let m ← get
      m.requirePhase p
      body m : Edit α) m) (outcome (do
      let m ← get
      m.requirePhase p
      body m : Edit α) m') := by
  have hp : m'.requirePhase p = m.requirePhase p := by
    simp only [requirePhase, h.relinked.phase]
  rw [outcome_bind_of_ok (outcome_get m), outcome_bind_of_ok (outcome_get m'), hp]
  exact check h fun _ hok => hbody (requirePhase_ok.1 hok)

/-- A call that looks up an operand. -/
theorem operand {body body' : Operand → Edit α} (h : Alike m m') (i : OperandId)
    (hbody : ∀ o o', m.operands[i]? = some o → o'.clearLinks = o.clearLinks →
      Agree (outcome (body o) m) (outcome (body' o') m')) :
    Agree (outcome (liftM (m.operands.get i) >>= body) m)
      (outcome (liftM (m'.operands.get i) >>= body') m') := by
  obtain ⟨e, he, he'⟩ | ⟨o, o', ho, ho', hlinks⟩ := h.relinked.get i
  · rw [he, he']
    exact ⟨rfl, h⟩
  · rw [ho, ho']
    exact hbody o o' (Operands.get_eq_ok.1 ho) hlinks

end Agree

theorem Alike.addOperand (h : Alike m m') (shape : Shape) (type : TypeInfo) :
    Agree (outcome (addOperand shape type) m) (outcome (addOperand shape type) m') := by
  refine Agree.phase h fun hb => Agree.commit h.relinked.length
    (Relinked.alike { h.relinked with operands := ?_ } hb)
  rw [List.map_append, List.map_append, h.relinked.operands]

theorem Alike.setValue (h : Alike m m') (i : OperandId) (data : Bytes) :
    Agree (outcome (setValue i data) m) (outcome (setValue i data) m') := by
  refine Agree.phase h fun hb => Agree.operand h i fun o o' _ hlinks => ?_
  change Agree (outcome (if data.length ≠ o.byteSize then _ else _ : Edit Unit) m)
    (outcome (if data.length ≠ o'.byteSize then _ else _ : Edit Unit) m')
  have hsize : o'.byteSize = o.byteSize := (congrArg Operand.byteSize hlinks :)
  rw [hsize]
  by_cases hlen : data.length ≠ o.byteSize
  · rw [if_pos hlen, if_pos hlen]
    exact ⟨rfl, h⟩
  · rw [if_neg hlen, if_neg hlen]
    have hdata : Operand.clearLinks { o' with data := some data } =
        Operand.clearLinks { o with data := some data } :=
      (congrArg (fun o : Operand => { o with data := some data }) hlinks :)
    have hset : (m'.operands.set i { o' with data := some data }).map Operand.clearLinks =
        (m.operands.set i { o with data := some data }).map Operand.clearLinks := by
      rw [List.map_set, List.map_set, h.relinked.operands, hdata]
    exact ⟨rfl, Relinked.alike { h.relinked with operands := hset } hb⟩

theorem Alike.addOperation (h : Alike m m') (op : Operation) :
    Agree (outcome (addOperation op) m) (outcome (addOperation op) m') :=
  Agree.phase h fun hb => Agree.check h fun _ _ =>
    Agree.commit (congrArg List.length h.relinked.operations) (Relinked.alike
      { h.relinked with operations := congrArg (· ++ [op]) h.relinked.operations } hb)

theorem Alike.addInput (h : Alike m m') (i : OperandId) :
    Agree (outcome (addInput i) m) (outcome (addInput i) m') :=
  Agree.phase h fun hb => Agree.operand h i fun _ _ _ _ =>
    Agree.commit (congrArg List.length h.relinked.inputs) (Relinked.alike
      { h.relinked with inputs := congrArg (· ++ [i]) h.relinked.inputs } hb)

theorem Alike.addOutput (h : Alike m m') (i : OperandId) :
    Agree (outcome (addOutput i) m) (outcome (addOutput i) m') :=
  Agree.phase h fun hb => Agree.operand h i fun _ _ _ _ =>
    Agree.commit (congrArg List.length h.relinked.outputs) (Relinked.alike
      { h.relinked with outputs := congrArg (· ++ [i]) h.relinked.outputs } hb)

/-- Up to linking, finishing checks indices alone, and from there on the models are equal. -/
theorem Alike.finish (h : Alike m m') : Agree (outcome finish m) (outcome finish m') := by
  refine Agree.phase h fun _ => ?_
  rw [outcome_bind_of_ok (outcome_get m), outcome_bind_of_ok (outcome_get m'),
    h.relinked.checkIndices]
  refine Agree.check h fun _ _ => ?_
  rw [outcome_bind _ _ m, outcome_bind _ _ m', h.relinked.link]
  exact .refl _

/-- Only a finished model is lowered, and there the two are equal. -/
theorem Alike.lower (h : Alike m m') (ps : List Placement) :
    Agree (outcome (lower ps) m) (outcome (lower ps) m') := by
  refine Agree.phase h fun hf => ?_
  rw [h.closed (by rw [hf]; decide)]
  exact .refl _

/-- **Models that differ in their links answer every call alike.** -/
theorem Alike.call (h : Alike m m') (c : Call) : Agree (c.edit.on m) (c.edit.on m') := by
  cases c with
  | addOperand shape type => exact (h.addOperand shape type).map some
  | setValue i data => exact (h.setValue i data).map fun _ => none
  | addOperation op => exact (h.addOperation op).map some
  | addInput i => exact (h.addInput i).map some
  | addOutput i => exact (h.addOutput i).map some
  | finish => exact h.finish.map fun _ => none
  | lower ps => exact (h.lower ps).map fun _ => none

/-! ## Any calls on both -/

theorem Alike.calls : ∀ (calls : List Call) {m m' : Model}, Alike m m' →
    answers calls m' = answers calls m ∧
      Alike (calls.foldl Call.after m) (calls.foldl Call.after m')
  | [], _, _, h => ⟨rfl, h⟩
  | c :: calls, m, m', h => by
    obtain ⟨hanswer, hleft⟩ := h.call c
    rw [← Call.after_eq, ← Call.after_eq] at hleft
    obtain ⟨hanswers, hcalls⟩ := Alike.calls calls hleft
    exact ⟨congrArg₂ List.cons hanswer hanswers, hcalls⟩

/-- The order of a lowered model is that of the other, and no order is given of one that is not. -/
theorem Alike.linearize (h : Alike m m') : m'.linearize = m.linearize := by
  by_cases hl : m.phase = .lowered
  · rw [h.closed (by rw [hl]; decide)]
  · simp only [Model.linearize, requirePhase, if_neg hl, h.relinked.phase]
    rfl

/-- **A model that could not be finished goes on as if nobody had tried.** Phase, operands but for
their links, operations, inputs and outputs are unchanged. Whatever calls follow, each answers as it
would have, the orders that can be read off are the same, and once the model is finished it is the one
that there would have been. -/
theorem finish_leaves_no_trace {e : Error} (hb : m.phase = .building)
    (h : finish.on m = (.error e, m')) :
    Relinked m m' ∧ ∀ calls : List Call,
      answers calls m' = answers calls m ∧
      (calls.foldl Call.after m').linearize = (calls.foldl Call.after m).linearize ∧
      Relinked (calls.foldl Call.after m) (calls.foldl Call.after m') ∧
      ((calls.foldl Call.after m).phase ≠ .building →
        calls.foldl Call.after m' = calls.foldl Call.after m) := by
  have hm : Relinked m m' := finish_error h
  refine ⟨hm, fun calls => ?_⟩
  obtain ⟨hanswers, hleft⟩ := Alike.calls calls (hm.alike hb)
  exact ⟨hanswers, hleft.linearize, hleft.relinked, hleft.closed⟩

/-- Two operations in a row, on a model whose caller has not named its input yet. -/
def unfed : Model :=
  let x : Call := .addOperand [1, 2] { element := .float32 }
  ofCalls [x, x, x, .addOperation ⟨[0], [1], .nop⟩, .addOperation ⟨[1], [2], .nop⟩, .addOutput 2]

/-- The refusal leaves the links of `unfed` behind. Its caller adds a third operation behind the
others and the missing input, then finishes and lowers the model. -/
theorem finish_leaves_no_trace_unfed :
    ∃ m', unfed.phase = .building ∧
      finish.on unfed = (.error (.graph (.undefinedOperand 0)), m') ∧ m' ≠ unfed ∧
      let calls : List Call := [.addOperand [1, 2] { element := .float32 },
        .addOperation ⟨[1], [3], .nop⟩, .addInput 0, .addOutput 3, .finish,
        .lower [⟨"cpu", .nhwc⟩, ⟨"cpu", .nhwc⟩, ⟨"gpu", .nhwc⟩]]
      answers calls m' = answers calls unfed ∧
      (calls.foldl Call.after unfed).phase = .lowered ∧
      calls.foldl Call.after m' = calls.foldl Call.after unfed := by
  have hb : unfed.phase = .building := by decide
  have herr : finish.on unfed = (.error (.graph (.undefinedOperand 0)), (finish.on unfed).2) :=
    outcome_eq (by decide +kernel)
  obtain ⟨-, hcalls⟩ := finish_leaves_no_trace hb herr
  refine ⟨(finish.on unfed).2, hb, herr, by decide +kernel, ?_⟩
  intro calls
  obtain ⟨hanswers, -, -, hequal⟩ := hcalls calls
  have hlowered : (calls.foldl Call.after unfed).phase = .lowered := by decide +kernel
  exact ⟨hanswers, hlowered, hequal (by rw [hlowered]; decide)⟩

end Model

end HeteroNet
