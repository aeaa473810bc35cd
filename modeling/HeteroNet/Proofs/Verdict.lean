import HeteroNet.Model.Order
import HeteroNet.Policy
import HeteroNet.Proofs.Call

/-
Verdicts. Looking up operands and operations, reading shapes and constants, the checks on a graph
and the search through it all fail in one way only: with an error that says what is wrong with the
model, or with the policy it is compiled for.

`Fails P x` is for calls without a state. It goes through `bind`, conditionals and loops, so that
most calls are settled by their leaves. For edits the same is said with `Ends`.
-/

namespace HeteroNet

section

variable {ε α β : Type} {P : ε → Prop}

/-- If the call fails, then as `P` says. -/
def Fails (P : ε → Prop) (x : Except ε α) : Prop := ∀ e, x = .error e → P e

@[simp] theorem fails_ok (a : α) : Fails P (.ok a) := fun _ h => by cases h

@[simp] theorem fails_pure (a : α) : Fails P (pure a : Except ε α) := fails_ok a

@[simp] theorem fails_error {e : ε} : Fails P (.error e : Except ε α) ↔ P e := by simp [Fails]

@[simp] theorem fails_throw {e : ε} : Fails P (throw e : Except ε α) ↔ P e := fails_error

@[simp] theorem fails_bind {x : Except ε α} {f : α → Except ε β} :
    Fails P (x >>= f) ↔ Fails P x ∧ ∀ a, x = .ok a → Fails P (f a) := by
  cases x with
  | ok a => simp [bind, Except.bind]
  | error e => simp [bind, Except.bind]

@[simp] theorem fails_map {x : Except ε α} {f : α → β} : Fails P (f <$> x) ↔ Fails P x := by
  rw [map_eq_pure_bind, fails_bind]
  exact and_iff_left fun a _ => fails_pure (f a)

@[simp] theorem fails_discard {x : Except ε α} : Fails P (discard x) ↔ Fails P x := fails_map

@[simp] theorem fails_ite {c : Prop} [Decidable c] {x y : Except ε α} :
    Fails P (if c then x else y) ↔ (c → Fails P x) ∧ (¬c → Fails P y) := by
  split <;> simp [*]

theorem fails_mapM {f : α → Except ε β} (hf : ∀ a, Fails P (f a)) :
    ∀ l : List α, Fails P (l.mapM f)
  | [] => by simp
  | a :: l => by
    rw [List.mapM_cons, fails_bind]
    exact ⟨hf a, fun b _ => fails_bind.2 ⟨fails_mapM hf l, fun bs _ => fails_pure _⟩⟩

theorem fails_forM {f : α → Except ε Unit} (hf : ∀ a, Fails P (f a)) (l : List α) :
    Fails P (l.forM f) := by
  intro e h
  obtain ⟨a, -, ha⟩ := forM_eq_error h
  exact hf a e ha

theorem fails_foldlM {f : β → α → Except ε β} (hf : ∀ b a, Fails P (f b a)) :
    ∀ (l : List α) (b : β), Fails P (l.foldlM f b)
  | [], b => fails_pure b
  | a :: l, b => by
    rw [List.foldlM_cons, fails_bind]
    exact ⟨hf b a, fun b' _ => fails_foldlM hf l b'⟩

end

/-! ## Verdicts -/

/-- The error says what is wrong with the model or with the policy. -/
def Error.IsVerdict : Error → Prop
  | .graph _ | .resolution _ => True
  | _ => False

def Failure.IsVerdict : Failure → Prop
  | .error e => e.IsVerdict
  | .outOfBounds | .oversized => False

/-- If the call fails, it is with a verdict. -/
abbrev Judges {α : Type} (x : Except Error α) : Prop := Fails Error.IsVerdict x

variable {α : Type} {os : Operands} {i : OperandId} {m : Model}

@[simp] theorem isVerdict_graph (e : GraphError) : (Error.graph e).IsVerdict := trivial

@[simp] theorem isVerdict_resolution (e : ResolutionError) : (Error.resolution e).IsVerdict :=
  trivial

@[simp] theorem isVerdict_error {e : Error} : (Failure.error e).IsVerdict ↔ e.IsVerdict := Iff.rfl

theorem Failure.IsVerdict.inside {e : Failure} (h : e.IsVerdict) : e ≠ .outOfBounds := by
  rintro rfl
  exact h

@[simp] theorem fails_lift {x : Except Error α} :
    Fails Failure.IsVerdict (liftM x : Except Failure α) ↔ Judges x := by
  cases x with
  | ok a => exact iff_of_true (fails_ok a) (fails_ok a)
  | error e => exact fails_error.trans (isVerdict_error.trans fails_error.symm)

/-! ## Operands -/

namespace Operands

@[simp] theorem judges_get : Judges (os.get i) := by
  unfold get
  split <;> simp

@[simp] theorem judges_shape : Judges (os.shape i) := by
  simp [shape]

@[simp] theorem judges_viewShape {view : Shape → Option α} {expected : String} :
    Judges (os.viewShape view expected i) := by
  unfold viewShape
  refine fails_bind.2 ⟨judges_shape, fun s _ => ?_⟩
  split <;> simp

@[simp] theorem judges_feature : Judges (os.feature i) := judges_viewShape

@[simp] theorem judges_weights : Judges (os.weights i) := judges_viewShape

@[simp] theorem judges_vector : Judges (os.vector i) := judges_viewShape

@[simp] theorem judges_matrix : Judges (os.matrix i) := judges_viewShape

@[simp] theorem judges_constantData : Judges (os.constantData i) := by
  unfold constantData
  refine fails_bind.2 ⟨judges_get, fun o _ => ?_⟩
  split <;> simp

@[simp] theorem judges_scalarWord {types : List ElementType} {expected : ElementType} :
    Judges (os.scalarWord types expected i) := by
  unfold scalarWord
  refine fails_bind.2 ⟨judges_constantData, fun _ _ => ?_⟩
  dsimp only
  split
  · exact fails_ok _
  · exact fails_error.2 (isVerdict_graph _)

@[simp] theorem judges_scalarInt : Judges (os.scalarInt i) := by
  simp [scalarInt]

@[simp] theorem judges_scalarFloat : Judges (os.scalarFloat i) := by
  simp [scalarFloat]

end Operands

/-! ## Graphs -/

@[simp] theorem Operation.judges_checkArity {op : Operation} : Judges op.checkArity := by
  simp [checkArity]

namespace Model

@[simp] theorem judges_operation {j : OperationId} : Judges (m.operation j) := by
  unfold operation
  split <;> simp

@[simp] theorem judges_placement {j : OperationId} : Judges (m.placement j) := by
  unfold placement
  split <;> simp

@[simp] theorem judges_requirePhase {p : Phase} : Judges (m.requirePhase p) := by
  simp [requirePhase]

@[simp] theorem judges_successors {j : OperationId} : Judges (m.successors j) := by
  simp [successors, fails_mapM]

end Model

namespace Search

variable {onOpen : OperandId → Except Error Unit}

theorem judges_step (hopen : ∀ via, Judges (onOpen via)) (s : Search) :
    Judges (s.step m onOpen) := by
  unfold step
  split
  · simp
  · refine fails_bind.2 ⟨Model.judges_successors, fun next _ => ?_⟩
    split
    · simp
    · dsimp only
      split <;> simp [hopen]

theorem judges_run (hopen : ∀ via, Judges (onOpen via)) :
    ∀ (fuel : Nat) (s : Search), Judges (run m onOpen fuel s)
  | 0, s => fails_ok s
  | fuel + 1, s => by
    unfold run
    refine fails_ite.2 ⟨fun _ => fails_ok s, fun _ => ?_⟩
    exact fails_bind.2 ⟨judges_step hopen s, fun s' _ => judges_run hopen fuel s'⟩

theorem judges_all (hopen : ∀ via, Judges (onOpen via)) : Judges (all m onOpen) := by
  refine fails_foldlM (fun s j => ?_) _ _
  unfold runFrom
  exact fails_ite.2 ⟨fun _ => judges_run hopen _ _, fun _ => fails_ok s⟩

end Search

namespace Model

theorem judges_checkIndices : Judges m.checkIndices := by
  refine fails_bind.2 ⟨fails_forM (fun op => ?_) _, fun _ _ => fails_forM (fun i => ?_) _⟩
  · exact fails_bind.2 ⟨by simp, fun _ _ => fails_forM (fun i => by simp) _⟩
  · simp

theorem judges_checkWriters : ∀ written before : List OperandId,
    Judges (m.checkWriters written before)
  | [], _ => fails_ok ()
  | i :: rest, before => by
    have ih := judges_checkWriters rest (i :: before)
    simp [checkWriters, ih]

theorem judges_checkRead : Judges (m.checkRead i) := by
  simp [checkRead]

theorem judges_checkOutput : Judges (m.checkOutput i) := by
  simp [checkOutput]

theorem judges_check : Judges m.check := by
  refine fails_bind.2 ⟨judges_checkIndices, fun _ _ => ?_⟩
  refine fails_bind.2 ⟨judges_checkWriters _ [], fun _ _ => ?_⟩
  refine fails_bind.2 ⟨?_, fun _ _ => fails_discard.2 (Search.judges_all fun _ => by simp)⟩
  exact fails_bind.2 ⟨fails_forM (fun op => fails_forM (fun i => judges_checkRead) _) _,
    fun _ _ => fails_forM (fun i => judges_checkOutput) _⟩

theorem judges_linearize : Judges m.linearize := by
  refine fails_bind.2 ⟨judges_requirePhase, fun _ _ => ?_⟩
  exact fails_bind.2 ⟨Search.judges_all fun _ => fails_pure _, fun _ _ => fails_pure _⟩

theorem judges_placedOperations (order : List OperationId) : Judges (m.placedOperations order) :=
  fails_mapM (fun j => by simp) order

theorem judges_tensorMarks (order : List OperationId) : Judges (m.tensorMarks order) :=
  fails_bind.2 ⟨judges_placedOperations order, fun _ _ => fails_pure _⟩

/-! ## Placements -/

@[simp] theorem judges_lookup {r : Registry} {id : BackendId} : Judges (r.lookup id) := by
  unfold Registry.lookup
  split <;> simp

theorem judges_resolve (policy : Policy) (r : Registry) : Judges (policy.resolve r m) :=
  fails_mapM (fun op => by simp) _

/-! ## Edits -/

/-- If the call fails, whatever the model, it is with a verdict. -/
def JudgesEach {α : Type} (t : Edit α) : Prop := ∀ m, Judges (outcome t m).1

namespace JudgesEach

variable {α β : Type}

theorem get : JudgesEach (MonadState.get : Edit Model) := fun m => fails_ok m

theorem modify (f : Model → Model) : JudgesEach (modifyThe Model f : Edit PUnit) :=
  fun _ => fails_ok _

theorem check {x : Except Error α} (h : Judges x) : JudgesEach (liftM x : Edit α) := fun _ => h

theorem bind {t : Edit α} {f : α → Edit β} (ht : JudgesEach t) (hf : ∀ a, JudgesEach (f a)) :
    JudgesEach (t >>= f) := by
  intro m
  have h := ht m
  rw [outcome_bind]
  revert h
  obtain ⟨r, m'⟩ := outcome t m
  cases r with
  | error e => exact fun h => fails_error.2 (fails_error.1 h)
  | ok a => exact fun _ => hf a m'

theorem forM {f : α → Edit PUnit} (hf : ∀ a, JudgesEach (f a)) : ∀ l : List α, JudgesEach (l.forM f)
  | [] => fun _ => fails_ok _
  | a :: l => by
    rw [List.forM_eq_forM, List.forM_cons, ← List.forM_eq_forM]
    exact (hf a).bind fun _ => forM hf l

end JudgesEach

theorem judges_linkUse (j : OperationId) (i : OperandId) : JudgesEach (linkUse j i) :=
  JudgesEach.get.bind fun _ => (JudgesEach.check Operands.judges_get).bind fun _ _ => fails_ok _

theorem judges_linkWriter (j : OperationId) (i : OperandId) : JudgesEach (linkWriter j i) := by
  refine JudgesEach.get.bind fun _ => (JudgesEach.check Operands.judges_get).bind fun o m => ?_
  cases o.writer with
  | none => exact fails_ok _
  | some w => exact fails_error.2 (isVerdict_graph _)

theorem judges_link : JudgesEach link :=
  (JudgesEach.modify _).bind fun _ => JudgesEach.get.bind fun _ => JudgesEach.forM (fun (op, j) =>
    (JudgesEach.forM (judges_linkUse j) op.inputs).bind fun _ =>
      JudgesEach.forM (judges_linkWriter j) op.outputs) _

/-- **A graph that is refused is refused with a verdict.** -/
theorem judges_finish : JudgesEach finish :=
  JudgesEach.get.bind fun _ => (JudgesEach.check judges_requirePhase).bind fun _ =>
    JudgesEach.get.bind fun _ => (JudgesEach.check judges_checkIndices).bind fun _ =>
      judges_link.bind fun _ => JudgesEach.get.bind fun _ =>
        (JudgesEach.check judges_check).bind fun _ => JudgesEach.modify _

end Model

end HeteroNet
