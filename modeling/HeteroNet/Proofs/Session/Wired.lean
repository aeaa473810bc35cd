import HeteroNet.Session
import HeteroNet.Proofs.Call
import HeteroNet.Proofs.Lists
import HeteroNet.Proofs.Model.Words

/-
Sessions as callers make them. Whatever was bound and however often a session ran, each binding is
of the operand of its slot, in that operand's shape and type, and its buffer is long enough for it
(`Made.wired`). A run may write over the start of an output buffer, and changes nothing else.
-/

namespace HeteroNet

open Model

/-- The binding is of operand `i`, and its buffer is long enough. -/
structure Binding.Of (os : Operands) (i : OperandId) (b : Binding) : Prop where
  operand : b.operand = i
  known : ∃ o, os[i]? = some o ∧ b.element = o.element ∧ b.shape.elements = o.shape.elements ∧
    o.byteSize ≤ b.buffer.length

theorem SlotShape.elements_ofShape {i : OperandId} {s : Shape} {slot : SlotShape}
    (h : SlotShape.ofShape i s = .ok slot) : slot.elements = s.elements := by
  unfold SlotShape.ofShape at h
  split at h
  · cases h
    simp [elements, Shape.elements]
  · cases h
    exact (Shape.elements_dims _).symm
  · cases h

theorem Binding.create_of {os : Operands} {i : OperandId} {o : Operand} {buffer : Bytes}
    {b : Binding} (ho : os[i]? = some o) (h : Binding.create i o buffer = .ok b) :
    b.Of os i ∧ b.buffer = buffer := by
  obtain ⟨shape, hshape, h⟩ := bind_eq_ok.1 h
  dsimp only at h
  split at h
  · cases h
  · rename_i hlen
    cases h
    exact ⟨⟨rfl, o, ho, rfl, SlotShape.elements_ofShape hshape, Nat.not_lt.1 hlen⟩, rfl⟩

theorem Binding.length_overwrite (b : Binding) (ws : Buffer) :
    b.buffer.length ≤ (b.overwrite ws).buffer.length := by
  simp only [overwrite, List.length_append, List.length_drop]
  omega

theorem Binding.Of.overwrite {os : Operands} {i : OperandId} {b : Binding} (h : b.Of os i)
    (ws : Buffer) : (b.overwrite ws).Of os i := by
  obtain ⟨hi, o, ho, he, hs, hlen⟩ := h
  exact ⟨hi, o, ho, he, hs, hlen.trans (b.length_overwrite ws)⟩

/-- What is bound to a list of operands. -/
def Slots (os : Operands) (is : List OperandId) (bs : List (Option Binding)) : Prop :=
  List.Forall₂ (fun i b => ∀ b' ∈ b, Binding.Of os i b') is bs

section

variable {os : Operands} {is : List OperandId} {bs : List (Option Binding)} {slot : SlotId}
  {i : OperandId} {b : Binding}

/-- The elements of a bound operand lie in its buffer. -/
theorem Slots.fits (h : Slots os is bs) (hb : some b ∈ bs) :
    b.shape.elements * b.element.size ≤ b.buffer.length := by
  obtain ⟨i, -, hof⟩ := (mem_of_forall₂ h).1 _ hb
  obtain ⟨o, -, helement, helements, hlength⟩ := (hof b rfl).known
  rw [helement, helements]
  exact hlength

theorem Slots.none (os : Operands) (is : List OperandId) :
    Slots os is (List.replicate is.length none) := by
  induction is with
  | nil => exact .nil
  | cons i is ih => exact .cons (by simp) ih

theorem Slots.set (h : Slots os is bs) (hi : is[slot]? = some i) (hb : b.Of os i) :
    Slots os is (bs.set slot (some b)) := by
  induction h generalizing slot with
  | nil => cases hi
  | @cons j c is bs hc hrest ih =>
    cases slot with
    | zero =>
      obtain rfl : j = i := Option.some.inj hi
      exact .cons (by simpa using hb) hrest
    | succ slot => exact .cons hc (ih hi)

theorem Slots.getElem? (h : Slots os is bs) (hb : bs[slot]? = some (some b)) :
    ∃ i, is[slot]? = some i ∧ b.Of os i := by
  induction h generalizing slot with
  | nil => cases hb
  | @cons j c is bs hc _ ih =>
    cases slot with
    | zero =>
      obtain rfl : c = some b := Option.some.inj hb
      exact ⟨j, rfl, hc b rfl⟩
    | succ slot => exact ih hb

end

namespace Session

/-- The sessions on a plan that the calls of a caller lead to. Nothing is said of the machine on
which a run takes place. -/
inductive Made (p : Plan) : Session → Prop
  | new : Made p (Session.new p)
  | setInput {s s' : Session} (slot : SlotId) (buffer : Bytes) :
    Made p s → s.setInput slot buffer = .ok s' → Made p s'
  | setOutput {s s' : Session} (slot : SlotId) (buffer : Bytes) :
    Made p s → s.setOutput slot buffer = .ok s' → Made p s'
  | run {s s' : Session} {m m' : Machine} {answer : Except Failure Unit} :
    Made p s → outcome Session.run (s, m) = (answer, (s', m')) → Made p s'

/-- Every binding fits its slot. -/
structure Wired (p : Plan) (s : Session) : Prop where
  plan : s.plan = p
  sources : Slots p.model.operands p.model.inputs s.sources
  sinks : Slots p.model.operands p.model.outputs s.sinks

variable {p : Plan} {s s' : Session} {m m' : Machine}

theorem bind_of {is : List OperandId} {slot : SlotId} {buffer : Bytes} {b : Binding}
    (h : s.bind is slot buffer = .ok b) :
    ∃ i, is[slot]? = some i ∧ b.Of s.plan.model.operands i ∧ b.buffer = buffer := by
  unfold bind at h
  split at h
  · cases h
  · rename_i i hi
    obtain ⟨o, ho, h⟩ := bind_eq_ok.1 h
    obtain ⟨hb, hbuffer⟩ := Binding.create_of (Operands.get_eq_ok.1 ho) h
    exact ⟨i, hi, hb, hbuffer⟩

theorem Wired.setInput {slot : SlotId} {buffer : Bytes} (h : s.Wired p)
    (hs : s.setInput slot buffer = .ok s') : s'.Wired p := by
  obtain ⟨b, hb, hs⟩ := bind_eq_ok.1 hs
  cases hs
  obtain ⟨rfl, hsources, hsinks⟩ := h
  obtain ⟨i, hi, hb, -⟩ := bind_of hb
  exact ⟨rfl, hsources.set hi hb, hsinks⟩

theorem Wired.setOutput {slot : SlotId} {buffer : Bytes} (h : s.Wired p)
    (hs : s.setOutput slot buffer = .ok s') : s'.Wired p := by
  obtain ⟨b, hb, hs⟩ := bind_eq_ok.1 hs
  cases hs
  obtain ⟨rfl, hsources, hsinks⟩ := h
  obtain ⟨i, hi, hb, -⟩ := bind_of hb
  exact ⟨rfl, hsources, hsinks.set hi hb⟩

/-- What a session reads of an input and writes of an output ends within the caller's buffer. -/
theorem Wired.fits {b : Binding} (h : s.Wired p) (hb : some b ∈ s.sources ++ s.sinks) :
    b.shape.elements * b.element.size ≤ b.buffer.length := by
  rcases List.mem_append.1 hb with hsource | hsink
  · exact h.sources.fits hsource
  · exact h.sinks.fits hsink

/-! ## Runs -/

theorem onMachine_eq {α : Type} (t : Task α) (s : Session) (m : Machine) :
    outcome (onMachine t) (s, m) = ((outcome t m).1, (s, (outcome t m).2)) := rfl

/-- A call that leaves a session wired, if it was. -/
def StaysWired (p : Plan) (x y : Session × Machine) : Prop := x.1.Wired p → y.1.Wired p

instance (p : Plan) : IsPreorder (Session × Machine) (StaysWired p) where
  refl _ := id
  trans _ _ _ h h' := h' ∘ h

/-- Pulling an output overwrites the start of its buffer. -/
theorem pull_ok {b b' : Binding} {t : Tensor} (h : outcome (b.pull t) m = (.ok b', m')) :
    ∃ ws, b' = b.overwrite ws := by
  obtain ⟨ws, _, -, h⟩ := outcome_bind_ok.1 h
  cases h
  exact ⟨ws, rfl⟩

theorem pullOne_wired (slot : SlotId) : Keeps (StaysWired p) (pullOne slot) := by
  rintro ⟨s, m⟩ hs
  rw [pullOne, outcome_bind_of_ok (outcome_get _)]
  dsimp only
  split
  · rename_i b hb
    split
    · rename_i t _ _
      rw [outcome_bind, onMachine_eq]
      cases hr : outcome (b.pull t) m with
      | mk r m' =>
        cases r with
        | error e => exact hs
        | ok b' =>
          obtain ⟨ws, rfl⟩ := pull_ok hr
          obtain ⟨i, hi, hof⟩ := hs.sinks.getElem? hb
          exact ⟨hs.plan, hs.sources, hs.sinks.set hi (hof.overwrite ws)⟩
    · exact hs
  · exact hs

theorem run_wired : Keeps (StaysWired p) Session.run := by
  have hmachine : ∀ {α : Type} (t : Task α), Keeps (StaysWired p) (onMachine t) :=
    fun t s hs => hs
  refine Keeps.bind Keeps.get fun x => Keeps.bind (Keeps.lift _) fun _ =>
    Keeps.bind (hmachine _) fun _ => Keeps.bind (hmachine _) fun _ =>
    Keeps.bind (Keeps.forM pullOne_wired _) fun _ => ?_
  exact fun y hy => ⟨hy.plan, hy.sources, hy.sinks⟩

/-- **Every binding of a session fits its slot.** -/
theorem Made.wired (h : Made p s) : s.Wired p := by
  induction h with
  | new => exact ⟨rfl, .none _ _, .none _ _⟩
  | setInput slot buffer _ hs ih => exact ih.setInput hs
  | setOutput slot buffer _ hs ih => exact ih.setOutput hs
  | @run s s' m m' answer _ hr ih =>
    exact run_wired.of_eq hr ih

/-! ## Bound sessions -/

/-- In a session with all slots bound, every slot has a binding. -/
theorem requireBound_ok : s.requireBound = .ok () ↔
    (∀ b ∈ s.sources, b.isSome) ∧ ∀ b ∈ s.sinks, b.isSome := by
  have hfind : ∀ {bs : List (Option Binding)},
      bs.findIdx? (·.isNone) = none ↔ ∀ b ∈ bs, b.isSome := by
    intro bs
    rw [List.findIdx?_eq_none_iff]
    exact forall₂_congr fun b _ => by cases b <;> simp
  unfold requireBound
  rw [← hfind, ← hfind]
  split <;> simp_all [throw, throwThe, MonadExceptOf.throw, pure, Except.pure]

end Session

end HeteroNet
