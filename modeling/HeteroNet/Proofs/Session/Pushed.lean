import HeteroNet.Proofs.Plan.Made
import HeteroNet.Proofs.Session.Wired

/-
Pushing the inputs. Each bound buffer has as many words as its operand has elements, and a run
writes them into every tensor of the operand. If an operand is bound twice, the later buffer wins;
so in the end the tensors hold what `Model.given` says.
-/

namespace HeteroNet

open Model

variable {m : Model} {p : Plan} {is : List OperandId} {i : OperandId} {b : Binding}
  {bs : List Binding}

/-! ## The words of a buffer -/

/-- A buffer that is long enough has all elements. -/
theorem length_take_decode {e : ElementType} {bytes : Bytes} {n : Nat}
    (h : n * e.size ≤ bytes.length) : ((e.decode bytes).take n).length = n := by
  rw [List.length_take, length_decode_eq, Nat.min_eq_left ((Nat.le_div_iff_mul_le e.size_pos).2 h)]

theorem Binding.Of.words (h : b.Of m.operands i) :
    m.words i b.buffer = some b.values.toArray := by
  obtain ⟨rfl, o, ho, he, hs, -⟩ := h
  rw [Model.words, ho, Option.map_some, Binding.values, he, hs]

theorem Binding.Of.size_values (h : b.Of m.operands i) {s : Shape}
    (hs : HasShape m.operands i s) : b.values.toArray.size = s.elements := by
  obtain ⟨-, o, ho, he, hshape, hlen⟩ := h
  obtain ⟨o', ho', rfl⟩ := hs
  rw [ho] at ho'
  cases ho'
  rw [List.size_toArray, Binding.values, hshape]
  exact length_take_decode (he ▸ hlen)

/-- What bindings give, each for its operand. -/
abbrev givenOf (m : Model) (is : List OperandId) (bs : List Binding) : OperandId → Option Buffer :=
  m.givenBy (is.zip (bs.map Binding.buffer))

theorem givenOf_sized (h : List.Forall₂ (fun i b => Binding.Of m.operands i b) is bs) :
    GivenSized m.operands (givenOf m is bs) := by
  induction h with
  | nil =>
    intro i ws s hi
    cases hi
  | @cons j b is bs hb _ ih =>
    intro i ws s hi hs
    rcases Option.or_eq_some_iff.1 hi with hi | ⟨-, hi⟩
    · exact ih hi hs
    · split at hi
      · rename_i hij
        subst hij
        rw [hb.words] at hi
        cases hi
        exact hb.size_values hs
      · cases hi

/-- Words are given for the operands that have a buffer. -/
theorem givenOf_isSome (h : List.Forall₂ (fun i b => Binding.Of m.operands i b) is bs) :
    (givenOf m is bs i).isSome ↔ i ∈ is := by
  induction h with
  | nil => simp [givenOf, givenBy]
  | @cons j b is bs hb _ ih =>
    have hor : (givenOf m (j :: is) (b :: bs) i).isSome ↔ (givenOf m is bs i).isSome ∨ j = i := by
      change ((givenOf m is bs i).or _).isSome ↔ _
      rw [Option.isSome_or, Bool.or_eq_true]
      refine or_congr_right ?_
      split
      · rename_i hij
        subst hij
        simp [hb.words]
      · simp [*]
    rw [hor, ih, List.mem_cons, or_comm, eq_comm]

/-- What is given for an operand is what the last binding for it gives. -/
theorem givenOf_last (h : List.Forall₂ (fun i b => Binding.Of m.operands i b) is bs) {ws : Buffer}
    (hws : givenOf m is bs i = some ws) : ∃ (k : Nat) (b : Binding), is[k]? = some i ∧
      (∀ k', k < k' → is[k']? ≠ some i) ∧ bs[k]? = some b ∧ ws = b.values.toArray := by
  induction h with
  | nil => cases hws
  | @cons j b is bs hb hrest ih =>
    rcases Option.or_eq_some_iff.1 hws with hws | ⟨hnone, hws⟩
    · obtain ⟨k, c, hk, hlast, hc, rfl⟩ := ih hws
      refine ⟨k + 1, c, hk, fun k' hk' => ?_, hc, rfl⟩
      obtain ⟨k', rfl⟩ : ∃ l, k' = l + 1 := ⟨k' - 1, by omega⟩
      exact hlast k' (Nat.lt_of_succ_lt_succ hk')
    · have hnone : givenOf m is bs i = none := hnone
      split at hws
      · rename_i hji
        subst hji
        rw [hb.words, Option.some.injEq] at hws
        refine ⟨0, b, rfl, fun k' hk' hj => ?_, rfl, hws.symm⟩
        obtain ⟨k', rfl⟩ : ∃ l, k' = l + 1 := ⟨k' - 1, by omega⟩
        rw [List.getElem?_cons_succ] at hj
        have hsome := (givenOf_isSome hrest).2 (List.mem_of_getElem? hj)
        rw [hnone] at hsome
        cases hsome
      · cases hws

/-! ## All inputs -/

variable {sites : List Site} {W : CellId → Prop} {D : Prop} {m₀ : Machine}

/-- Writing one binding into all tensors of its operand. -/
theorem push_going (htable : Table m.operands sites p.builders) (hn : Apart p.builders)
    (hready : AllReady p.builders m₀.memory) (hD : ∀ b ∈ p.builders, b.place = .device → D)
    (hW : ∀ id t, tensorAt p.builders (id, i) = some t → W t.cell)
    (hb : b.Of m.operands i) {E : CellId → Buffer} {n : Nat} {mach : Machine}
    (h : Going W D m₀ E n mach) :
    ∃ mach' E', outcome ((p.tensors i).forM b.push) mach = (.ok (), mach') ∧
      Going W D m₀ E' (n + commandsFor (p.tensors i)) mach' ∧
      (SizedAs m₀.memory E → SizedAs m₀.memory E') ∧
      ∀ V, Holds p.builders E V → Holds p.builders E'
        (push (fun j => if i = j then some b.values.toArray else none) V) := by
  obtain ⟨mach', E', hrun, hgoing, hrewrites⟩ := forM_rewrites (f := b.push)
    (V := fun _ => b.values.toArray) (i := i) hn (fun {id t E n mach} ht hgoing => by
      obtain ⟨-, hplace, ⟨builder, hmem, hbp⟩, o, ho, hinfo⟩ := htable.tensorAt_known ht
      have hsize : b.values.toArray.size = t.info.shape.elements :=
        hb.size_values ⟨o, ho, by rw [hinfo]⟩
      obtain ⟨y, hy⟩ := Layout.exists_stores (l := t.layout) hsize
      obtain ⟨mach', hrun, hgoing', -⟩ := t.writeLogical_going (hready.tensorAt ht)
        (hW id t ht) (fun hp => hD builder hmem (hbp.trans (hplace.symm.trans hp))) hy hgoing
      exact ⟨mach', y, hrun, hy, hgoing'⟩)
    (l := p.tensors i) (fun t ht => (htable.mem_tensors rfl).1 ht) h
  have htensors : ∀ t ∈ p.tensors i, ∃ id, tensorAt p.builders (id, i) = some t :=
    fun t ht => (htable.mem_tensors rfl).1 ht
  refine ⟨mach', E', hrun, hgoing, hrewrites.sized (fun t ht => ?_) fun t ht => ?_,
    fun V hV s t ht => ?_⟩
  · obtain ⟨id, ht⟩ := htensors t ht
    exact ⟨_, ht⟩
  · obtain ⟨id, ht⟩ := htensors t ht
    exact hready.tensorAt ht
  obtain ⟨hin, hout⟩ := hrewrites.tensors s t ht
  obtain ⟨id, j⟩ := s
  by_cases hij : i = j
  · subst hij
    rw [push, if_pos rfl]
    exact hin ((htable.mem_tensors rfl).2 ⟨id, ht⟩)
  · rw [push, if_neg hij, hout fun hmem => hij ?_]
    · exact hV _ t ht
    · obtain ⟨id', ht'⟩ := (htable.mem_tensors rfl).1 hmem
      exact congrArg Prod.snd (hn.cell_injective ht' ht rfl)

theorem push_givenOf (hb : b.Of m.operands i) (V : Words) :
    push (givenOf m (i :: is) (b :: bs)) V = push (givenOf m is bs)
      (push (fun j => if i = j then some b.values.toArray else none) V) := by
  funext s
  change ((givenOf m is bs s.2).or (if i = s.2 then m.words s.2 b.buffer else none)).getD (V s) =
    (givenOf m is bs s.2).getD ((if i = s.2 then some b.values.toArray else none).getD (V s))
  cases givenOf m is bs s.2 with
  | some ws => rfl
  | none =>
    rw [Option.none_or, Option.getD_none]
    split
    · rename_i hi
      rw [← hi, hb.words]
    · rfl

/-- **Pushing the inputs** leaves in the tensors what the buffers give. -/
theorem pushAll_going (htable : Table m.operands sites p.builders) (hn : Apart p.builders)
    (hready : AllReady p.builders m₀.memory) (hD : ∀ b ∈ p.builders, b.place = .device → D)
    (hbs : List.Forall₂ (fun i b => Binding.Of m.operands i b) is bs) :
    ∀ {E : CellId → Buffer} {n : Nat} {mach : Machine},
      (∀ i ∈ is, ∀ id t, tensorAt p.builders (id, i) = some t → W t.cell) →
      Going W D m₀ E n mach →
      ∃ mach' E', outcome (bs.forM fun b => (p.tensors b.operand).forM b.push) mach
          = (.ok (), mach') ∧
        Going W D m₀ E' (n + commandsFor (is.flatMap p.tensors)) mach' ∧
        (SizedAs m₀.memory E → SizedAs m₀.memory E') ∧
        ∀ V, Holds p.builders E V → Holds p.builders E' (push (givenOf m is bs) V) := by
  induction hbs with
  | nil => exact fun {E n mach} _ h => ⟨mach, E, rfl, h, id, fun V hV => hV⟩
  | @cons i b is bs hb _ ih =>
    intro E n mach hW h
    obtain ⟨mach₁, E₁, hrun, hgoing, hsized, hholds⟩ :=
      push_going htable hn hready hD (hW i (by simp)) hb h
    obtain ⟨mach₂, E₂, hrun', hgoing', hsized', hholds'⟩ :=
      ih (fun j hj => hW j (List.mem_cons_of_mem _ hj)) hgoing
    refine ⟨mach₂, E₂, ?_, ?_, hsized' ∘ hsized, fun V hV => ?_⟩
    · rw [List.forM_eq_forM] at hrun' ⊢
      rw [List.forM_cons, hb.operand, outcome_bind_of_ok hrun, hrun']
    · rwa [List.flatMap_cons, commandsFor_append, ← Nat.add_assoc]
    · rw [push_givenOf hb]
      exact hholds' _ (hholds V hV)

end HeteroNet
