import HeteroNet.Proofs.Model.Values
import HeteroNet.Proofs.Plan.Bound

/-
Finished plans. A plan has the steps of its operations, in order, on tensors that have cells of their
own (`Made`). As long as it is kept, its tensors have their memory, and those that nothing writes,
no operation and no caller, hold what they were filled with at first (`Kept`).

The steps of a plan do to memory what its operations do to logical words (`Made.run_holds`).
-/

namespace HeteroNet

open Operation Model

namespace Plan

/-- The plan has the steps of the operations `ops`. -/
structure Made (p : Plan) (ops : List (Operation × Placement)) : Prop where
  runs : Runs p.model ops
  table : Table p.model.operands (sites ops) p.builders
  apart : Apart p.builders
  steps : ∃ groups, p.runnables = groups.flatten ∧
    List.Forall₂ (Bound p.model.operands p.builders) ops groups

/-- The tensors of the plan are as a run expects them. -/
structure Kept (p : Plan) (ops : List (Operation × Placement)) (mem : Memory) : Prop where
  ready : AllReady p.builders mem
  initial : ∀ s t, tensorAt p.builders s = some t → s ∉ ops.flatMap writes →
    s.2 ∉ p.model.inputs →
    Layout.Stores t.layout t.info.shape (initial p.model.operands s) (mem.contents t.cell)

end Plan

variable {os : Operands} {sites : List Site} {bs : List TensorBuilder} {mem : Memory}
  {ops : List (Operation × Placement)} {groups : List (List Runnable)} {E : CellId → Buffer}
  {V : Words}

theorem Bound.works {q : Operation × Placement} {rs : List Runnable} (h : Bound os bs q rs) :
    ∃ ss o out k, q.1.Works os ss o out k := by
  cases h with
  | host _ hp => exact ⟨_, _, _, _, hp.works⟩
  | device _ _ hp => exact ⟨_, _, _, _, hp.works⟩
  | flattened _ _ _ hp => exact ⟨_, _, _, _, hp.works⟩
  | permute _ ha hx ho hxs hos => exact ⟨_, _, _, _, works_of_permute ha hx ho hxs hos⟩

/-- Effects of steps keep the sizes of all cells. -/
theorem foldl_effect_sized : ∀ {rs : List Runnable} {E : CellId → Buffer},
    (∀ r ∈ rs, r.Total mem) → SizedAs mem E → SizedAs mem (rs.foldl Runnable.effect E)
  | [], _, _, hE => hE
  | r :: rs, E, hr, hE => by
    rw [List.foldl_cons]
    exact foldl_effect_sized (fun r' hr' => hr r' (List.mem_cons_of_mem _ hr'))
      ((hr r (by simp)).effect_sized hE)

theorem Written.mono {sites' : List Site} {c : CellId} (h : Written bs sites c)
    (hs : sites ⊆ sites') : Written bs sites' c :=
  h.imp_left fun ⟨s, hs', ht⟩ => ⟨s, hs hs', ht⟩

/-- What is known of each step of a list of operations. -/
theorem bound_steps (hb : List.Forall₂ (Bound os bs) ops groups) (htable : Table os sites bs)
    (hn : Apart bs) (hready : AllReady bs mem) : ∀ r ∈ groups.flatten, r.Total mem ∧
      Written bs (ops.flatMap writes) r.output ∧
      (0 < r.commands → ∃ b ∈ bs, b.place = .device) := by
  induction hb with
  | nil => simp
  | @cons q rs ops groups hq _ ih =>
    intro r hr
    have hrealizes := hq.realizes htable hn hready
    rw [List.flatten_cons] at hr
    rcases List.mem_append.1 hr with hr | hr
    · exact ⟨hrealizes.total r hr,
        (hrealizes.written r hr).mono (List.subset_append_left _ _), hrealizes.device r hr⟩
    · obtain ⟨htotal, hw, hd⟩ := ih r hr
      exact ⟨htotal, hw.mono (List.subset_append_right _ _), hd⟩

/-- **The steps of operations do to memory what the operations do to logical words.** -/
theorem bound_holds (hb : List.Forall₂ (Bound os bs) ops groups) (htable : Table os sites bs)
    (hn : Apart bs) (hready : AllReady bs mem) (hsized : SizedAs mem E) (hV : Fit os V)
    (hE : Holds bs E V) :
    Holds bs (groups.flatten.foldl Runnable.effect E) (ops.foldl (act os) V) := by
  induction hb generalizing E V with
  | nil => exact hE
  | @cons q rs ops groups hq _ ih =>
    have hrealizes := hq.realizes htable hn hready
    obtain ⟨ss, o, out, k, hworks⟩ := hq.works
    rw [List.flatten_cons, List.foldl_append, List.foldl_cons]
    exact ih (foldl_effect_sized hrealizes.total hsized) (hworks.act_fit hV)
      (hrealizes.holds hsized hV hE)

/-! ## Writing tensors -/

/-- The tensors `l` were written with the words `V`; the others have the words they had. -/
structure Rewrites (bs : List TensorBuilder) (V : Words) (l : List Tensor) (E E' : CellId → Buffer) :
    Prop where
  tensors : ∀ s t, tensorAt bs s = some t →
    (t ∈ l → Layout.Stores t.layout t.info.shape (V s) (E' t.cell)) ∧
    (t ∉ l → E' t.cell = E t.cell)
  frame : ∀ c, (∀ t ∈ l, t.cell ≠ c) → E' c = E c

/-- The number of commands that writing tensors takes. -/
def commandsFor (l : List Tensor) : Nat := (l.map Tensor.commands).sum

theorem commandsFor_append (l l' : List Tensor) :
    commandsFor (l ++ l') = commandsFor l + commandsFor l' := by
  rw [commandsFor, List.map_append, List.sum_append]
  rfl

theorem Rewrites.nil : Rewrites bs V [] E E :=
  ⟨fun _ _ _ => ⟨fun ht => (by cases ht), fun _ => rfl⟩, fun _ _ => rfl⟩

variable {E' E'' : CellId → Buffer} {l l' : List Tensor} {W : CellId → Prop} {D : Prop}
  {m₀ m : Machine} {n : Nat}

theorem Rewrites.trans (h : Rewrites bs V l E E') (h' : Rewrites bs V l' E' E'') :
    Rewrites bs V (l ++ l') E E'' := by
  refine ⟨fun s t ht => ?_, fun c hc => ?_⟩
  · obtain ⟨hin, hout⟩ := h.tensors s t ht
    obtain ⟨hin', hout'⟩ := h'.tensors s t ht
    by_cases hl' : t ∈ l'
    · exact ⟨fun _ => hin' hl', fun hnot => absurd (List.mem_append_right _ hl') hnot⟩
    · rw [hout' hl']
      refine ⟨fun hmem => hin ((List.mem_append.1 hmem).resolve_right hl'), fun hnot => hout ?_⟩
      exact fun hl => hnot (List.mem_append_left _ hl)
  · rw [h'.frame c fun t ht => hc t (List.mem_append_right _ ht),
      h.frame c fun t ht => hc t (List.mem_append_left _ ht)]

/-- Writing one tensor of the table. -/
theorem Rewrites.single (hn : Apart bs) {s : Site} {t : Tensor}
    (ht : tensorAt bs s = some t) {y : Buffer}
    (hy : Layout.Stores t.layout t.info.shape (V s) y) :
    Rewrites bs V [t] E (Function.update E t.cell y) := by
  refine ⟨fun s' t' ht' => ?_, fun c hc => ?_⟩
  · by_cases hc : t'.cell = t.cell
    · have hs := hn.cell_injective ht' ht hc
      subst hs
      rw [ht, Option.some.injEq] at ht'
      subst ht'
      rw [Function.update_self]
      exact ⟨fun _ => hy, fun hnot => absurd (List.mem_singleton_self _) hnot⟩
    · rw [Function.update_of_ne hc]
      refine ⟨fun hmem => absurd ?_ hc, fun _ => rfl⟩
      rw [List.mem_singleton.1 hmem]
  · exact Function.update_of_ne (hc t (List.mem_singleton_self _)).symm _ _

/-- Tensors are written with as many words as they had. -/
theorem Rewrites.sized (h : Rewrites bs V l E E') (hl : ∀ t ∈ l, ∃ s, tensorAt bs s = some t)
    (hready : ∀ t ∈ l, t.Ready mem) (hE : SizedAs mem E) : SizedAs mem E' := by
  intro c
  by_cases hc : ∃ t ∈ l, t.cell = c
  · obtain ⟨t, ht, rfl⟩ := hc
    obtain ⟨s, hs⟩ := hl t ht
    rw [((h.tensors s t hs).1 ht).size]
    exact (hready t ht).size.symm
  · rw [h.frame c fun t ht htc => hc ⟨t, ht, htc⟩]
    exact hE c

/-- **Writing tensors of one operand**, each with its words. -/
theorem forM_rewrites {f : Tensor → Task Unit} {i : OperandId} (hn : Apart bs)
    (hf : ∀ {id t E n m}, tensorAt bs (id, i) = some t → Going W D m₀ E n m →
      ∃ m' y, outcome (f t) m = (.ok (), m') ∧
        Layout.Stores t.layout t.info.shape (V (id, i)) y ∧
        Going W D m₀ (Function.update E t.cell y) (n + t.commands) m') :
    ∀ {l : List Tensor} {E : CellId → Buffer} {n : Nat} {m : Machine},
      (∀ t ∈ l, ∃ id, tensorAt bs (id, i) = some t) → Going W D m₀ E n m →
      ∃ m' E', outcome (l.forM f) m = (.ok (), m') ∧
        Going W D m₀ E' (n + commandsFor l) m' ∧ Rewrites bs V l E E'
  | [], E, n, m, _, h => ⟨m, E, rfl, h, .nil⟩
  | t :: l, E, n, m, hl, h => by
    obtain ⟨id, ht⟩ := hl t (by simp)
    obtain ⟨m₁, y, hrun, hy, hgoing⟩ := hf ht h
    obtain ⟨m₂, E', hrun', hgoing', hrewrites⟩ := forM_rewrites hn hf
      (fun u hu => hl u (List.mem_cons_of_mem _ hu)) hgoing
    have hcommands : n + t.commands + commandsFor l = n + commandsFor (t :: l) := by
      rw [commandsFor, commandsFor, List.map_cons, List.sum_cons, Nat.add_assoc]
    rw [hcommands] at hgoing'
    refine ⟨m₂, E', ?_, hgoing', (Rewrites.single hn ht hy).trans hrewrites⟩
    rw [List.forM_eq_forM] at hrun' ⊢
    rw [List.forM_cons, outcome_bind_of_ok hrun, hrun']

end HeteroNet
