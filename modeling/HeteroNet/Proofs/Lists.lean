import Mathlib.Data.List.Nodup
import Mathlib.Data.List.Forall2

/-
Facts about lists that several proofs share.
-/

namespace HeteroNet

variable {α β : Type}

/-- An entry of a list keeps its place when more is appended. -/
theorem getElem?_append_some {l l' : List α} {i : Nat} {a : α} (h : l[i]? = some a) :
    (l ++ l')[i]? = some a := by
  obtain ⟨hi, -⟩ := List.getElem?_eq_some_iff.1 h
  rw [List.getElem?_append_left hi, h]

/-- A list around one of its entries. -/
theorem exists_around {l : List α} {k : Nat} {a : α} (h : l[k]? = some a) :
    ∃ before behind, l = before ++ a :: behind ∧ (∀ b, l.set k b = before ++ b :: behind) ∧
      l.eraseIdx k = before ++ behind := by
  induction l generalizing k with
  | nil => cases h
  | cons c l ih =>
    cases k with
    | zero =>
      obtain rfl : c = a := by simpa using h
      exact ⟨[], l, rfl, fun _ => rfl, rfl⟩
    | succ k =>
      obtain ⟨before, behind, rfl, hset, herase⟩ := ih (by simpa using h)
      exact ⟨c :: before, behind, rfl, fun b => by simp [hset], by simp [herase]⟩

/-- A partner for each entry of a list. -/
theorem exists_forall₂ {R : α → β → Prop} :
    ∀ {l : List α}, (∀ a ∈ l, ∃ b, R a b) → ∃ bs, List.Forall₂ R l bs
  | [], _ => ⟨[], .nil⟩
  | a :: l, h => by
    obtain ⟨b, hb⟩ := h a (by simp)
    obtain ⟨bs, hbs⟩ := exists_forall₂ fun a' ha' => h a' (List.mem_cons_of_mem _ ha')
    exact ⟨b :: bs, .cons hb hbs⟩

/-- Each entry of one of two lists that go together has a partner in the other. -/
theorem mem_of_forall₂ {R : α → β → Prop} {l : List α}
    {l' : List β}
    (h : List.Forall₂ R l l') : (∀ b ∈ l', ∃ a ∈ l, R a b) ∧ ∀ a ∈ l, ∃ b ∈ l', R a b := by
  induction h with
  | nil => simp
  | cons hab _ ih =>
    constructor
    · intro b hb
      rcases List.mem_cons.1 hb with rfl | hb
      · exact ⟨_, by simp, hab⟩
      · obtain ⟨a, ha, h⟩ := ih.1 b hb
        exact ⟨a, List.mem_cons_of_mem _ ha, h⟩
    · intro a ha
      rcases List.mem_cons.1 ha with rfl | ha
      · exact ⟨_, by simp, hab⟩
      · obtain ⟨b, hb, h⟩ := ih.2 a ha
        exact ⟨b, List.mem_cons_of_mem _ hb, h⟩

/-- Going together by way of a third list. -/
theorem forall₂_trans {γ : Type} {R : α → β → Prop} {S : β → γ → Prop} {T : α → γ → Prop}
    (hT : ∀ a b c, R a b → S b c → T a c) {l : List α} {l' : List β} {l'' : List γ}
    (h : List.Forall₂ R l l') (h' : List.Forall₂ S l' l'') : List.Forall₂ T l l'' := by
  induction h generalizing l'' with
  | nil =>
    rw [List.forall₂_nil_left_iff.1 h']
    exact .nil
  | cons hab _ ih =>
    obtain ⟨c, cs, hbc, hcs, rfl⟩ := List.forall₂_cons_left_iff.1 h'
    exact .cons (hT _ _ _ hab hbc) (ih hcs)

/-- A list without repetitions that has one member. -/
theorem eq_singleton {l : List α} {a : α} (hn : l.Nodup) (h : ∀ b, b ∈ l ↔ b = a) : l = [a] := by
  rw [← List.perm_singleton, List.perm_ext_iff_of_nodup hn (List.nodup_singleton a)]
  exact fun b => (h b).trans List.mem_singleton.symm

/-- Going through all places of a list gives its entries. -/
theorem map_getElem?_range (l : List α) : (List.range l.length).map (l[·]?) = l.map some := by
  refine List.ext_getElem? fun j => ?_
  rw [List.getElem?_map, List.getElem?_map]
  by_cases hj : j < l.length
  · simp [hj]
  · simp [Nat.not_lt.1 hj]

/-- What a function that may fail gives for all of a list. -/
theorem mapM_eq_some {f : α → Option β} :
    ∀ {l : List α} {bs : List β}, l.mapM f = some bs ↔ List.Forall₂ (fun a b => f a = some b) l bs
  | [], bs => by
    simp only [List.mapM_nil, Option.pure_def, Option.some.injEq, List.forall₂_nil_left_iff]
    exact eq_comm
  | a :: l, bs => by
    simp only [List.mapM_cons, Option.bind_eq_bind, Option.bind_eq_some_iff, Option.pure_def,
      Option.some.injEq, mapM_eq_some, List.forall₂_cons_left_iff]
    constructor
    · rintro ⟨b, hb, bs', hbs, rfl⟩
      exact ⟨b, bs', hb, hbs, rfl⟩
    · rintro ⟨b, bs', hb, hbs, rfl⟩
      exact ⟨b, hb, bs', hbs, rfl⟩

/-- A list that extends another one by elements that do not count. -/
theorem filterMap_of_extends {γ : Type} {f : α → Option γ} {g : β → Option γ} :
    ∀ {l : List α} {l' : List β},
      (∀ (j : Nat) y, l'[j]? = some y → ∃ x, l[j]? = some x ∧ f x = g y) →
      (∀ (j : Nat) x, l'.length ≤ j → l[j]? = some x → f x = none) →
      l.filterMap f = l'.filterMap g
  | l, [], _, hadded => by
    refine List.filterMap_eq_nil_iff.2 fun x hx => ?_
    obtain ⟨j, hj⟩ := List.mem_iff_getElem?.1 hx
    exact hadded j x (Nat.zero_le j) hj
  | [], y :: l', hold, _ => by
    obtain ⟨x, hx, -⟩ := hold 0 y rfl
    cases hx
  | x :: l, y :: l', hold, hadded => by
    obtain ⟨x', hx', hxy⟩ := hold 0 y rfl
    cases hx'
    have hrest := filterMap_of_extends (fun j y hy => hold (j + 1) y hy)
      fun j x hj hx => hadded (j + 1) x (Nat.succ_le_succ hj) hx
    rw [List.filterMap_cons, List.filterMap_cons, hrest, hxy]

end HeteroNet
