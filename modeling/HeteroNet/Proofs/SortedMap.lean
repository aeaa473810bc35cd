import HeteroNet.SortedMap

/-
Entries of sorted maps. Inserting keeps the other entries, and, if the keys are in a linear order,
it keeps them ascending; so no key has two entries.
-/

namespace HeteroNet.SortedMap

variable {κ α : Type} [DecidableEq κ]

theorem find?_mem {m : SortedMap κ α} {k : κ} {v : α} (h : m.find? k = some v) : (k, v) ∈ m := by
  induction m with
  | nil => cases h
  | cons p m ih =>
    obtain ⟨k', v'⟩ := p
    unfold find? at h
    split at h
    · rename_i hk
      cases h
      simp [hk]
    · exact List.mem_cons_of_mem _ (ih h)

theorem find?_isSome_iff {m : SortedMap κ α} {k : κ} :
    (m.find? k).isSome ↔ k ∈ m.map Prod.fst := by
  induction m with
  | nil => simp [find?]
  | cons p m ih =>
    obtain ⟨j, v⟩ := p
    by_cases hj : j = k
    · simp [find?, hj]
    · simp [find?, hj, Ne.symm hj, ih]

variable [LT κ] [DecidableLT κ]

theorem insert_mem_self (m : SortedMap κ α) (k : κ) (v : α) : (k, v) ∈ m.insert k v :=
  find?_mem (find?_insert_self m k v)

theorem mem_insert {m : SortedMap κ α} {k : κ} {v : α} {p : κ × α} (h : p ∈ m.insert k v) :
    p = (k, v) ∨ p ∈ m := by
  induction m with
  | nil => simpa [insert] using h
  | cons q m ih =>
    obtain ⟨k', v'⟩ := q
    unfold insert at h
    split at h
    · rcases List.mem_cons.1 h with rfl | h
      · exact .inl rfl
      · exact .inr (List.mem_cons_of_mem _ h)
    · split at h
      · exact List.mem_cons.1 h
      · rcases List.mem_cons.1 h with rfl | h
        · exact .inr (by simp)
        · exact (ih h).imp_right (List.mem_cons_of_mem _)

/-- A key keeps having an entry. -/
theorem insert_mem_key {m : SortedMap κ α} {k j : κ} {v : α} (w : α) (h : (j, w) ∈ m) :
    ∃ w', (j, w') ∈ m.insert k v := by
  induction m with
  | nil => cases h
  | cons q m ih =>
    obtain ⟨k', v'⟩ := q
    unfold insert
    split
    · rename_i hk
      rcases List.mem_cons.1 h with he | h
      · cases he
        exact ⟨v, by simp [hk]⟩
      · exact ⟨w, List.mem_cons_of_mem _ h⟩
    · split
      · exact ⟨w, List.mem_cons_of_mem _ h⟩
      · rcases List.mem_cons.1 h with he | h
        · exact ⟨w, by simp [he]⟩
        · obtain ⟨w', hw'⟩ := ih h
          exact ⟨w', List.mem_cons_of_mem _ hw'⟩

/-- The keys ascend. -/
def Ascending (m : SortedMap κ α) : Prop := (m.map Prod.fst).Pairwise (· < ·)

variable [LE κ] [Std.LawfulOrderLT κ]

omit [DecidableLT κ] in
theorem Ascending.find? {m : SortedMap κ α} (h : m.Ascending) {k : κ} {v : α} :
    m.find? k = some v ↔ (k, v) ∈ m := by
  refine ⟨find?_mem, fun hmem => ?_⟩
  induction m with
  | nil => cases hmem
  | cons q m ih =>
    obtain ⟨k', v'⟩ := q
    obtain ⟨hk', hm⟩ := List.pairwise_cons.1 h
    unfold SortedMap.find?
    rcases List.mem_cons.1 hmem with he | hmem
    · cases he
      simp
    · have hne : k' ≠ k := Std.ne_of_lt (hk' k (List.mem_map.2 ⟨_, hmem, rfl⟩))
      rw [if_neg hne]
      exact ih hm hmem

variable [Std.IsLinearOrder κ]

theorem Ascending.insert {m : SortedMap κ α} (h : m.Ascending) (k : κ) (v : α) :
    (m.insert k v).Ascending := by
  induction m with
  | nil => exact List.pairwise_singleton _ _
  | cons q m ih =>
    obtain ⟨k', v'⟩ := q
    obtain ⟨hk', hm⟩ := List.pairwise_cons.1 h
    unfold SortedMap.insert
    split
    · rename_i he
      subst he
      exact h
    · rename_i hne
      split
      · rename_i hlt
        refine List.pairwise_cons.2 ⟨fun j hj => ?_, h⟩
        rcases List.mem_cons.1 hj with rfl | hj
        · exact hlt
        · exact Std.lt_trans hlt (hk' j hj)
      · rename_i hge
        refine List.pairwise_cons.2 ⟨fun j hj => ?_, ih hm⟩
        obtain ⟨⟨j, w⟩, hp, rfl⟩ := List.mem_map.1 hj
        rcases mem_insert hp with he | hp
        · cases he
          exact Std.lt_of_le_of_ne (Std.not_lt.1 hge) hne
        · exact hk' _ (List.mem_map.2 ⟨_, hp, rfl⟩)

/-- What is in an ascending map after an insertion. -/
theorem Ascending.of_mem_insert {m : SortedMap κ α} (h : m.Ascending) {k j : κ} {v w : α}
    (hp : (j, w) ∈ m.insert k v) : (j = k ∧ w = v) ∨ (j ≠ k ∧ (j, w) ∈ m) := by
  by_cases hj : j = k
  · subst hj
    have hself := ((h.insert j v).find?).2 hp
    rw [find?_insert_self, Option.some.injEq] at hself
    exact .inl ⟨rfl, hself.symm⟩
  · exact .inr ⟨hj, (mem_insert hp).resolve_left fun he => hj (congrArg Prod.fst he)⟩

end HeteroNet.SortedMap

namespace HeteroNet

/-- Adding a member keeps a list ascending. -/
theorem insertSorted_ascending {i : Nat} {is : List Nat} (h : is.Pairwise (· < ·)) :
    (insertSorted i is).Pairwise (· < ·) := by
  induction is with
  | nil => exact List.pairwise_singleton _ _
  | cons j is ih =>
    obtain ⟨hj, his⟩ := List.pairwise_cons.1 h
    unfold insertSorted
    split
    · exact h
    · rename_i hne
      split
      · rename_i hlt
        refine List.pairwise_cons.2 ⟨fun k hk => ?_, h⟩
        rcases List.mem_cons.1 hk with rfl | hk
        · exact hlt
        · exact Nat.lt_trans hlt (hj k hk)
      · rename_i hge
        refine List.pairwise_cons.2 ⟨fun k hk => ?_, ih his⟩
        rcases mem_insertSorted.1 hk with rfl | hk
        · omega
        · exact hj k hk

end HeteroNet
