/-
Finite maps that list their entries in ascending order of the keys.
-/

namespace HeteroNet

abbrev SortedMap (κ α : Type) := List (κ × α)

namespace SortedMap

variable {κ α : Type} [DecidableEq κ] [LT κ] [DecidableLT κ]

def find? : SortedMap κ α → κ → Option α
  | [], _ => none
  | (k', v) :: rest, k => if k' = k then some v else find? rest k

/-- Sets the value of a key, in place or where the key belongs. -/
def insert : SortedMap κ α → κ → α → SortedMap κ α
  | [], k, v => [(k, v)]
  | (k', v') :: rest, k, v =>
    if k' = k then (k, v) :: rest
    else if k < k' then (k, v) :: (k', v') :: rest
    else (k', v') :: insert rest k v

def keys (m : SortedMap κ α) : List κ := m.map Prod.fst

@[simp] theorem find?_insert_self (m : SortedMap κ α) (k : κ) (v : α) :
    (m.insert k v).find? k = some v := by
  induction m with
  | nil => simp [insert, find?]
  | cons p m ih =>
    obtain ⟨k', v'⟩ := p
    by_cases h : k' = k
    · simp [insert, find?, h]
    · by_cases hlt : k < k'
      · simp [insert, find?, h, hlt]
      · simp [insert, find?, h, hlt, ih]

theorem find?_insert_other (m : SortedMap κ α) {k j : κ} (v : α) (hne : j ≠ k) :
    (m.insert k v).find? j = m.find? j := by
  have hkj : ¬k = j := fun h => hne h.symm
  induction m with
  | nil => simp [insert, find?, hkj]
  | cons p m ih =>
    obtain ⟨k', v'⟩ := p
    by_cases h : k' = k
    · subst h
      simp [insert, find?, hkj]
    · by_cases hlt : k < k'
      · simp [insert, find?, h, hlt, hkj]
      · simp [insert, find?, h, hlt, ih]

end SortedMap

/-- Adds a member to an ascending list, unless it is there. -/
def insertSorted (i : Nat) : List Nat → List Nat
  | [] => [i]
  | j :: rest => if j = i then j :: rest else if i < j then i :: j :: rest else j :: insertSorted i rest

@[simp] theorem mem_insertSorted {i j : Nat} {is : List Nat} :
    j ∈ insertSorted i is ↔ j = i ∨ j ∈ is := by
  induction is with
  | nil => simp [insertSorted]
  | cons k is ih =>
    unfold insertSorted
    split
    · rename_i h
      subst h
      simp
    · split
      · simp
      · simp only [List.mem_cons, ih]
        exact or_left_comm

end HeteroNet
