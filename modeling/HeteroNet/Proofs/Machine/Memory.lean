import HeteroNet.Tensor
import Mathlib.Logic.Function.Basic

/-
Memory, cell by cell. A run writes words into cells and does nothing else to memory: no cell is
made, moved, reserved or resized, and the cells outside of a set are not touched (`Rewritten`).
-/

namespace HeteroNet

/-- The cell but for its words, of which only the number counts. -/
def Cell.form (c : Cell) : Cell := { c with words := Buffer.zeros c.words.size }

theorem Cell.form_words {c : Cell} {words : Buffer} (h : words.size = c.words.size) :
    Cell.form { c with words } = c.form := by
  simp [form, h]

namespace Memory

variable {m m' m'' : Memory} {i j : CellId}

/-- The words of a cell. -/
def contents (m : Memory) (i : CellId) : Buffer := (m.cell i).words

theorem cell_modify_self {f : Cell → Cell} (h : i < m.length) :
    cell (m.modify i f) i = f (m.cell i) := by
  simp [cell, List.getD_eq_getElem?_getD, h]

theorem cell_modify_other {f : Cell → Cell} (h : i ≠ j) : cell (m.modify i f) j = m.cell j := by
  simp [cell, List.getD_eq_getElem?_getD, h]

/-- A change that leaves the default cell alone needs no bound. -/
theorem cell_modify_holds {P : Cell → Prop} {f : Cell → Cell} (hf : ∀ c, P c → P (f c))
    (h : P (m.cell j)) : P (cell (m.modify i f) j) := by
  by_cases hij : i = j
  · subst hij
    by_cases hi : i < m.length
    · rw [cell_modify_self hi]
      exact hf _ h
    · rwa [List.modify_eq_self (Nat.not_lt.1 hi)]
  · rwa [cell_modify_other hij]

/-- There is nothing beyond the end of memory. -/
theorem cell_of_le (h : m.length ≤ i) : m.cell i = default := by
  rw [cell, List.getD_eq_getElem?_getD, List.getElem?_eq_none h]
  rfl

theorem cell_append_left {cs : List Cell} (h : i < m.length) : cell (m ++ cs) i = m.cell i := by
  simp [cell, List.getD_eq_getElem?_getD, List.getElem?_append_left h]

theorem cell_append_new (c : Cell) : cell (m ++ [c]) m.length = c := by
  simp [cell, List.getD_eq_getElem?_getD]

@[simp] theorem length_store (w : Buffer) : (m.store i w).length = m.length := by
  simp [store]

theorem cell_store_self {w : Buffer} (h : i < m.length) :
    (m.store i w).cell i = { m.cell i with words := w } := cell_modify_self h

theorem cell_store_other {w : Buffer} (h : i ≠ j) : (m.store i w).cell j = m.cell j :=
  cell_modify_other h

theorem contents_store {w : Buffer} (h : i < m.length) :
    (m.store i w).contents = Function.update m.contents i w := by
  funext j
  by_cases hij : i = j
  · subst hij
    rw [Function.update_self, contents, cell_store_self h]
  · rw [Function.update_of_ne (Ne.symm hij), contents, cell_store_other hij, contents]

theorem load_eq_ok (h : (m.cell i).damaged = false) : m.load i = .ok (m.contents i) := by
  simp [load, h, contents]

/-- Nothing happened to memory but that words in the cells `W` were replaced. -/
structure Rewritten (W : CellId → Prop) (m m' : Memory) : Prop where
  length : m'.length = m.length
  form : ∀ i, (m'.cell i).form = (m.cell i).form
  same : ∀ i, ¬ W i → m'.cell i = m.cell i

namespace Rewritten

variable {W : CellId → Prop}

theorem refl : Rewritten W m m := ⟨rfl, fun _ => rfl, fun _ _ => rfl⟩

theorem trans (h : Rewritten W m m') (h' : Rewritten W m' m'') : Rewritten W m m'' where
  length := h'.length.trans h.length
  form i := (h'.form i).trans (h.form i)
  same i hi := (h'.same i hi).trans (h.same i hi)

theorem place (h : Rewritten W m m') (i : CellId) : (m'.cell i).place = (m.cell i).place :=
  (congrArg Cell.place (h.form i) :)

theorem reserved (h : Rewritten W m m') (i : CellId) :
    (m'.cell i).reserved = (m.cell i).reserved :=
  (congrArg Cell.reserved (h.form i) :)

theorem damaged (h : Rewritten W m m') (i : CellId) : (m'.cell i).damaged = (m.cell i).damaged :=
  (congrArg Cell.damaged (h.form i) :)

theorem size (h : Rewritten W m m') (i : CellId) :
    (m'.contents i).size = (m.contents i).size := by
  simpa only [Cell.form, Buffer.size_zeros, contents] using
    congrArg (fun c : Cell => c.words.size) (h.form i)

/-- Words are replaced by as many. -/
theorem store {w : Buffer} (hW : W i) (hi : i < m.length) (hw : w.size = (m.contents i).size) :
    Rewritten W m (m.store i w) where
  length := length_store w
  form j := by
    by_cases hij : i = j
    · subst hij
      rw [cell_store_self hi, Cell.form_words hw]
    · rw [cell_store_other hij]
  same j hj := cell_store_other fun hij => hj (hij ▸ hW)

end Rewritten

end Memory

end HeteroNet
