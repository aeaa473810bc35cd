import HeteroNet.Proofs.Machine.Charges
import HeteroNet.Proofs.Machine.Memory
import HeteroNet.Size
import Mathlib.Algebra.BigOperators.Group.List.Basic
import Mathlib.Algebra.Ring.Nat
import Mathlib.Data.List.Nodup

/-
What the device has given away, and to whom. `Accounted` says of a machine and of all handles on its
cells that every cell counts its handles, and that what the device has charged is the memory of the
cells that count some, counted in a word. One lemma for each way in which cells come to have handles,
memory, or neither.
-/

namespace HeteroNet

variable {limit : Option Nat} {owners owners' : List CellId} {m m' : Machine} {mem mem' : Memory}
  {i : CellId} {n : Nat} {bytes : UInt64}

/-! ## Sums -/

/-- Sums that differ at one place. -/
theorem sum_map_at {l : List CellId} (hl : l.Nodup) (hi : i ∈ l) {f g : CellId → Nat}
    (h : ∀ j ∈ l, j ≠ i → g j = f j) : (l.map g).sum + f i = (l.map f).sum + g i := by
  obtain ⟨before, behind, rfl⟩ := List.append_of_mem hi
  have hne : ∀ j ∈ before ++ behind, j ≠ i := fun j hj he =>
    (List.nodup_cons.1 (List.perm_middle.nodup_iff.1 hl)).1 (he ▸ hj)
  have hbefore : before.map g = before.map f := List.map_congr_left fun j hj =>
    h j (by simp [hj]) (hne j (by simp [hj]))
  have hbehind : behind.map g = behind.map f := List.map_congr_left fun j hj =>
    h j (by simp [hj]) (hne j (by simp [hj]))
  simp only [List.map_append, List.map_cons, List.sum_append, List.sum_cons, hbefore, hbehind]
  omega

theorem sum_map_filter (l : List CellId) (p : CellId → Bool) (f : CellId → Nat) :
    ((l.filter p).map f).sum = (l.map fun i => if p i then f i else 0).sum := by
  induction l with
  | nil => rfl
  | cons i l ih => cases h : p i <;> simp [h, ih]

/-! ## Buffers -/

/-- The buffer in a cell, once it has one. -/
def Cell.buffer (c : Cell) : Option Buffer := if c.reserved then some c.words else none

def bytesOf : Option Buffer → Nat
  | some words => 4 * words.size
  | none => 0

/-- What the device charges for the cell. -/
def Cell.charge (c : Cell) : Nat := if c.isCharged then c.bytes else 0

theorem Cell.charge_eq {c : Cell} (h : c.place = .device) :
    c.charge = if c.holders = 0 then 0 else bytesOf c.buffer := by
  cases hr : c.reserved <;> by_cases hh : c.holders = 0 <;>
    simp [charge, isCharged, buffer, bytesOf, bytes, h, hr, hh]

theorem Cell.charge_reserved {c : Cell} (h : c.place = .device) (hc : c.holders ≠ 0) (n : Nat) :
    Cell.charge { c with words := Buffer.zeros n, reserved := true } = 4 * n := by
  simp [charge, isCharged, bytes, h, hc]

/-- Only the first handle counts. -/
theorem Cell.charge_retain {c : Cell} (hc : c.holders ≠ 0) :
    Cell.charge { c with holders := c.holders + 1 } = c.charge := by
  simp [charge, isCharged, bytes, hc]

/-- The last handle gives back what is charged. -/
theorem Cell.charge_release {c : Cell} (hc : c.holders ≠ 0) :
    (if c.isCharged && c.holders == 1 then c.bytes else 0) +
      Cell.charge { c with holders := c.holders - 1 } = c.charge := by
  by_cases hone : c.holders = 1
  · simp [charge, isCharged, bytes, hone]
  · have hmore : c.holders - 1 ≠ 0 := by omega
    simp [charge, isCharged, bytes, hc, hone, hmore]

/-- What is charged depends on the number of words only. -/
theorem Cell.charge_form (c : Cell) : c.form.charge = c.charge := by
  simp [charge, isCharged, bytes, form]

namespace Memory

theorem Rewritten.holders {W : CellId → Prop} (h : Rewritten W mem mem') (i : CellId) :
    (mem'.cell i).holders = (mem.cell i).holders :=
  (congrArg Cell.holders (h.form i) :)

theorem Rewritten.charge {W : CellId → Prop} (h : Rewritten W mem mem') (i : CellId) :
    (mem'.cell i).charge = (mem.cell i).charge := by
  rw [← Cell.charge_form, h.form, Cell.charge_form]

def buffer (mem : Memory) (i : CellId) : Option Buffer := (mem.cell i).buffer

def charged (mem : Memory) : Nat := ((List.range mem.length).map fun i => (mem.cell i).charge).sum

theorem cell_append_other {c : Cell} (h : i ≠ mem.length) : cell (mem ++ [c]) i = mem.cell i := by
  rcases Nat.lt_or_gt_of_ne h with hlt | hgt
  · exact cell_append_left hlt
  · have hout : (mem ++ [c]).length ≤ i := by
      rw [List.length_append]
      exact hgt
    rw [cell_of_le hout, cell_of_le (Nat.le_of_lt hgt)]

theorem charged_append (mem : Memory) (c : Cell) :
    charged (mem ++ [c]) = mem.charged + c.charge := by
  have hold : ∀ i ∈ List.range mem.length, (cell (mem ++ [c]) i).charge = (mem.cell i).charge :=
    fun i hi => congrArg Cell.charge (cell_append_left (List.mem_range.1 hi))
  simp only [charged, List.length_append, List.length_singleton, List.range_succ, List.map_append,
    List.map_singleton, List.sum_append, List.sum_singleton, List.map_congr_left hold,
    cell_append_new]

theorem charged_modify (hi : i < mem.length) (f : Cell → Cell) :
    charged (mem.modify i f) + (mem.cell i).charge = mem.charged + (f (mem.cell i)).charge := by
  have hself : (cell (mem.modify i f) i).charge = (f (mem.cell i)).charge :=
    congrArg Cell.charge (cell_modify_self hi)
  rw [← hself, charged, List.length_modify]
  exact sum_map_at List.nodup_range (List.mem_range.2 hi) fun j _ hj =>
    congrArg Cell.charge (cell_modify_other (Ne.symm hj))

theorem buffer_modify {f : Cell → Cell} (hf : ∀ c, (f c).buffer = c.buffer) (i j : CellId) :
    buffer (mem.modify i f) j = mem.buffer j :=
  cell_modify_holds (P := fun c => c.buffer = mem.buffer j) (fun c hc => (hf c).trans hc) rfl

end Memory

/-- Handles come and go without a change to buffers. -/
theorem Machine.buffer_retain (m : Machine) (i j : CellId) :
    (m.retain i).memory.buffer j = m.memory.buffer j :=
  Memory.buffer_modify (f := fun c => { c with holders := c.holders + 1 }) (fun _ => rfl) i j

theorem Machine.buffer_release (m : Machine) (i j : CellId) :
    (m.release i).memory.buffer j = m.memory.buffer j :=
  Memory.buffer_modify (f := fun c => { c with holders := c.holders - 1 }) (fun _ => rfl) i j

/-! ## Accounts -/

/-- The handles `owners` are all there are on the cells of a device with this limit. A cell that has
no handle may also be one that nobody came to hold. What is charged is within the limit as long as a
word can count it. -/
structure Accounted (limit : Option Nat) (owners : List CellId) (m : Machine) : Prop where
  limited : m.device.limit = limit
  within : m.memory.charged < Size.modulus → ∀ l, limit = some l → m.memory.charged ≤ l
  charged : m.device.allocated = UInt64.ofNat m.memory.charged
  place : ∀ i < m.memory.length, (m.memory.cell i).place = .device
  bound : ∀ i ∈ owners, i < m.memory.length
  counted : ∀ i < m.memory.length, (m.memory.cell i).holders = owners.count i ∨
    (i ∉ owners ∧ m.memory.buffer i = none)

namespace Accounted

theorem start (limit : Option Nat) : Accounted limit [] { device := { limit } } where
  limited := rfl
  within _ l _ := Nat.zero_le l
  charged := rfl
  place i hi := absurd hi (Nat.not_lt_zero i)
  bound i hi := by cases hi
  counted i hi := absurd hi (Nat.not_lt_zero i)

theorem perm (h : Accounted limit owners m) (hp : owners.Perm owners') :
    Accounted limit owners' m where
  limited := h.limited
  within := h.within
  charged := h.charged
  place := h.place
  bound i hi := h.bound i (hp.symm.subset hi)
  counted i hi := by
    rw [← hp.count_eq, ← hp.mem_iff]
    exact h.counted i hi

/-- A handle can be forgotten if there is no other one and the cell has no buffer. -/
theorem forget (h : Accounted limit (i :: owners) m) (hi : i ∉ owners)
    (hnone : m.memory.buffer i = none) : Accounted limit owners m where
  limited := h.limited
  within := h.within
  charged := h.charged
  place := h.place
  bound j hj := h.bound j (List.mem_cons_of_mem _ hj)
  counted j hj := by
    by_cases hji : j = i
    · subst hji
      exact .inr ⟨hi, hnone⟩
    · have hcount : (i :: owners).count j = owners.count j := List.count_cons_of_ne (Ne.symm hji)
      have hmem : j ∈ i :: owners ↔ j ∈ owners := by simp [hji]
      rw [← hcount, ← hmem]
      exact h.counted j hj

theorem holders_eq (h : Accounted limit owners m) (hi : i ∈ owners) :
    (m.memory.cell i).holders = owners.count i :=
  (h.counted i (h.bound i hi)).resolve_right fun hnot => hnot.1 hi

theorem holders_ne_zero (h : Accounted limit owners m) (hi : i ∈ owners) :
    (m.memory.cell i).holders ≠ 0 := by
  rw [h.holders_eq hi]
  exact Nat.ne_of_gt (List.count_pos_iff.2 hi)

/-- What a word can count is counted right. -/
theorem allocated_toNat (h : Accounted limit owners m) (hlt : m.memory.charged < Size.modulus) :
    m.device.allocated.toNat = m.memory.charged := by
  rw [h.charged]
  exact UInt64.toNat_ofNat_of_lt' hlt

/-- What is charged for a cell. -/
theorem charge_cell (h : Accounted limit owners m) (hi : i < m.memory.length) :
    (m.memory.cell i).charge = if i ∈ owners then bytesOf (m.memory.buffer i) else 0 := by
  rw [Cell.charge_eq (h.place i hi)]
  rcases h.counted i hi with hcount | ⟨hnot, hnone⟩
  · by_cases hmem : i ∈ owners
    · have hpos := List.count_pos_iff.2 hmem
      rw [if_pos hmem, if_neg (by omega)]
      rfl
    · rw [if_neg hmem, if_pos (hcount.trans (List.count_eq_zero.2 hmem))]
  · rw [if_neg hnot]
    split
    · rfl
    · exact congrArg bytesOf hnone

/-! ### Making cells -/

/-- A new cell, with its first handle. -/
theorem newCell (h : Accounted limit owners m) : Accounted limit (m.memory.length :: owners)
    { m with memory := m.memory ++ [{ place := .device }] } where
  limited := h.limited
  within := by
    rw [Memory.charged_append]
    exact h.within
  charged := by
    rw [Memory.charged_append]
    exact h.charged
  place i hi := by
    rcases Nat.lt_succ_iff_lt_or_eq.1 (by simpa using hi) with hlt | rfl
    · rw [Memory.cell_append_left hlt]
      exact h.place i hlt
    · rw [Memory.cell_append_new]
  bound i hi := by
    rw [List.length_append]
    rcases List.mem_cons.1 hi with rfl | hi
    · exact Nat.lt_succ_self _
    · exact Nat.lt_succ_of_lt (h.bound i hi)
  counted i hi := by
    rcases Nat.lt_succ_iff_lt_or_eq.1 (by simpa using hi) with hlt | rfl
    · have hcount : (m.memory.length :: owners).count i = owners.count i :=
        List.count_cons_of_ne (Nat.ne_of_gt hlt)
      have hmem : i ∈ m.memory.length :: owners ↔ i ∈ owners := by simp [Nat.ne_of_lt hlt]
      rw [Memory.buffer, Memory.cell_append_left hlt, hcount, hmem]
      exact h.counted i hlt
    · have hnew : m.memory.length ∉ owners := fun hm => Nat.lt_irrefl _ (h.bound _ hm)
      refine .inl ?_
      rw [Memory.cell_append_new, List.count_cons_self, List.count_eq_zero.2 hnew]

/-! ### Changing cells -/

/-- A change to one cell, its handles and what is charged for it. -/
theorem modify (h : Accounted limit owners m) (hi : i < m.memory.length) (f : Cell → Cell)
    (allocated : UInt64) (hplace : ∀ c, (f c).place = c.place)
    (hcount : (f (m.memory.cell i)).holders = owners'.count i)
    (hother : ∀ j, j ≠ i → owners'.count j = owners.count j)
    (hallocated : allocated + UInt64.ofNat (m.memory.cell i).charge =
      m.device.allocated + UInt64.ofNat (f (m.memory.cell i)).charge)
    (hwithin : Memory.charged (m.memory.modify i f) < Size.modulus →
      ∀ l, limit = some l → Memory.charged (m.memory.modify i f) ≤ l) :
    Accounted limit owners' ⟨m.memory.modify i f, { m.device with allocated }⟩ := by
  have hmem : ∀ j, j ≠ i → (j ∈ owners' ↔ j ∈ owners) := fun j hj => by
    rw [← List.count_pos_iff, hother j hj, List.count_pos_iff]
  refine ⟨h.limited, hwithin, ?_, fun j hj => ?_, fun j hj => ?_, fun j hj => ?_⟩
  · have hcharged := congrArg UInt64.ofNat (Memory.charged_modify hi f)
    rw [UInt64.ofNat_add, UInt64.ofNat_add, ← h.charged, ← hallocated] at hcharged
    exact ((UInt64.add_left_inj _).1 hcharged).symm
  · rw [List.length_modify] at hj
    exact Memory.cell_modify_holds (P := fun c => c.place = .device)
      (fun c hc => (hplace c).trans hc) (h.place j hj)
  · rw [List.length_modify]
    by_cases hji : j = i
    · exact hji ▸ hi
    · exact h.bound j ((hmem j hji).1 hj)
  · rw [List.length_modify] at hj
    by_cases hji : j = i
    · subst hji
      exact .inl ((congrArg Cell.holders (Memory.cell_modify_self hj)).trans hcount)
    · rw [Memory.buffer, Memory.cell_modify_other (Ne.symm hji), hother j hji, hmem j hji]
      exact h.counted j hj

/-- A buffer for a cell that has none. -/
theorem reserve (h : Accounted limit owners m) (hi : i ∈ owners)
    (hnone : m.memory.buffer i = none) (n : Nat)
    (hfits : ∀ l, limit = some l → (m.device.allocated + Machine.wordBytes n).toNat ≤ l) :
    Accounted limit owners
      ⟨m.memory.modify i fun c => { c with words := Buffer.zeros n, reserved := true },
        { m.device with allocated := m.device.allocated + Machine.wordBytes n }⟩ := by
  have hbound := h.bound i hi
  have hold : (m.memory.cell i).charge = 0 := by
    rw [h.charge_cell hbound, if_pos hi, hnone]
    rfl
  have hnew := Cell.charge_reserved (h.place i hbound) (h.holders_ne_zero hi) n
  have hcharged := Memory.charged_modify hbound fun c =>
    { c with words := Buffer.zeros n, reserved := true }
  rw [hold, hnew, Nat.add_zero] at hcharged
  refine h.modify hbound (fun c => { c with words := Buffer.zeros n, reserved := true }) _
    (fun _ => rfl) (h.holders_eq hi) (fun _ _ => rfl) ?_ fun hlt l hl => ?_
  · rw [hold, hnew]
    exact UInt64.add_zero _
  · -- The new charge was compared with the limit as a word, and a word can count it.
    have hle := hfits l hl
    rwa [h.charged, Machine.wordBytes, ← UInt64.ofNat_add, ← hcharged,
      UInt64.toNat_ofNat_of_lt' hlt] at hle

/-- Another handle on a cell. -/
theorem retain (h : Accounted limit owners m) (hi : i ∈ owners) :
    Accounted limit (i :: owners) (m.retain i) := by
  have hcharged := Memory.charged_modify (h.bound i hi) fun c => { c with holders := c.holders + 1 }
  rw [Cell.charge_retain (h.holders_ne_zero hi), Nat.add_right_cancel_iff] at hcharged
  refine h.modify (h.bound i hi) (fun c => { c with holders := c.holders + 1 }) m.device.allocated
    (fun _ => rfl) ?_ (fun j hj => List.count_cons_of_ne (Ne.symm hj)) ?_ (hcharged ▸ h.within)
  · rw [List.count_cons_self, ← h.holders_eq hi]
  · rw [Cell.charge_retain (h.holders_ne_zero hi)]

/-- Letting go charges nothing. -/
theorem charged_release_le (h : Accounted limit (i :: owners) m) :
    (m.release i).memory.charged ≤ m.memory.charged := by
  have hi : i ∈ i :: owners := List.mem_cons_self
  have hfreed := Cell.charge_release (h.holders_ne_zero hi)
  have hcharged := Memory.charged_modify (h.bound i hi) fun c => { c with holders := c.holders - 1 }
  change Memory.charged (m.memory.modify i _) ≤ _
  omega

/-- One handle fewer; the last one gives the buffer back. -/
theorem release (h : Accounted limit (i :: owners) m) (hlt : m.memory.charged < Size.modulus) :
    Accounted limit owners (m.release i) := by
  have hi : i ∈ i :: owners := List.mem_cons_self
  have hfreed := congrArg UInt64.ofNat (Cell.charge_release (h.holders_ne_zero hi))
  rw [UInt64.ofNat_add] at hfreed
  refine h.modify (h.bound i hi) (fun c => { c with holders := c.holders - 1 }) _ (fun _ => rfl) ?_
    (fun j hj => (List.count_cons_of_ne (Ne.symm hj)).symm) ?_
    fun _ l hl => Nat.le_trans h.charged_release_le (h.within hlt l hl)
  · rw [h.holders_eq hi, List.count_cons_self, Nat.add_sub_cancel]
  · rw [← hfreed, ← UInt64.add_assoc, UInt64.sub_add_cancel]

/-- All handles of a list, one after another. -/
theorem releases (is : List CellId) : ∀ {m : Machine}, Accounted limit (is ++ owners) m →
    m.memory.charged < Size.modulus →
    Accounted limit owners (is.foldl (fun m i => m.release i) m) := by
  induction is with
  | nil => exact fun h _ => h
  | cons i is ih =>
    exact fun h hlt => ih (h.release hlt) (Nat.lt_of_le_of_lt h.charged_release_le hlt)

/-! ## Taking memory from the device -/

/-- **Who takes a buffer from the device gets one in a cell of its own, or nothing happens**, unless
there can be no such buffer. -/
theorem allocate (h : Accounted limit owners m) (n : Nat) : Ends (outcome (Machine.allocate n) m)
    (fun i m' => Accounted limit (i :: owners) m' ∧ i ∉ owners ∧
      ∀ j, j ≠ i → m'.memory.buffer j = m.memory.buffer j)
    (fun e m' => e = .oversized ∨ m' = m ∧ Refusal limit m (Machine.wordBytes n) e) := by
  rw [Machine.allocate, outcome_bind_of_ok (outcome_get m)]
  refine Ends.bind (Ends.lift (fun d hcharge => ?_) fun e he => .inr ⟨rfl, ?_⟩)
  · obtain ⟨rfl, hfits⟩ := charge_ok hcharge
    refine Ends.bind (Machine.requireCapacity_ends (fun _ => ?_) fun _ => .inl rfl)
    have hnone : Memory.buffer (m.memory ++ [{ place := .device }]) m.memory.length = none := by
      rw [Memory.buffer, Memory.cell_append_new]
      rfl
    refine ⟨h.newCell.reserve List.mem_cons_self hnone n fun l hl =>
      hfits l (h.limited.trans hl), fun hm => Nat.lt_irrefl _ (h.bound _ hm), fun j hj => ?_⟩
    rw [Memory.buffer, Memory.cell_modify_other (Ne.symm hj), Memory.cell_append_other hj]
    rfl
  · rw [← h.limited]
    exact charge_error he

/-- **So does who takes one for a tensor, which has none yet then.** -/
theorem allocate_tensor (h : Accounted limit owners m) {t : Tensor} (hplace : t.place = .device)
    (ht : t.cell ∈ owners) : Ends (outcome t.allocate m)
    (fun bytes m' => bytes = 4 * t.info.elements ∧ Accounted limit owners m' ∧
      m.memory.buffer t.cell = none ∧
      m'.memory.buffer t.cell = some (Buffer.zeros t.info.elements) ∧
      ∀ j, j ≠ t.cell → m'.memory.buffer j = m.memory.buffer j)
    (fun e m' => e = .oversized ∨
      m' = m ∧ (e = .error (.allocation (.alreadyAllocated t.backend)) ∨
        Refusal limit m (Machine.wordBytes t.info.elements) e)) := by
  have hbound := h.bound _ ht
  have hdevice := h.place _ hbound
  refine Tensor.allocate_ends (fun _ _ => .inr ⟨rfl, .inl rfl⟩) fun hfree => ?_
  have hnone : m.memory.buffer t.cell = none := by
    rw [Memory.buffer, Cell.buffer, hfree hplace]
    rfl
  refine Machine.reserve_ends (fun d hd _ => ?_)
    (fun e _ he => .inr ⟨rfl, .inr (h.limited ▸ he)⟩) fun _ _ _ => .inl rfl
  obtain ⟨hd, hfits⟩ := hd
  rw [if_pos hdevice] at hd
  subst hd
  refine ⟨rfl, h.reserve ht hnone _ fun l hl => hfits hdevice l (h.limited.trans hl), hnone, ?_,
    fun j hj => ?_⟩
  · exact congrArg Cell.buffer (Memory.cell_modify_self hbound)
  · exact congrArg Cell.buffer (Memory.cell_modify_other (Ne.symm hj))

end Accounted

end HeteroNet
