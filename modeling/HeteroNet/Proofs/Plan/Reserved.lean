import HeteroNet.Proofs.Machine.Holders
import HeteroNet.Proofs.Machine.Steps
import HeteroNet.Proofs.Plan.Draft
import HeteroNet.Proofs.Plan.Table

/-
The memory of a new plan. Every tensor gets a cell of its own behind those there were before, and
then memory filled with zeros. The old cells are not touched, whether this succeeds, or the device
runs out of memory, or a tensor has more words than any buffer, which are the only ways in which it
can fail. What the device has given away since is what these tensors take, so that it has all of it
back once they are let go; but for what it was charged where a tensor was too large.
-/

namespace HeteroNet

open Model

/-- Memory has at most grown, by cells that are not damaged. -/
structure Intact (m₀ m : Machine) : Prop where
  length : m₀.memory.length ≤ m.memory.length
  old : ∀ c, c < m₀.memory.length → m.memory.cell c = m₀.memory.cell c
  whole : ∀ c, m₀.memory.length ≤ c → (m.memory.cell c).damaged = false

/-- And the device did nothing but reserve. -/
structure Grown (m₀ m : Machine) : Prop extends Intact m₀ m where
  failure : m.device.failure = m₀.device.failure
  fault : m.device.fault = m₀.device.fault
  limit : m.device.limit = m₀.device.limit

/-- What the device charges for a list of cells. -/
def chargeFor (mem : Memory) (is : List CellId) : Nat := (is.map fun i => (mem.cell i).charge).sum

/-- The tensors `ts` have new cells, each its own and held once. -/
structure Celled (m₀ : Machine) (ts : List Tensor) (m : Machine) : Prop where
  cells : (ts.map Tensor.cell).Nodup
  new : ∀ t ∈ ts, m₀.memory.length ≤ t.cell
  bound : ∀ t ∈ ts, t.cell < m.memory.length
  held : ∀ t ∈ ts, (m.memory.cell t.cell).holders = 1
  sited : ∀ t ∈ ts, (m.memory.cell t.cell).place = t.place

/-- The device has given away what the tensors `ts` take. -/
def GivenAway (m₀ : Machine) (ts : List Tensor) (m : Machine) : Prop :=
  m.device.allocated
    = m₀.device.allocated + UInt64.ofNat (chargeFor m.memory (ts.map Tensor.cell))

/-- The tensors `ts` have new cells, and the device has given away what they take. -/
structure Lent (m₀ : Machine) (ts : List Tensor) (m : Machine) : Prop extends Celled m₀ ts m where
  allocated : GivenAway m₀ ts m

/-- Nothing was done but to give the tensors `ts` their cells, and some of them memory. -/
structure Laid (m₀ : Machine) (ts : List Tensor) (m : Machine) : Prop extends
    Grown m₀ m, Lent m₀ ts m

/-- A failed call did nothing else either, unless it broke off with the device charged for more. -/
structure CutShort (m₀ : Machine) (ts : List Tensor) (e : Failure) (m : Machine) : Prop extends
    Grown m₀ m, Celled m₀ ts m where
  allocated : e ≠ .oversized → GivenAway m₀ ts m

/-- The tensor has memory filled with zeros. -/
structure Blank (m : Machine) (t : Tensor) : Prop where
  reserved : (m.memory.cell t.cell).reserved = true
  words : (m.memory.cell t.cell).words = Buffer.zeros t.info.elements
  fits : t.info.elements ≤ Buffer.capacity

theorem Blank.congr {m m' : Machine} {t : Tensor} (h : Blank m t)
    (hsame : m'.memory.cell t.cell = m.memory.cell t.cell) : Blank m' t :=
  ⟨hsame ▸ h.reserved, hsame ▸ h.words, h.fits⟩

/-- The device ran out of memory. -/
def OutOfMemory (e : Failure) : Prop :=
  ∃ requested available, e = .error (.allocation (.outOfMemory requested available))

/-- The device ran out of the memory that it was limited to. -/
def Exhausted (m₀ : Machine) (e : Failure) : Prop :=
  OutOfMemory e ∧ ∃ l, m₀.device.limit = some l

/-- Why a tensor gets no memory: the device ran out of it, or the tensor has more elements than a
buffer can have words. The tensors in question have the numbers of elements `needs`. -/
def Lacking (m₀ : Machine) (needs : Nat → Prop) (e : Failure) : Prop :=
  Exhausted m₀ e ∨ e = .oversized ∧ ∃ n, needs n ∧ Buffer.capacity < n

theorem Lacking.mono {m₀ : Machine} {needs needs' : Nat → Prop} {e : Failure}
    (h : Lacking m₀ needs e) (hsub : ∀ n, needs n → needs' n) : Lacking m₀ needs' e :=
  h.imp_right fun ⟨he, n, hn, hlt⟩ => ⟨he, n, hsub n hn, hlt⟩

theorem Exhausted.returned {m₀ : Machine} {e : Failure} (h : Exhausted m₀ e) : e ≠ .oversized := by
  obtain ⟨⟨_, _, rfl⟩, -⟩ := h
  exact Failure.error_ne_oversized _

/-- Where every need can be met by a buffer, it is the device that has no memory. -/
theorem Lacking.exhausted {m₀ : Machine} {needs : Nat → Prop} {e : Failure} (h : Lacking m₀ needs e)
    (hfits : ∀ n, needs n → n ≤ Buffer.capacity) : Exhausted m₀ e :=
  h.resolve_right fun ⟨_, n, hn, hlt⟩ => Nat.not_lt.2 (hfits n hn) hlt

variable {m₀ m m' : Machine} {ts ts' : List Tensor} {t : Tensor} {mem mem' : Memory}
  {is : List CellId} {i : CellId}

/-! ## Charges -/

theorem chargeFor_congr (h : ∀ i ∈ is, (mem'.cell i).charge = (mem.cell i).charge) :
    chargeFor mem' is = chargeFor mem is :=
  congrArg List.sum (List.map_congr_left h)

/-- A change of one cell changes what is charged for that cell. -/
theorem chargeFor_at (hn : is.Nodup) (hi : i ∈ is)
    (h : ∀ j ∈ is, j ≠ i → mem'.cell j = mem.cell j) :
    chargeFor mem' is + (mem.cell i).charge = chargeFor mem is + (mem'.cell i).charge :=
  sum_map_at hn hi fun j hj hne => congrArg Cell.charge (h j hj hne)

/-- Nothing is charged for a cell without memory. -/
theorem Cell.charge_unreserved {c : Cell} (h : c.reserved = false) : c.charge = 0 := by
  simp [charge, isCharged, h]

/-- What a cell that is held once is charged when it gets memory. -/
theorem Cell.charge_zeros {c : Cell} (h : c.holders = 1) (n : Nat) :
    Cell.charge { c with words := Buffer.zeros n, reserved := true }
      = if c.place = .device then 4 * n else 0 := by
  cases hp : c.place <;> simp [charge, isCharged, bytes, h]

theorem Celled.perm (h : Celled m₀ ts m) (hp : ts'.Perm ts) : Celled m₀ ts' m where
  cells := (hp.map Tensor.cell).nodup_iff.2 h.cells
  new t ht := h.new t (hp.subset ht)
  bound t ht := h.bound t (hp.subset ht)
  held t ht := h.held t (hp.subset ht)
  sited t ht := h.sited t (hp.subset ht)

theorem GivenAway.perm (h : GivenAway m₀ ts m) (hp : ts'.Perm ts) : GivenAway m₀ ts' m := by
  have hsum : chargeFor m.memory (ts'.map Tensor.cell) = chargeFor m.memory (ts.map Tensor.cell) :=
    ((hp.map Tensor.cell).map _).sum_eq
  rw [GivenAway, hsum]
  exact h

theorem Celled.tail (h : Celled m₀ (t :: ts) m) : Celled m₀ ts m where
  cells := (List.nodup_cons.1 h.cells).2
  new u hu := h.new u (List.mem_cons_of_mem _ hu)
  bound u hu := h.bound u (List.mem_cons_of_mem _ hu)
  held u hu := h.held u (List.mem_cons_of_mem _ hu)
  sited u hu := h.sited u (List.mem_cons_of_mem _ hu)

/-- A tensor without memory takes nothing. -/
theorem GivenAway.tail (h : GivenAway m₀ (t :: ts) m)
    (hfree : (m.memory.cell t.cell).reserved = false) : GivenAway m₀ ts m := by
  rwa [GivenAway, List.map_cons, chargeFor, List.map_cons, List.sum_cons,
    Cell.charge_unreserved hfree, Nat.zero_add] at h

theorem Lent.nil (m : Machine) : Lent m [] m where
  cells := List.nodup_nil
  new t ht := by cases ht
  bound t ht := by cases ht
  held t ht := by cases ht
  sited t ht := by cases ht
  allocated := (UInt64.add_zero _).symm

theorem Lent.perm (h : Lent m₀ ts m) (hp : ts'.Perm ts) : Lent m₀ ts' m :=
  ⟨h.toCelled.perm hp, h.allocated.perm hp⟩

/-- Words are replaced, and nothing else happens to memory. -/
theorem Lent.rewritten {W : CellId → Prop} (h : Lent m₀ ts m)
    (hm : Memory.Rewritten W m.memory m'.memory)
    (hall : m'.device.allocated = m.device.allocated) : Lent m₀ ts m' where
  cells := h.cells
  new := h.new
  bound t ht := hm.length ▸ h.bound t ht
  held t ht := (hm.holders _).trans (h.held t ht)
  sited t ht := (hm.place _).trans (h.sited t ht)
  allocated := by
    rw [GivenAway, hall, chargeFor_congr fun i _ => hm.charge i]
    exact h.allocated

theorem Laid.nil (m : Machine) : Laid m [] m where
  toLent := .nil m
  length := Nat.le_refl _
  old _ _ := rfl
  whole c hc := by
    rw [Memory.cell_of_le hc]
    rfl
  failure := rfl
  fault := rfl
  limit := rfl

theorem Laid.perm (h : Laid m₀ ts m) (hp : ts'.Perm ts) : Laid m₀ ts' m :=
  ⟨h.toGrown, h.toLent.perm hp⟩

theorem Laid.cutShort (h : Laid m₀ ts m) (e : Failure) : CutShort m₀ ts e m :=
  ⟨h.toGrown, h.toCelled, fun _ => h.allocated⟩

theorem CutShort.laid {e : Failure} (h : CutShort m₀ ts e m) (he : e ≠ .oversized) :
    Laid m₀ ts m :=
  ⟨h.toGrown, h.toCelled, h.allocated he⟩

/-- The tensor that got no memory may be forgotten. -/
theorem CutShort.tail {e : Failure} (h : CutShort m₀ (t :: ts) e m)
    (hfree : (m.memory.cell t.cell).reserved = false) : CutShort m₀ ts e m :=
  ⟨h.toGrown, h.toCelled.tail, fun he => (h.allocated he).tail hfree⟩

/-! ## Cells -/

/-- The machine with a new cell. -/
def Machine.withCell (m : Machine) (place : Place) : Machine :=
  { m with memory := m.memory ++ [{ place : Cell }] }

theorem Machine.cell_withCell (place : Place) {c : CellId} (hc : c < m.memory.length) :
    (m.withCell place).memory.cell c = m.memory.cell c :=
  Memory.cell_append_left hc

theorem Machine.cell_withCell_new (m : Machine) (place : Place) :
    (m.withCell place).memory.cell m.memory.length = { place } :=
  Memory.cell_append_new _

theorem Grown.withCell (h : Grown m₀ m) (place : Place) : Grown m₀ (m.withCell place) where
  length := Nat.le_trans h.length (by simp [Machine.withCell])
  old c hc := (Machine.cell_withCell place (Nat.lt_of_lt_of_le hc h.length)).trans (h.old c hc)
  whole c hc := by
    by_cases hc' : c = m.memory.length
    · subst hc'
      exact congrArg Cell.damaged (m.cell_withCell_new place)
    · exact (congrArg Cell.damaged (Memory.cell_append_other hc')).trans (h.whole c hc)
  failure := h.failure
  fault := h.fault
  limit := h.limit

/-- A tensor with a new cell, for which nothing is charged yet. -/
theorem Lent.withCell (h : Lent m₀ ts m) (hle : m₀.memory.length ≤ m.memory.length)
    {t : Tensor} (ht : t.cell = m.memory.length) : Lent m₀ (t :: ts) (m.withCell t.place) where
  cells := by
    refine List.nodup_cons.2 ⟨fun hmem => ?_, h.cells⟩
    obtain ⟨u, hu, he⟩ := List.mem_map.1 hmem
    exact absurd (h.bound u hu) (by rw [he, ht]; exact Nat.lt_irrefl _)
  new u hu := by
    rcases List.mem_cons.1 hu with rfl | hu
    · exact ht ▸ hle
    · exact h.new u hu
  bound u hu := by
    simp only [Machine.withCell, List.length_append, List.length_cons, List.length_nil]
    rcases List.mem_cons.1 hu with rfl | hu
    · exact ht ▸ Nat.lt_succ_self _
    · exact Nat.lt_succ_of_lt (h.bound u hu)
  held u hu := by
    rcases List.mem_cons.1 hu with rfl | hu
    · rw [ht, Machine.cell_withCell_new]
    · rw [Machine.cell_withCell _ (h.bound u hu)]
      exact h.held u hu
  sited u hu := by
    rcases List.mem_cons.1 hu with rfl | hu
    · rw [ht, Machine.cell_withCell_new]
    · rw [Machine.cell_withCell _ (h.bound u hu)]
      exact h.sited u hu
  allocated := by
    have hcharge : chargeFor (m.withCell t.place).memory (ts.map Tensor.cell)
        = chargeFor m.memory (ts.map Tensor.cell) := chargeFor_congr fun i hi => by
      obtain ⟨u, hu, rfl⟩ := List.mem_map.1 hi
      rw [Machine.cell_withCell _ (h.bound u hu)]
    change m.device.allocated = m₀.device.allocated + UInt64.ofNat (Cell.charge _ + chargeFor _ _)
    rw [ht, Machine.cell_withCell_new, Cell.charge_unreserved rfl, hcharge, Nat.zero_add]
    exact h.allocated

/-- A new tensor has a cell that no other tensor has. -/
theorem create_laid (place : Place) (backend : BackendId) (info : TensorInfo)
    (h : Laid m₀ ts m) : ∃ t m', outcome (Tensor.create place backend info) m = (.ok t, m') ∧
      t.place = place ∧ t.info = info ∧ t.cell = m.memory.length ∧ Laid m₀ (t :: ts) m' ∧
      (∀ c, c < m.memory.length → m'.memory.cell c = m.memory.cell c) ∧
      m'.memory.cell t.cell = { place } :=
  ⟨⟨info, place, backend, m.memory.length⟩, m.withCell place, rfl, rfl, rfl, rfl,
    ⟨h.toGrown.withCell place, h.toLent.withCell h.length rfl⟩,
    fun _ hc => Machine.cell_withCell place hc, m.cell_withCell_new place⟩

/-! ## Memory -/

/-- Giving memory to a tensor that has none yet, for what the device charges. -/
theorem Laid.reserve (h : Laid m₀ ts m) (ht : t ∈ ts)
    (hfree : (m.memory.cell t.cell).reserved = false) {n : Nat} {d : Device}
    (hd : m.Charged t.cell n d) : Laid m₀ ts (m.filled t.cell n d) := by
  obtain ⟨rfl, -⟩ := hd
  have hself := Memory.cell_modify_self (h.bound t ht)
    (f := fun c => { c with words := Buffer.zeros n, reserved := true })
  have hother : ∀ i, i ≠ t.cell → Memory.cell (m.memory.modify t.cell fun c =>
      { c with words := Buffer.zeros n, reserved := true }) i = m.memory.cell i :=
    fun i hi => Memory.cell_modify_other (Ne.symm hi)
  have hkept : ∀ {P : Cell → Prop} {i : CellId},
      (∀ c, P c → P { c with words := Buffer.zeros n, reserved := true }) →
      P (m.memory.cell i) → P (Memory.cell (m.memory.modify t.cell fun c =>
        { c with words := Buffer.zeros n, reserved := true }) i) := Memory.cell_modify_holds
  refine ⟨⟨⟨by simpa [Machine.filled] using h.length, fun c hc => ?_, fun c hc => ?_⟩, h.failure,
    h.fault, h.limit⟩, ⟨h.cells, h.new, fun u hu => by simpa [Machine.filled] using h.bound u hu,
    fun u hu => ?_, fun u hu => ?_⟩, ?_⟩
  · exact (hother c (Nat.ne_of_lt (Nat.lt_of_lt_of_le hc (h.new t ht)))).trans (h.old c hc)
  · exact hkept (P := fun c => c.damaged = false) (fun _ hx => hx) (h.whole c hc)
  · exact hkept (P := fun c => c.holders = 1) (fun _ hx => hx) (h.held u hu)
  · exact hkept (P := fun c => c.place = u.place) (fun _ hx => hx) (h.sited u hu)
  · have hcharge := chargeFor_at h.cells (List.mem_map_of_mem ht) fun i _ hi => hother i hi
    rw [hself, Cell.charge_unreserved hfree, Cell.charge_zeros (h.held t ht), Nat.add_zero]
      at hcharge
    refine Eq.trans ?_ (congrArg (m₀.device.allocated + UInt64.ofNat ·) hcharge).symm
    rw [UInt64.ofNat_add, ← UInt64.add_assoc, ← h.allocated]
    refine congrArg (m.device.allocated + ·) ?_
    split <;> rfl

/-- A call that breaks off leaves the cells as they are. -/
theorem Laid.oversized (h : Laid m₀ ts m) {n : Nat} {d : Device} (hd : m.Charged i n d) :
    CutShort m₀ ts .oversized { m with device := d } := by
  obtain ⟨rfl, -⟩ := hd
  exact ⟨⟨⟨h.length, h.old, h.whole⟩, h.failure, h.fault, h.limit⟩,
    ⟨h.cells, h.new, h.bound, h.held, h.sited⟩, fun hne => absurd rfl hne⟩

/-- Giving memory to a tensor that has none yet succeeds, or changes no cell because memory is
lacking. -/
theorem allocate_laid (h : Laid m₀ ts m) (ht : t ∈ ts)
    (hfree : (m.memory.cell t.cell).reserved = false) :
    Ends (outcome t.allocate m)
      (fun _ m' => Laid m₀ ts m' ∧ m'.memory.length = m.memory.length ∧
        (∀ i, i ≠ t.cell → m'.memory.cell i = m.memory.cell i) ∧ Blank m' t)
      (fun e m' => Lacking m₀ (· = t.info.elements) e ∧ CutShort m₀ ts e m' ∧
        m'.memory = m.memory) := by
  refine Tensor.allocate_ends (fun _ hreserved => ?_) fun _ =>
    Machine.reserve_ends (fun d hd hfits => ?_) (fun e _ he => ?_) fun d hd hlt => ?_
  · rw [hfree] at hreserved
    cases hreserved
  · refine ⟨h.reserve ht hfree hd, by simp [Machine.filled],
      fun i hi => Memory.cell_modify_other (Ne.symm hi), ?_, ?_, hfits⟩ <;>
    · rw [Machine.filled, Memory.cell_modify_self (h.bound t ht)]
  · obtain ⟨l, hl, -, rfl⟩ := he
    exact ⟨.inl ⟨⟨_, _, rfl⟩, l, h.limit.symm.trans hl⟩, h.cutShort _, rfl⟩
  · exact ⟨.inr ⟨rfl, _, rfl, hlt⟩, h.oversized hd, rfl⟩

/-! ## Letting go -/

/-- What letting go of a cell once gives back. -/
def Cell.freed (c : Cell) : Nat := if c.isCharged && c.holders == 1 then c.bytes else 0

/-- The last holder gives back all that is charged. -/
theorem Cell.freed_last {c : Cell} (h : c.holders = 1) : c.freed = c.charge := by
  simp [freed, charge, h]

theorem Cell.freed_other {c : Cell} (h : c.holders ≠ 1) : c.freed = 0 := by
  simp [freed, h]

/-- Letting go of tensors with cells of their own gives back what each of them does. -/
theorem allocated_releaseAll : ∀ {ts : List Tensor} {m : Machine}, (ts.map Tensor.cell).Nodup →
    (ts.foldl (fun m t => t.release m) m).device.allocated
      = m.device.allocated - UInt64.ofNat (ts.map fun t => (m.memory.cell t.cell).freed).sum
  | [], _, _ => (UInt64.sub_zero _).symm
  | t :: ts, m, hn => by
    obtain ⟨hcell, hn⟩ := List.nodup_cons.1 hn
    have hother : ∀ u ∈ ts, (t.release m).memory.cell u.cell = m.memory.cell u.cell :=
      fun u hu => Memory.cell_modify_other fun he => hcell (he ▸ List.mem_map_of_mem hu)
    have hfreed : (ts.map fun u => ((t.release m).memory.cell u.cell).freed)
        = ts.map fun u => (m.memory.cell u.cell).freed :=
      List.map_congr_left fun u hu => congrArg Cell.freed (hother u hu)
    have hfirst : (t.release m).device.allocated
        = m.device.allocated - UInt64.ofNat (m.memory.cell t.cell).freed := rfl
    rw [List.foldl_cons, allocated_releaseAll hn, hfreed, hfirst, List.map_cons, List.sum_cons,
      UInt64.ofNat_add]
    grind

/-- Once all tensors are let go, the device has back all that it gave away. -/
theorem Celled.releaseAll (h : Celled m₀ ts m) (hall : GivenAway m₀ ts m) :
    (ts.foldl (fun m t => t.release m) m).device.allocated = m₀.device.allocated := by
  have hfreed : (ts.map fun t => (m.memory.cell t.cell).freed).sum
      = chargeFor m.memory (ts.map Tensor.cell) := by
    rw [chargeFor, List.map_map]
    exact congrArg List.sum (List.map_congr_left fun t ht => Cell.freed_last (h.held t ht))
  rw [allocated_releaseAll h.cells, hfreed, hall, UInt64.add_sub_cancel]

end HeteroNet
