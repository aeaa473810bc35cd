import HeteroNet.Proofs.Lists
import HeteroNet.Proofs.Plan.Statistics
import Mathlib.Algebra.BigOperators.Group.Finset.Basic
import Mathlib.Algebra.BigOperators.Ring.List

/-
The accounts of a device that many take memory from. Whatever was called, whether it succeeded or
failed, the device has charged what is held and no more, and each builder's statistics are right
(`Sound`). Two things must not happen on the way: what is held must never be more than the device can
count, and no call may break off, since that leaves the device charged for a buffer that nobody holds
(`device_accounts_lost`).
-/

namespace HeteroNet

namespace Tenants

variable {limit : Option Nat} {p p' : Tenants} {b : TensorBuilder} {k : Nat} {i : CellId}

/-- The cells of all builders. -/
def builderCells (p : Tenants) : List CellId := p.builders.flatMap TensorBuilder.cells

/-- The bytes of all buffers that somebody holds. -/
def liveBytes (p : Tenants) : Nat :=
  4 * (p.live.map fun i => (p.machine.memory.cell i).words.size).sum

/-- The elements of what is asked for can be counted by a size. -/
def Call.Countable : Call → Prop
  | .allocate elements => elements < Size.modulus
  | .onBuilder _ (.prepare constraints) => ∀ e ∈ constraints, e.2.elements < Size.modulus
  | .onBuilder _ (.scratch info) => info.elements < Size.modulus
  | _ => True

instance : ∀ c : Call, Decidable c.Countable
  | .allocate _ => inferInstanceAs (Decidable (_ < _))
  | .onBuilder _ (.prepare constraints) => inferInstanceAs (Decidable (∀ e ∈ constraints, _ < _))
  | .onBuilder _ (.scratch _) => inferInstanceAs (Decidable (_ < _))
  | .onBuilder _ (.mark _) | .onBuilder _ .allocate => inferInstanceAs (Decidable True)
  | .cloneHandle _ | .dropHandle _ | .newBuilder _ | .keep _ _ | .dropBuilder _ =>
    inferInstanceAs (Decidable True)

/-- A run of calls in which none breaks off, and before and after which a size can count what is
held. -/
def Orderly : Tenants → List Call → Prop
  | p, [] => p.liveBytes < Size.modulus
  | p, c :: calls => p.liveBytes < Size.modulus ∧ c.Countable ∧ (p.call c).1 ≠ .error .oversized ∧
    Orderly (p.call c).2 calls

theorem Orderly.after : ∀ {calls : List Call} {p : Tenants}, p.Orderly calls →
    (p.after calls).liveBytes < Size.modulus
  | [], _, h => h
  | _ :: _, _, h => (Orderly.after h.2.2.2 :)

instance decidableOrderly : ∀ (p : Tenants) (calls : List Call), Decidable (p.Orderly calls)
  | p, [] => inferInstanceAs (Decidable (p.liveBytes < Size.modulus))
  | p, c :: calls =>
    have := decidableOrderly (p.call c).2 calls
    inferInstanceAs (Decidable (_ ∧ c.Countable ∧ _ ∧ (p.call c).2.Orderly calls))

/-! ## The invariant -/

structure Sound (limit : Option Nat) (p : Tenants) : Prop where
  accounted : Accounted limit p.holders p.machine
  apart : p.builderCells.Nodup
  counted : ∀ b ∈ p.builders, Counted b p.machine.memory

/-- Nobody holds anything on the device. -/
def start (limit : Option Nat) : Tenants := { machine := { device := { limit } } }

theorem Sound.start (limit : Option Nat) : Sound limit (start limit) where
  accounted := .start limit
  apart := List.nodup_nil
  counted b hb := by cases hb

/-- Other handles, and machines that leave the builders' buffers alone. -/
theorem Sound.handles (h : Sound limit p) {handles : List CellId} {machine : Machine}
    (haccounted : Accounted limit (handles ++ p.builderCells) machine)
    (hsame : ∀ i ∈ p.builderCells, machine.memory.buffer i = p.machine.memory.buffer i) :
    Sound limit { p with machine, handles } where
  accounted := haccounted
  apart := h.apart
  counted b hb := (h.counted b hb).congr fun i hi => hsame i (List.mem_flatMap.2 ⟨b, hb, hi⟩)

/-- A buffer that is taken has a handle of its own, and one that is not changes nothing. -/
theorem Sound.allocate (h : Sound limit p) {elements : Nat}
    (hends : (p.call (.allocate elements)).1 ≠ .error .oversized) :
    Sound limit (p.call (.allocate elements)).2 := by
  have hallocate := h.accounted.allocate elements
  simp only [Tenants.call, Task.on_eq] at hends ⊢
  revert hends hallocate
  obtain ⟨r, m⟩ := outcome (Machine.allocate elements) p.machine
  cases r with
  | error e =>
    rintro hends (rfl | ⟨rfl, -⟩)
    · exact absurd rfl hends
    · exact h
  | ok i =>
    rintro - ⟨haccounted, hi, hother⟩
    exact h.handles haccounted fun j hj => hother j fun he => hi (he ▸ List.mem_append_right _ hj)

theorem Sound.hold (h : Sound limit p) (hi : i ∈ p.holders) : Sound limit (p.hold i) :=
  h.handles (h.accounted.retain hi) fun j _ => p.machine.buffer_retain i j

theorem Sound.dropHandle (h : Sound limit p) (hcounts : p.machine.memory.charged < Size.modulus)
    (hk : p.handles[k]? = some i) : Sound limit { p with
      machine := p.machine.release i, handles := p.handles.eraseIdx k } := by
  obtain ⟨before, behind, hp, -, herase⟩ := exists_around hk
  rw [herase]
  refine h.handles (Accounted.release (h.accounted.perm ?_) hcounts) fun j _ =>
    p.machine.buffer_release i j
  rw [holders, hp]
  exact List.perm_middle.append_right _

/-- The cells of one builder before those of the others. -/
theorem cells_around {before behind : List TensorBuilder} (b : TensorBuilder) :
    ((before ++ b :: behind).flatMap TensorBuilder.cells).Perm
      (b.cells ++ (before ++ behind).flatMap TensorBuilder.cells) :=
  List.perm_middle.flatMap_right _

theorem holders_around (handles : List CellId) {before behind : List TensorBuilder}
    (b : TensorBuilder) :
    (handles ++ (before ++ b :: behind).flatMap TensorBuilder.cells).Perm
      (b.cells ++ (handles ++ (before ++ behind).flatMap TensorBuilder.cells)) := by
  refine ((cells_around b).append_left _).trans ?_
  rw [← List.append_assoc, ← List.append_assoc]
  exact List.perm_append_comm.append_right _

theorem call_onBuilder (hk : p.builders[k]? = some b) (c : BuilderCall) :
    p.call (.onBuilder k c) = ((c.on b p.machine).1, { p with
      machine := (c.on b p.machine).2.2
      builders := p.builders.set k (c.on b p.machine).2.1 }) := by
  simp only [Tenants.call, hk]

/-- Calls on one of the builders. -/
theorem Sound.onBuilder (h : Sound limit p) (hk : p.builders[k]? = some b) {c : BuilderCall}
    (hends : (c.on b p.machine).1 ≠ .error .oversized) : Sound limit { p with
      machine := (c.on b p.machine).2.2, builders := p.builders.set k (c.on b p.machine).2.1 } := by
  obtain ⟨before, behind, hp, hset, -⟩ := exists_around hk
  have hapart := h.apart
  rw [builderCells, hp, (cells_around b).nodup_iff, List.nodup_append] at hapart
  obtain ⟨-, hothers, hdisjoint⟩ := hapart
  generalize hrest : (before ++ behind).flatMap TensorBuilder.cells = rest at hothers hdisjoint
  have hholders : ∀ b' : TensorBuilder, (p.handles ++ (before ++ b' :: behind).flatMap
      TensorBuilder.cells).Perm (b'.cells ++ (p.handles ++ rest)) :=
    hrest ▸ holders_around p.handles
  have haccounted := h.accounted
  rw [holders, hp] at haccounted
  have hcall :=
    BuilderCall.on_advanced (haccounted.perm (hholders b)) (h.counted b (by simp [hp])) hends
  have hbound : ∀ i ∈ rest, i < p.machine.memory.length := fun i hi =>
    (haccounted.perm (hholders b)).bound i (by simp [hi])
  refine ⟨?_, ?_, fun b' hb' => ?_⟩
  · rw [holders, hset]
    exact hcall.accounted.perm (hholders _).symm
  · rw [builderCells, hset, (cells_around _).nodup_iff, hrest]
    refine List.nodup_append.2 ⟨hcall.counted.cells, hothers, fun i hi j hj he => ?_⟩
    subst he
    rcases hcall.new i hi with hi | hi
    · exact hdisjoint i hi i hj rfl
    · exact Nat.not_le.2 (hbound i hj) hi
  · rw [hset] at hb'
    rcases List.mem_cons.1 (List.perm_middle.subset hb') with rfl | hb'
    · exact hcall.counted
    · have hin : ∀ i ∈ b'.cells, i ∈ rest := fun i hi =>
        hrest ▸ List.mem_flatMap.2 ⟨b', hb', hi⟩
      have hmem : b' ∈ p.builders := hp ▸ List.perm_middle.symm.subset (List.mem_cons_of_mem _ hb')
      exact (h.counted b' hmem).congr fun i hi =>
        hcall.same i (hbound i (hin i hi)) fun hb => hdisjoint i hb i (hin i hi) rfl

theorem Sound.newBuilder (h : Sound limit p) (backend : BackendId) :
    Sound limit { p with builders := p.builders ++ [{ backend, place := .device }] } := by
  have hcells : (p.builders ++ [({ backend, place := .device } : TensorBuilder)]).flatMap
      TensorBuilder.cells = p.builderCells := by
    rw [List.flatMap_append]
    exact List.append_nil _
  refine ⟨?_, ?_, fun b hb => ?_⟩
  · rw [holders, hcells]
    exact h.accounted
  · rw [builderCells, hcells]
    exact h.apart
  · rcases List.mem_append.1 hb with hb | hb
    · exact h.counted b hb
    · rw [List.mem_singleton.1 hb]
      exact .new backend _

theorem releaseAll_eq (b : TensorBuilder) (m : Machine) :
    Plan.releaseAll [b] m = b.cells.foldl (fun m i => m.release i) m := by
  simp [Plan.releaseAll, TensorBuilder.cells, List.foldl_map, Tensor.release]

theorem buffer_releases (is : List CellId) (j : CellId) : ∀ m : Machine,
    (is.foldl (fun m i => m.release i) m).memory.buffer j = m.memory.buffer j := by
  induction is with
  | nil => exact fun _ => rfl
  | cons i is ih => exact fun m => (ih (m.release i)).trans (m.buffer_release i j)

/-- A builder goes, and its handles with it. -/
theorem Sound.dropBuilder (h : Sound limit p) (hcounts : p.machine.memory.charged < Size.modulus)
    (hk : p.builders[k]? = some b) : Sound limit { p with
      machine := Plan.releaseAll [b] p.machine, builders := p.builders.eraseIdx k } := by
  obtain ⟨before, behind, hp, -, herase⟩ := exists_around hk
  have hapart := h.apart
  rw [builderCells, hp, (cells_around b).nodup_iff, List.nodup_append] at hapart
  rw [herase, releaseAll_eq]
  refine ⟨?_, hapart.2.1, fun b' hb' => ?_⟩
  · refine Accounted.releases b.cells (h.accounted.perm ?_) hcounts
    rw [holders, hp]
    exact holders_around p.handles b
  · have hmem : b' ∈ p.builders := hp ▸ List.perm_middle.symm.subset (List.mem_cons_of_mem _ hb')
    exact (h.counted b' hmem).congr fun i _ => buffer_releases b.cells i p.machine

/-! ## The accounts -/

/-- What is held is charged. -/
theorem Sound.charged_live (h : Sound limit p) : p.machine.memory.charged = p.liveBytes := by
  have hcell : ∀ i ∈ List.range p.machine.memory.length, (p.machine.memory.cell i).charge =
      if (p.machine.memory.cell i).reserved && decide (i ∈ p.holders) then
        4 * (p.machine.memory.cell i).words.size else 0 := fun i hi => by
    rw [h.accounted.charge_cell (List.mem_range.1 hi), Memory.buffer, Cell.buffer]
    by_cases hmem : i ∈ p.holders <;> cases (p.machine.memory.cell i).reserved <;>
      simp [hmem, bytesOf]
  rw [Memory.charged, List.map_congr_left hcell, ← sum_map_filter, liveBytes, live,
    List.sum_map_mul_left]

/-- The device counts it right, if it can. -/
theorem Sound.allocated_live (h : Sound limit p) (hcounts : p.liveBytes < Size.modulus) :
    p.machine.device.allocated.toNat = p.liveBytes := by
  rw [h.accounted.allocated_toNat (h.charged_live ▸ hcounts), h.charged_live]

theorem bytesIn_builders (mem : Memory) : ∀ bs : List TensorBuilder,
    (∀ b ∈ bs, Counted b mem) →
    mem.bytesIn (bs.flatMap TensorBuilder.cells) = (bs.map (·.stats.bytes)).sum
  | [], _ => rfl
  | b :: bs, h => by
    have hb := (h b (by simp)).bytes
    have ih := bytesIn_builders mem bs fun b' hb' => h b' (List.mem_cons_of_mem _ hb')
    rw [Memory.bytesIn] at ih hb ⊢
    rw [List.flatMap_cons, List.map_append, List.sum_append, ih, List.map_cons, List.sum_cons, hb]

/-- If builders hold all of it, it is what they say they hold. -/
theorem Sound.charged_builders (h : Sound limit p) (hall : ∀ i ∈ p.live, i ∈ p.builderCells) :
    p.machine.memory.charged = (p.builders.map (·.stats.bytes)).sum := by
  have hholders : ∀ i ∈ p.builderCells, i ∈ p.holders := fun i hi => List.mem_append_right _ hi
  have hcell : ∀ i ∈ p.builderCells,
      bytesOf (p.machine.memory.buffer i) = (p.machine.memory.cell i).charge := fun i hi => by
    rw [h.accounted.charge_cell (h.accounted.bound i (hholders i hi)), if_pos (hholders i hi)]
  rw [← bytesIn_builders p.machine.memory p.builders h.counted, Memory.charged,
    Memory.bytesIn, ← builderCells, List.map_congr_left hcell,
    ← List.sum_toFinset _ h.apart, ← List.sum_toFinset _ List.nodup_range]
  refine (Finset.sum_subset (fun i hi => ?_) fun i hi hnot => ?_).symm
  · rw [List.mem_toFinset] at hi ⊢
    exact List.mem_range.2 (h.accounted.bound i (hholders i hi))
  · -- No builder holds it, so nobody does, or there is nothing in it.
    rw [List.mem_toFinset] at hi hnot
    rw [h.accounted.charge_cell (List.mem_range.1 hi)]
    by_cases hmem : i ∈ p.holders
    · cases hreserved : (p.machine.memory.cell i).reserved with
      | true => exact absurd (hall i (List.mem_filter.2 ⟨hi, by simp [hreserved, hmem]⟩)) hnot
      | false =>
        rw [if_pos hmem, Memory.buffer, Cell.buffer, hreserved]
        rfl
    · rw [if_neg hmem]

/-! ## Calls -/

/-- **Every call keeps the accounts, whether it succeeds or fails**, unless it breaks off. -/
theorem Sound.call (h : Sound limit p) (hcounts : p.liveBytes < Size.modulus) {c : Call}
    (hends : (p.call c).1 ≠ .error .oversized) : Sound limit (p.call c).2 := by
  have hcharged : p.machine.memory.charged < Size.modulus := h.charged_live ▸ hcounts
  cases c with
  | allocate elements => exact h.allocate hends
  | cloneHandle k =>
    simp only [Tenants.call]
    split
    · rename_i i hk
      exact h.hold (List.mem_append_left _ (List.mem_of_getElem? hk))
    · exact h
  | dropHandle k =>
    simp only [Tenants.call]
    split
    · rename_i i hk
      exact h.dropHandle hcharged hk
    · exact h
  | newBuilder backend => exact h.newBuilder backend
  | onBuilder k c =>
    cases hk : p.builders[k]? with
    | none =>
      simp only [Tenants.call, hk]
      exact h
    | some b =>
      rw [call_onBuilder hk] at hends ⊢
      exact h.onBuilder hk hends
  | keep k n =>
    simp only [Tenants.call]
    split
    · rename_i b hk
      split
      · rename_i i hi
        exact h.hold (List.mem_append_right _ (List.mem_flatMap.2
          ⟨b, List.mem_of_getElem? hk, List.mem_of_getElem? hi⟩))
      · exact h
    · exact h
  | dropBuilder k =>
    simp only [Tenants.call]
    split
    · rename_i b hk
      exact h.dropBuilder hcharged hk
    · exact h

theorem Sound.after : ∀ {calls : List Call} {p : Tenants}, Sound limit p → p.Orderly calls →
    Sound limit (p.after calls)
  | [], _, h, _ => h
  | _ :: _, _, h, horderly => (Sound.after (h.call horderly.1 horderly.2.2.1) horderly.2.2.2 :)

/-! ## Refusals -/

/-- What a call leaves that asked for more memory than there was. -/
inductive Refused (p : Tenants) : Call → Nat → Tenants → Prop
  | allocate (elements : Nat) :
    Refused p (.allocate elements) (Machine.wordBytes elements).toNat p
  | onBuilder {k : Nat} {b b' : TensorBuilder} {c : BuilderCall} {bytes : Nat} {machine : Machine} :
    p.builders[k]? = some b → c.Refused b p.machine bytes b' machine →
    Refused p (.onBuilder k c) bytes { p with machine, builders := p.builders.set k b' }

theorem Sound.refused (h : Sound limit p) {c : Call} {requested available : Nat}
    (horderly : p.Orderly [c])
    (hanswer : (p.call c).1 = .error (.error (.allocation (.outOfMemory requested available)))) :
    p.Refused c requested (p.call c).2 ∧ ∃ l, limit = some l ∧
      available = l - (p.call c).2.machine.device.allocated.toNat ∧ available < requested := by
  obtain ⟨hbefore, -, hends, hbehind⟩ := horderly
  have hcounts : (p.call c).2.machine.memory.charged < Size.modulus :=
    (h.call hbefore hends).charged_live ▸ hbehind
  cases c with
  | allocate elements =>
    have hallocate := h.accounted.allocate elements
    simp only [Tenants.call, Task.on_eq] at hanswer hcounts ⊢
    revert hanswer hcounts hallocate
    obtain ⟨r, m⟩ := outcome (Machine.allocate elements) p.machine
    cases r with
    | error e =>
      rintro ⟨⟩ hcounts (hother | ⟨rfl, hrefusal⟩)
      · cases hother
      · obtain ⟨rfl, hreports⟩ := hrefusal.reports h.accounted hcounts
        exact ⟨.allocate elements, hreports⟩
    | ok i => exact nofun
  | onBuilder k c =>
    cases hk : p.builders[k]? with
    | none => simp [Tenants.call, hk] at hanswer
    | some b =>
      obtain ⟨before, behind, hp, -, -⟩ := exists_around hk
      have haccounted := h.accounted
      rw [holders, hp] at haccounted
      rw [call_onBuilder hk] at hanswer hcounts ⊢
      obtain ⟨hrefused, hreports⟩ := BuilderCall.on_refused
        (haccounted.perm (holders_around p.handles b)) (h.counted b (List.mem_of_getElem? hk)) rfl
        hanswer hcounts
      exact ⟨.onBuilder hk hrefused, hreports⟩
  -- The other calls do not ask for memory.
  | newBuilder backend => cases hanswer
  | keep k n =>
    simp only [Tenants.call] at hanswer
    split at hanswer
    · split at hanswer <;> cases hanswer
    · cases hanswer
  | cloneHandle k | dropHandle k | dropBuilder k =>
    simp only [Tenants.call] at hanswer
    split at hanswer <;> cases hanswer

/-! ## Every run -/

/-- A builder's statistics are right, if these buffers are held. -/
structure Told (live : List CellId) (b : TensorBuilder) : Prop where
  distinct : b.marked.Nodup
  marked : b.stats.marked = b.marked.length
  marking : ∀ i b', b.mark i = .ok b' → ∀ j, j ∈ b'.marked ↔ j = i ∨ j ∈ b.marked
  keys : b.phase ≠ .marking → b.tensors.map Prod.fst = b.marked
  tensors : b.stats.tensors = b.tensors.countP fun e => decide (e.2.cell ∈ live)
  complete : b.phase = .allocated → b.stats.tensors = b.stats.marked

theorem Sound.mem_live (h : Sound limit p) (hi : i ∈ p.holders) :
    i ∈ p.live ↔ (p.machine.memory.buffer i).isSome := by
  have hbound := h.accounted.bound i hi
  rw [live, List.mem_filter, List.mem_range, Memory.buffer, Cell.buffer]
  cases (p.machine.memory.cell i).reserved <;> simp [hi, hbound]

theorem mark_marked {b' : TensorBuilder} {i : OperandId} (h : b.mark i = .ok b') (j : OperandId) :
    j ∈ b'.marked ↔ j = i ∨ j ∈ b.marked := by
  unfold TensorBuilder.mark at h
  split at h
  · cases h
  · cases h
    exact mem_insertSorted

theorem Sound.told (h : Sound limit p) (hb : b ∈ p.builders) : Told p.live b where
  distinct := (h.counted b hb).ascending.imp Nat.ne_of_lt
  marked := (h.counted b hb).marked
  marking _ _ := mark_marked
  keys := (h.counted b hb).keys
  tensors := by
    rw [(h.counted b hb).tensors, Memory.buffersIn, TensorBuilder.operandCells, List.countP_map]
    refine List.countP_congr fun e he => ?_
    have hheld : e.2.cell ∈ p.holders :=
      List.mem_append_right _ (List.mem_flatMap.2 ⟨b, hb, Counted.mem_cells he⟩)
    rw [Function.comp_apply, decide_eq_true_iff, h.mem_live hheld]
  complete := (h.counted b hb).complete

/-- **The device charges what is held, and each builder counts its share.** In every state that
calls on the device and on builders of its tensors lead to, the failed ones included: what is charged
is the size of the buffers that somebody holds, and within the limit; if builders hold them all it is
the sum of what the builders say; each builder's statistics are right, and complete once it has
allocated. And a call that is refused memory hears how much there is, and changes nothing. -/
theorem device_accounts (limit : Option Nat) (calls : List Call) (h : (start limit).Orderly calls) :
    let p := (start limit).after calls
    let charged := p.machine.device.allocated.toNat
    charged = 4 * (p.live.map fun i => (p.machine.memory.cell i).words.size).sum ∧
    (∀ l, limit = some l → charged ≤ l) ∧
    ((∀ i ∈ p.live, i ∈ p.builderCells) → charged = (p.builders.map (·.stats.bytes)).sum) ∧
    (∀ b ∈ p.builders, Told p.live b) ∧
    (∀ k b, (p.call (.onBuilder k .allocate)).1 = .ok () →
      (p.call (.onBuilder k .allocate)).2.builders[k]? = some b → b.phase = .allocated) ∧
    ∀ c requested available, p.Orderly [c] →
      (p.call c).1 = .error (.error (.allocation (.outOfMemory requested available))) →
      p.Refused c requested (p.call c).2 ∧ ∃ l, limit = some l ∧
        available = l - (p.call c).2.machine.device.allocated.toNat ∧ available < requested := by
  intro p charged
  have hsound : Sound limit p := (Sound.start limit).after h
  have hcharged : charged = p.liveBytes := hsound.allocated_live h.after
  refine ⟨hcharged, fun l hl => ?_, fun hall => ?_, fun b hb => hsound.told hb,
    fun k b hok hb => ?_, fun c requested available => hsound.refused⟩
  · rw [hcharged, ← hsound.charged_live]
    exact hsound.accounted.within (hsound.charged_live ▸ h.after) l hl
  · rw [hcharged, ← hsound.charged_live, hsound.charged_builders hall]
  · cases hk : p.builders[k]? with
    | none => simp [Tenants.call, hk] at hb
    | some b₀ =>
      rw [call_onBuilder hk] at hok hb
      have hlt := (List.getElem?_eq_some_iff.1 hk).1
      rw [List.getElem?_set_self hlt, Option.some.injEq] at hb
      exact hb ▸ allocate_ok hok

/-- Words that an operand needs. -/
def words (n : Nat) : TensorInfo := ⟨[n], { element := .float32 }⟩

/-- Two builders share 44 bytes, of which the first takes 32. The second is refused the last of its
three tensors, and again when it tries once more; it has counted the two it got. -/
def crowded : List Call :=
  [.newBuilder "gpu", .onBuilder 0 (.mark 1), .onBuilder 0 (.mark 0), .onBuilder 0 (.mark 1),
    .onBuilder 0 (.prepare [(0, words 4), (1, words 4)]), .onBuilder 0 .allocate,
    .newBuilder "gpu", .onBuilder 1 (.mark 5), .onBuilder 1 (.mark 7), .onBuilder 1 (.mark 6),
    .onBuilder 1 (.prepare [(5, words 1), (6, words 1), (7, words 2)])]

theorem device_accounts_crowded :
    let p := (start (some 44)).after crowded
    let p' := (p.call (.onBuilder 1 .allocate)).2
    (p.call (.onBuilder 1 .allocate)).1 = .error (.error (.allocation (.outOfMemory 8 4))) ∧
    (p'.call (.onBuilder 1 .allocate)).1 = .error (.error (.allocation (.alreadyAllocated "gpu"))) ∧
    p'.machine.device.allocated = 40 ∧ p'.builders.map (·.stats.bytes) = [32, 8] ∧
    p'.builders.map (·.stats.tensors) = [2, 2] ∧ p'.builders.map (·.stats.marked) = [2, 3] ∧
    p.Refused (.onBuilder 1 .allocate) 8 p' := by
  intro p p'
  have hrefused : (p.call (.onBuilder 1 .allocate)).1 =
    .error (.error (.allocation (.outOfMemory 8 4))) := rfl
  have horderly : (start (some 44)).Orderly crowded := by decide +kernel
  have hnext : p.Orderly [.onBuilder 1 .allocate] := by decide +kernel
  exact ⟨hrefused, rfl, rfl, rfl, rfl, rfl,
    ((device_accounts (some 44) crowded horderly).2.2.2.2.2 _ _ _ hnext hrefused).1⟩

/-- **A call that breaks off leaves the device charged for a buffer that nobody holds**, and for less
than what was asked: the bytes of so many words wrap around to four. -/
theorem device_accounts_lost :
    let p := ((start (some 44)).call (.allocate 0x4000000000000001)).2
    (Call.allocate 0x4000000000000001).Countable ∧
      ((start (some 44)).call (.allocate 0x4000000000000001)).1 = .error .oversized ∧
      p.machine.device.allocated = 4 ∧ p.live = [] :=
  ⟨by decide +kernel, by decide +kernel, by decide +kernel, by decide +kernel⟩

end Tenants

end HeteroNet
