import HeteroNet.Proofs.Call
import HeteroNet.Tensor

/-
What memory costs. Giving memory to a cell charges the device for it, if the cell is the device's,
and the device refuses what goes beyond its limit. What is charged for stays charged when a cell
cannot have so many words at all, and the call breaks off. Each of the three ways in which such a call
ends is one hypothesis of `Machine.reserve_ends`, and every later result goes through it.
-/

namespace HeteroNet

variable {m : Machine} {i : CellId} {n : Nat} {bytes : UInt64} {d d' : Device} {t : Tensor}

/-- A call that returns an error has not broken off. -/
theorem Failure.error_ne_oversized (e : Error) : Failure.error e ≠ .oversized := by
  rintro ⟨⟩

theorem charge_ok (h : Machine.charge bytes d = .ok d') :
    d' = { d with allocated := d.allocated + bytes } ∧
      ∀ l, d.limit = some l → (d.allocated + bytes).toNat ≤ l := by
  unfold Machine.charge at h
  split at h
  · rename_i l hl
    split at h
    · cases h
    · rename_i hle
      cases h
      refine ⟨rfl, fun l' hl' => ?_⟩
      rw [hl] at hl'
      cases hl'
      omega
  · rename_i hnone
    cases h
    refine ⟨rfl, fun l hl => ?_⟩
    rw [hnone] at hl
    cases hl

/-- The device does not have so many bytes left, and says so. -/
def Refusal (limit : Option Nat) (m : Machine) (bytes : UInt64) (e : Failure) : Prop :=
  ∃ l, limit = some l ∧ l < (m.device.allocated + bytes).toNat ∧
    e = .error (.allocation (.outOfMemory bytes.toNat (l - m.device.allocated.toNat)))

theorem charge_error {e : Error} (h : Machine.charge bytes m.device = .error e) :
    Refusal m.device.limit m bytes (.error e) := by
  unfold Machine.charge at h
  split at h
  · rename_i l hl
    split at h
    · rename_i hlt
      cases h
      exact ⟨l, hl, hlt, by simp [Machine.available, hl]⟩
    · cases h
  · cases h

namespace Machine

/-- The device is `d` when cell `i` is charged for `n` words. For a host cell it charges nothing. -/
structure Charged (m : Machine) (i : CellId) (n : Nat) (d : Device) : Prop where
  device : d = { m.device with allocated :=
    m.device.allocated + if (m.memory.cell i).place = .device then wordBytes n else 0 }
  fits : (m.memory.cell i).place = .device → ∀ l, d.limit = some l → d.allocated.toNat ≤ l

/-- A cell has `n` zero words, and the device is `d`. -/
def filled (m : Machine) (i : CellId) (n : Nat) (d : Device) : Machine where
  memory := m.memory.modify i fun c => { c with words := Buffer.zeros n, reserved := true }
  device := d

theorem Charged.host (h : (m.memory.cell i).place = .host) : Charged m i n m.device where
  device := by simp [h]
  fits hd := by simp [h] at hd

theorem Charged.of_charge (h : (m.memory.cell i).place = .device)
    (hcharge : charge (wordBytes n) m.device = .ok d) : Charged m i n d := by
  obtain ⟨rfl, hfits⟩ := charge_ok hcharge
  exact ⟨by rw [if_pos h], fun _ l hl => hfits l hl⟩

variable {post : Unit → Machine → Prop} {err : Failure → Machine → Prop}

theorem requireCapacity_ends (hfits : n ≤ Buffer.capacity → post () m)
    (hbreaks : Buffer.capacity < n → err .oversized { m with device := d }) :
    Ends (outcome (requireCapacity n d) m) post err := by
  unfold requireCapacity
  split
  · exact hbreaks ‹_›
  · exact hfits (Nat.not_lt.1 ‹_›)

/-- **How giving a cell memory ends.** It gets its words, or the device refuses them and nothing
happens, or no buffer can have so many and the device has charged for them. -/
theorem reserve_ends {post : Nat → Machine → Prop}
    (hgiven : ∀ d, m.Charged i n d → n ≤ Buffer.capacity → post (4 * n) (m.filled i n d))
    (hrefused : ∀ e, (m.memory.cell i).place = .device →
      Refusal m.device.limit m (wordBytes n) e → err e m)
    (hoversized : ∀ d, m.Charged i n d → Buffer.capacity < n →
      err .oversized { m with device := d }) :
    Ends (outcome (reserve i n) m) post err := by
  have hrest : ∀ d, m.Charged i n d → Ends (outcome (do
      requireCapacity n d
      set (m.filled i n d)
      return 4 * n) m) post err :=
    fun d hd => Ends.bind (requireCapacity_ends (hgiven d hd) (hoversized d hd))
  rw [reserve, outcome_bind_of_ok (outcome_get m)]
  cases hplace : (m.memory.cell i).place with
  | host => exact hrest m.device (.host hplace)
  | device =>
    exact Ends.bind (Ends.lift (fun d hd => hrest d (.of_charge hplace hd))
      fun e he => hrefused _ hplace (charge_error he))

end Machine

/-- A tensor gets memory as its cell does, unless it has some already. -/
theorem Tensor.allocate_ends {post : Nat → Machine → Prop} {err : Failure → Machine → Prop}
    (hhas : t.place = .device → (m.memory.cell t.cell).reserved = true →
      err (.error (.allocation (.alreadyAllocated t.backend))) m)
    (hreserve : (t.place = .device → (m.memory.cell t.cell).reserved = false) →
      Ends (outcome (Machine.reserve t.cell t.info.elements) m) post err) :
    Ends (outcome t.allocate m) post err := by
  rw [Tensor.allocate, outcome_bind_of_ok (outcome_get m)]
  by_cases h : t.place = .device ∧ (m.memory.cell t.cell).reserved = true
  · rw [if_pos (by simpa using h)]
    exact hhas h.1 h.2
  · rw [if_neg (by simpa using h)]
    exact hreserve fun hplace => by simpa [hplace] using h

end HeteroNet
