import HeteroNet.Proofs.Machine.Holders
import HeteroNet.Proofs.Plan.Tallied

/-
Giving memory to tensors one after another. Which of them get some depends on what the device has
left and on which have some already (`grants`). The others are not touched, and the builder counts
those that got memory also if it then stops (`reserveAll_grants`).
-/

namespace HeteroNet

variable {m m' m'' : Machine} {mem : Memory} {d : Device} {t : Tensor} {ts : List Tensor}

/-! ## What the device has left -/

namespace Device

/-- The device has so much left. -/
def Affords (d : Device) (bytes : Nat) : Prop :=
  ∀ l, d.limit = some l → (d.allocated + UInt64.ofNat bytes).toNat ≤ l

instance (d : Device) (bytes : Nat) : Decidable (d.Affords bytes) :=
  decidable_of_iff (∀ l ∈ d.limit, (d.allocated + UInt64.ofNat bytes).toNat ≤ l) Iff.rfl

def charged (d : Device) (bytes : Nat) : Device :=
  { d with allocated := d.allocated + UInt64.ofNat bytes }

@[simp] theorem charged_charged (d : Device) (bytes bytes' : Nat) :
    (d.charged bytes).charged bytes' = d.charged (bytes + bytes') := by
  simp [charged, UInt64.add_assoc]

theorem affords_charged {bytes bytes' : Nat} :
    (d.charged bytes).Affords bytes' ↔ d.Affords (bytes + bytes') := by
  simp [Affords, charged, UInt64.add_assoc]

/-- The device can count so many bytes more. -/
def Counts (d : Device) (bytes : Nat) : Prop := d.allocated.toNat + bytes < Size.modulus

theorem Counts.toNat {bytes : Nat} (h : d.Counts bytes) :
    (d.allocated + UInt64.ofNat bytes).toNat = d.allocated.toNat + bytes := by
  have hbytes : (UInt64.ofNat bytes).toNat = bytes :=
    UInt64.toNat_ofNat_of_lt' (Nat.lt_of_le_of_lt (Nat.le_add_left _ _) h)
  rw [UInt64.toNat_add, hbytes]
  exact Nat.mod_eq_of_lt h

theorem Counts.of_le {bytes bytes' : Nat} (h : d.Counts bytes) (hle : bytes' ≤ bytes) :
    d.Counts bytes' := Nat.lt_of_le_of_lt (Nat.add_le_add_left hle _) h

theorem Counts.charged {bytes bytes' : Nat} (h : d.Counts (bytes + bytes')) :
    (d.charged bytes).Counts bytes' := by
  have hbytes := (h.of_le (Nat.le_add_right bytes bytes')).toNat
  rw [Counts, Device.charged, hbytes, Nat.add_assoc]
  exact h

/-- What is counted right and can be afforded can be afforded in part. -/
theorem Affords.of_le {bytes bytes' : Nat} (h : d.Affords bytes) (hcounts : d.Counts bytes)
    (hle : bytes' ≤ bytes) : d.Affords bytes' := fun l hl => by
  have hall := h l hl
  rw [hcounts.toNat] at hall
  rw [(hcounts.of_le hle).toNat]
  omega

end Device

/-- What the tensor takes of the device. -/
def Tensor.taken (t : Tensor) : Nat :=
  match t.place with
  | .host => 0
  | .device => 4 * t.info.elements

/-- A buffer can have as many words as the tensor has elements. -/
def Tensor.Fits (t : Tensor) : Prop := t.info.elements ≤ Buffer.capacity

instance (t : Tensor) : Decidable t.Fits := inferInstanceAs (Decidable (_ ≤ _))

/-- A tensor gets memory if a buffer can be as large, and for a device tensor if it has none and
there is enough. -/
def Tensor.Gets (mem : Memory) (d : Device) (t : Tensor) : Prop :=
  t.Fits ∧ (t.place = .device →
    (mem.cell t.cell).reserved = false ∧ d.Affords (4 * t.info.elements))

instance (mem : Memory) (d : Device) (t : Tensor) : Decidable (t.Gets mem d) :=
  inferInstanceAs (Decidable (_ ∧ (_ → _)))

/-- The tensors that get memory, one after another, up to the first that gets none. -/
def grants (mem : Memory) : Device → List Tensor → List Tensor
  | _, [] => []
  | d, t :: ts => if t.Gets mem d then t :: grants mem (d.charged t.taken) ts else []

/-- Why a tensor gets no memory. -/
inductive Tensor.Denied (mem : Memory) (t : Tensor) : Failure → Prop
  | reserved : t.place = .device → (mem.cell t.cell).reserved = true →
    Denied mem t (.error (.allocation (.alreadyAllocated t.backend)))
  | exhausted (available : Nat) : t.place = .device → (mem.cell t.cell).reserved = false →
    Denied mem t (.error (.allocation
      (.outOfMemory (Machine.wordBytes t.info.elements).toNat available)))
  | oversized : ¬t.Fits → Denied mem t .oversized

/-- A tensor that has memory is not refused for want of any. -/
theorem Tensor.Denied.outOfMemory_iff {mem : Memory} {err : Error} (h : t.Denied mem (.error err)) :
    OutOfMemory (.error err) ↔ (mem.cell t.cell).reserved = false := by
  cases h with
  | reserved _ hreserved =>
    rw [hreserved]
    exact iff_of_false nofun nofun
  | exhausted available _ hfree => exact iff_of_true ⟨_, available, rfl⟩ hfree

/-- Only the device refuses. -/
theorem Tensor.Denied.place {mem : Memory} {err : Error} (h : t.Denied mem (.error err)) :
    t.place = .device := by
  cases h <;> assumption

theorem Tensor.Denied.congr {mem mem' : Memory} {e : Failure} (h : t.Denied mem e)
    (hsame : (mem.cell t.cell).reserved = (mem'.cell t.cell).reserved) : t.Denied mem' e := by
  cases h with
  | reserved hplace hreserved => exact .reserved hplace (hsame ▸ hreserved)
  | exhausted n hplace hfree => exact .exhausted n hplace (hsame ▸ hfree)
  | oversized hlarge => exact .oversized hlarge

/-- Nothing happened to memory but that the tensors `ts` got some. -/
structure Granted (ts : List Tensor) (m m' : Machine) : Prop where
  length : m'.memory.length = m.memory.length
  place : ∀ i, (m'.memory.cell i).place = (m.memory.cell i).place
  reserved : ∀ i < m.memory.length, (m'.memory.cell i).reserved =
    ((m.memory.cell i).reserved || decide (i ∈ ts.map Tensor.cell))

/-- Nothing happened at all but that the tensors `ts` got memory. -/
structure Given (ts : List Tensor) (m m' : Machine) : Prop extends Granted ts m m' where
  device : m'.device = m.device.charged (ts.map Tensor.taken).sum

theorem Granted.of_memory (h : m'.memory = m.memory) : Granted [] m m' where
  length := congrArg List.length h
  place i := congrArg (fun mem => (Memory.cell mem i).place) h
  reserved i _ := by simp [h]

theorem Granted.cons (h : Granted [t] m m') (h' : Granted ts m' m'') :
    Granted (t :: ts) m m'' where
  length := h'.length.trans h.length
  place i := (h'.place i).trans (h.place i)
  reserved i hi := by
    rw [h'.reserved i (h.length ▸ hi), h.reserved i hi]
    simp [Bool.or_assoc]

theorem Device.charged_zero (d : Device) : d.charged 0 = d := by simp [charged]

/-- The tensor's cell lies where it should. -/
def Tensor.Sits (m : Machine) (t : Tensor) : Prop :=
  t.cell < m.memory.length ∧ (m.memory.cell t.cell).place = t.place

theorem Tensor.Sits.granted (h : t.Sits m) (hg : Granted ts m m') : t.Sits m' :=
  ⟨hg.length ▸ h.1, (hg.place _).trans h.2⟩

/-- Zeros in the tensor's cell, and what they take charged. -/
theorem Tensor.Sits.given (h : t.Sits m) (hd : m.Charged t.cell t.info.elements d) :
    Given [t] m (m.filled t.cell t.info.elements d) := by
  refine ⟨⟨List.length_modify .., fun i => ?_, fun i hi => ?_⟩, ?_⟩
  · exact Memory.cell_modify_holds (P := fun c => c.place = (m.memory.cell i).place)
      (fun _ hc => hc) rfl
  · by_cases hit : i = t.cell
    · subst hit
      rw [Machine.filled, Memory.cell_modify_self hi]
      simp
    · rw [Machine.filled, Memory.cell_modify_other (Ne.symm hit)]
      simp [hit]
  · have hcharged := hd.device
    rw [h.2] at hcharged
    rw [Machine.filled, hcharged]
    cases hplace : t.place <;> simp [Device.charged, Tensor.taken, hplace, Machine.wordBytes]

/-- What a tensor is charged for is afforded. -/
theorem Machine.Charged.affords {n : Nat} (h : m.Charged t.cell n d)
    (hplace : (m.memory.cell t.cell).place = .device) : m.device.Affords (4 * n) := by
  obtain ⟨rfl, hfits⟩ := h
  intro l hl
  simpa [hplace, Machine.wordBytes] using hfits hplace l hl

/-- A tensor gets memory, or it hears why it gets none and nothing happens to memory, nor to the
device unless the call breaks off. -/
theorem Tensor.Sits.allocate (h : t.Sits m) : Ends (outcome t.allocate m)
    (fun bytes m' => t.Gets m.memory m.device ∧ bytes = 4 * t.info.elements ∧ Given [t] m m')
    (fun e m' => m'.memory = m.memory ∧ (e ≠ .oversized → m'.device = m.device) ∧
      ¬t.Gets m.memory m.device ∧ t.Denied m.memory e) := by
  refine Tensor.allocate_ends (fun hplace hreserved => ?_) fun hfree =>
    Machine.reserve_ends (fun d hd hfits => ?_) (fun e hplace he => ?_) fun d _ hlarge => ?_
  · refine ⟨rfl, fun _ => rfl, fun hgets => ?_, .reserved hplace hreserved⟩
    rw [(hgets.2 hplace).1] at hreserved
    cases hreserved
  · exact ⟨⟨hfits, fun hplace => ⟨hfree hplace, hd.affords (h.2.trans hplace)⟩⟩, rfl, h.given hd⟩
  · have hplace' : t.place = .device := h.2.symm.trans hplace
    obtain ⟨l, hl, hlt, rfl⟩ := he
    exact ⟨rfl, fun _ => rfl, fun hgets => Nat.not_le.2 hlt ((hgets.2 hplace').2 l hl),
      .exhausted _ hplace' (hfree hplace')⟩
  · have hlarge' : ¬t.Fits := Nat.not_le.2 hlarge
    exact ⟨rfl, fun hne => absurd rfl hne, fun hgets => hlarge' hgets.1, .oversized hlarge'⟩

theorem gets_congr {mem' : Memory} (h : (mem'.cell t.cell).reserved = (mem.cell t.cell).reserved) :
    t.Gets mem' d ↔ t.Gets mem d := by
  simp [Tensor.Gets, h]

theorem grants_congr {mem' : Memory} : ∀ {ts : List Tensor} {d : Device},
    (∀ t ∈ ts, (mem'.cell t.cell).reserved = (mem.cell t.cell).reserved) →
    grants mem' d ts = grants mem d ts
  | [], _, _ => rfl
  | t :: ts, d, h => by
    have hrest := grants_congr (d := d.charged t.taken) fun u hu => h u (List.mem_cons_of_mem _ hu)
    simp only [grants, gets_congr (h t List.mem_cons_self), hrest]

theorem grants_subset : ∀ (ts : List Tensor) (d : Device), grants mem d ts ⊆ ts
  | [], _ => List.Subset.refl _
  | t :: ts, d => by
    unfold grants
    split
    · exact List.cons_subset_cons t (grants_subset ts _)
    · exact List.nil_subset _

/-- If none of them has memory yet, all of them get some if a buffer can be as large as each and there
is enough for all. -/
theorem grants_eq_self : ∀ {ts : List Tensor} {d : Device}, ts ≠ [] →
    (∀ t ∈ ts, t.place = .device ∧ (mem.cell t.cell).reserved = false) →
    d.Counts (bytesFor ts) →
    (grants mem d ts = ts ↔ (∀ t ∈ ts, t.Fits) ∧ d.Affords (bytesFor ts))
  | [], _, hne, _, _ => absurd rfl hne
  | [t], d, _, h, _ => by
    obtain ⟨hplace, hfree⟩ := h t List.mem_cons_self
    simp [grants, Tensor.Gets, hplace, hfree, bytesFor]
  | t :: u :: us, d, _, h, hcounts => by
    obtain ⟨hplace, hfree⟩ := h t List.mem_cons_self
    have htaken : t.taken = 4 * t.info.elements := by simp [Tensor.taken, hplace]
    have hsum : bytesFor (t :: u :: us) = 4 * t.info.elements + bytesFor (u :: us) :=
      bytesFor_cons ..
    have hrest : grants mem (d.charged t.taken) (u :: us) = u :: us ↔ _ :=
      grants_eq_self (by simp) (fun v hv => h v (List.mem_cons_of_mem _ hv))
        (htaken ▸ Device.Counts.charged (hsum ▸ hcounts))
    rw [Device.affords_charged, htaken, ← hsum] at hrest
    rw [grants, htaken, List.forall_mem_cons]
    by_cases hgets : t.Gets mem d
    · rw [if_pos hgets, List.cons.injEq, and_iff_right rfl, hrest, and_assoc,
        and_iff_right hgets.1]
    · rw [if_neg hgets]
      refine iff_of_false (by simp) fun hall => hgets ⟨hall.1.1, fun _ => ⟨hfree, ?_⟩⟩
      exact hall.2.of_le hcounts (hsum ▸ Nat.le_add_right _ _)

namespace TensorBuilder

/-- The builder that has counted some more of its tensors. -/
def counting (b : TensorBuilder) (ts : List Tensor) : TensorBuilder :=
  { b with stats := { b.stats with
      bytes := b.stats.bytes + bytesFor ts, tensors := b.stats.tensors + ts.length } }

theorem counting_cons (b : TensorBuilder) (t : Tensor) (ts : List Tensor) :
    (b.countTensor (4 * t.info.elements)).counting ts = b.counting (t :: ts) := by
  simp only [counting, countTensor, bytesFor_cons, List.length_cons, Nat.add_assoc, Nat.add_comm 1]

/-- How giving memory to tensors with cells of their own ends. Those that get some are counted, and
it succeeds if they are all. -/
theorem reserveAll_grants : ∀ {ts : List Tensor} {b : TensorBuilder} {m : Machine},
    (∀ t ∈ ts, t.Sits m) → (ts.map Tensor.cell).Nodup →
    ∃ r m', reserveAll ts b m = (r, b.counting (grants m.memory m.device ts), m') ∧
      Granted (grants m.memory m.device ts) m m' ∧
      (r ≠ .error .oversized →
        m'.device = m.device.charged ((grants m.memory m.device ts).map Tensor.taken).sum) ∧
      Ends (r, m') (fun _ _ => grants m.memory m.device ts = ts) fun e _ =>
        ∃ t behind, ts = grants m.memory m.device ts ++ t :: behind ∧ t.Denied m.memory e
  | [], b, m, _, _ => ⟨_, m, rfl, .of_memory rfl, fun _ => (Device.charged_zero _).symm, rfl⟩
  | t :: ts, b, m, hsits, hn => by
    obtain ⟨hcell, hn⟩ := List.nodup_cons.1 hn
    have hends := (hsits t List.mem_cons_self).allocate
    unfold reserveAll
    rw [Task.on_eq]
    revert hends
    obtain ⟨r, m₁⟩ := outcome t.allocate m
    cases r with
    | error e =>
      rintro ⟨hmemory, hdevice, hnot, hdenied⟩
      simp only [grants, if_neg hnot]
      refine ⟨_, m₁, rfl, .of_memory hmemory, fun hne => ?_, t, ts, rfl, hdenied⟩
      exact (hdevice fun he => hne (congrArg _ he)).trans (Device.charged_zero _).symm
    | ok bytes =>
      rintro ⟨hgets, rfl, hgiven⟩
      have hsame : ∀ u ∈ ts, (m₁.memory.cell u.cell).reserved = (m.memory.cell u.cell).reserved := by
        intro u hu
        have hne : u.cell ≠ t.cell := fun he => hcell (he ▸ List.mem_map_of_mem hu)
        simp [hgiven.reserved _ (hsits u (List.mem_cons_of_mem _ hu)).1, hne]
      obtain ⟨r, m', hrun, hgranted, hdevice', hends⟩ := reserveAll_grants
        (b := b.countTensor (4 * t.info.elements))
        (fun u hu => (hsits u (List.mem_cons_of_mem _ hu)).granted hgiven.toGranted) hn
      have hdevice : m₁.device = m.device.charged t.taken := by simp [hgiven.device]
      rw [grants_congr hsame, hdevice] at hrun hgranted hdevice' hends
      have hgrants : grants m.memory m.device (t :: ts)
          = t :: grants m.memory (m.device.charged t.taken) ts := by
        rw [grants, if_pos hgets]
      rw [hgrants, ← counting_cons]
      refine ⟨r, m', hrun, hgiven.toGranted.cons hgranted, fun hne => ?_,
        hends.mono (fun _ _ hall => congrArg _ hall) ?_⟩
      · rw [hdevice' hne, Device.charged_charged, List.map_cons, List.sum_cons]
      · rintro e _ ⟨u, behind, hts, hdenied⟩
        exact ⟨u, behind, congrArg (t :: ·) hts, hdenied.congr (hsame u (hts ▸ by simp))⟩

end TensorBuilder

end HeteroNet
