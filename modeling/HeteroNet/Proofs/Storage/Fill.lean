import HeteroNet.Buffer
import HeteroNet.Loop
import Mathlib.Data.List.Nodup

/-
What a fill leaves: at each place it goes through, the value of that place, and elsewhere what was
there. Places that share an offset must agree on the value, so nothing depends on their order.
-/

namespace HeteroNet.Buffer

variable {ι : Type}

@[simp] theorem read_eq (b : Buffer) (i : Nat) : b.read i = b[i]? := rfl

theorem write_of_lt {b : Buffer} {i : Nat} (h : i < b.size) (w : Word) :
    b.write i w = some (b.set i w h) := by
  simp [write, h]

theorem getElem?_zeros {n k : Nat} (h : k < n) : (zeros n)[k]? = some Word.zero := by
  simp [zeros, h]

/-- **A fill.** It succeeds if every place has a value and lies inside the buffer. -/
theorem fill_spec (offset : ι → Nat) (value : ι → Option Word) :
    ∀ (places : List ι) {b : Buffer}, (∀ p ∈ places, offset p < b.size) →
      (∀ p ∈ places, (value p).isSome) →
      (∀ p ∈ places, ∀ q ∈ places, offset p = offset q → value p = value q) →
      ∃ b', fill offset value places b = some b' ∧ b'.size = b.size ∧
        (∀ p ∈ places, b'[offset p]? = value p) ∧
        ∀ k, (∀ p ∈ places, offset p ≠ k) → b'[k]? = b[k]?
  | [], b, _, _, _ => ⟨b, rfl, rfl, by simp, fun _ _ => rfl⟩
  | p :: ps, b, hlt, hsome, hsame => by
    have hp := hlt p (by simp)
    obtain ⟨w, hw⟩ := Option.isSome_iff_exists.1 (hsome p (by simp))
    obtain ⟨b', hb', hsize, hat, hother⟩ := fill_spec offset value ps
      (b := b.set (offset p) w hp)
      (fun q hq => by simpa using hlt q (by simp [hq])) (fun q hq => hsome q (by simp [hq]))
      (fun q hq r hr => hsame q (by simp [hq]) r (by simp [hr]))
    refine ⟨b', ?_, by simpa using hsize, fun q hq => ?_, fun k hk => ?_⟩
    · rw [fill, List.foldlM_cons, put, hw]
      simp only [Option.bind_eq_bind, Option.bind_some, write_of_lt hp]
      exact hb'
    · by_cases hin : ∃ r ∈ ps, offset r = offset q
      · obtain ⟨r, hr, he⟩ := hin
        rw [← he, hat r hr]
        exact hsame r (by simp [hr]) q hq he
      · -- Nothing later goes to this offset, so the place is the first one.
        have hne : ∀ r ∈ ps, offset r ≠ offset q := fun r hr he => hin ⟨r, hr, he⟩
        obtain rfl : q = p := by
          rcases List.mem_cons.1 hq with rfl | hq
          · rfl
          · exact absurd rfl (hne q hq)
        rw [hother _ hne, hw]
        simp [hp]
    · rw [hother k fun q hq => hk q (by simp [hq])]
      exact Array.getElem?_set_ne hp (hk p (by simp))

/-- A place without a value ends the fill. -/
theorem fill_none {offset : ι → Nat} {value : ι → Option Word} {p : ι} :
    ∀ {places : List ι} {b : Buffer}, p ∈ places → value p = none →
      fill offset value places b = none
  | q :: qs, b, hp, hnone => by
    rw [fill, List.foldlM_cons]
    rcases List.mem_cons.1 hp with rfl | hp
    · simp [put, hnone]
    · cases put offset value b q with
      | none => rfl
      | some b' => exact fill_none hp hnone

theorem fill_append {offset : ι → Nat} {value : ι → Option Word} (ps qs : List ι) (b : Buffer) :
    fill offset value (ps ++ qs) b = (fill offset value ps b).bind (fill offset value qs) :=
  List.foldlM_append

theorem fill_map {κ : Type} {offset : ι → Nat} {value : ι → Option Word} (f : κ → ι)
    (ps : List κ) (b : Buffer) :
    fill offset value (ps.map f) b = fill (offset ∘ f) (value ∘ f) ps b := by
  rw [fill, List.foldlM_map]
  rfl

/-- Fills made one after another are one fill. -/
theorem foldlM_fill {κ : Type} (places : κ → List ι) (offset : κ → ι → Nat)
    (value : κ → ι → Option Word) (rows : List κ) (b : Buffer) :
    rows.foldlM (fun out r => fill (offset r) (value r) (places r) out) b
      = fill (fun p : κ × ι => offset p.1 p.2) (fun p => value p.1 p.2)
          (rows.flatMap fun r => (places r).map fun i => (r, i)) b := by
  rw [fill, Loop.foldlM_flatMap]
  congr 1
  funext out r
  rw [List.foldlM_map]
  rfl

/-- The row `k`, if the words are rows of length `n`. -/
def row (b : Buffer) (n k : Nat) : List Word :=
  (b.toList.drop (k * n)).take ((k + 1) * n - k * n)

theorem slice_row {b : Buffer} {k m n : Nat} (hb : b.size = m * n) (hk : k < m) :
    b.slice (k * n) ((k + 1) * n) = some (b.row n k) := by
  have hle : (k + 1) * n ≤ m * n := Nat.mul_le_mul_right _ hk
  rw [slice, if_pos ⟨Nat.mul_le_mul_right _ (Nat.le_succ k), hb ▸ hle⟩]
  rfl

theorem length_row {b : Buffer} {k m n : Nat} (hb : b.size = m * n) (hk : k < m) :
    (b.row n k).length = n := by
  have hle : (k + 1) * n ≤ b.size := hb ▸ Nat.mul_le_mul_right _ hk
  simp only [row, List.length_take, List.length_drop, Array.length_toList, Nat.succ_mul] at hle ⊢
  omega

theorem getElem?_row (b : Buffer) {i n : Nat} (k : Nat) (hi : i < n) :
    (b.row n k)[i]? = b[k * n + i]? := by
  have hi' : i < (k + 1) * n - k * n := by
    rw [Nat.succ_mul]
    omega
  simp only [row, List.getElem?_take, hi', if_true, List.getElem?_drop, Array.getElem?_toList]

/-- The same buffer twice, if both have an entry for every index. -/
theorem ext_of_getElem? {x y : Buffer} (h : ∀ k : Nat, x[k]? = y[k]?) : x = y :=
  Array.ext_getElem? h

/-- Two buffers of one size agree if they do inside. -/
theorem ext_of_lt {x y : Buffer} {n : Nat} (hx : x.size = n) (hy : y.size = n)
    (h : ∀ k, k < n → x[k]? = y[k]?) : x = y := by
  refine ext_of_getElem? fun k => ?_
  by_cases hk : k < n
  · exact h k hk
  · rw [Array.getElem?_eq_none (by omega), Array.getElem?_eq_none (by omega)]

end HeteroNet.Buffer
