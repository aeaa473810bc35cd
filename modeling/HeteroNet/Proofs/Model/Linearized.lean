import HeteroNet.Proofs.Model.Cycles
import HeteroNet.Proofs.Model.Lowered

/-
The order of a lowered model is topological (`linearize_topological`). The search behind it marks
operations when they are pushed and refuses nothing, so it does not look for cycles itself: that
there are none is what lowering has checked, with the search that refuses. A search that refused
nothing it met takes the same steps as one that refuses nothing at all, so both end, and with the
same list.
-/

namespace HeteroNet.Model

variable {m s : Model} {ps : List Placement}

/-- A checked model can be ordered. -/
theorem linearize_total (hc : m.Checked) (hphase : m.phase = .lowered) :
    ∃ order, m.linearize = .ok order := by
  obtain ⟨s, hs⟩ := discard_eq_ok.1 hc.acyclic
  have hall := Search.all_mono (f := fun _ => pure ()) (fun _ _ => rfl) hs
  exact ⟨s.finished, bind_eq_ok.2 ⟨(), requirePhase_ok.2 hphase, bind_eq_ok.2 ⟨s, hall, rfl⟩⟩⟩

/-- **The order of a lowered model is topological**: every operation stands in it once, and what
writes an operand stands before everything that reads it. -/
theorem linearize_topological (hlower : (lower ps).on m = (.ok (), s)) :
    ∃ order, s.linearize = .ok order ∧ order.Perm (List.range s.operations.length) ∧
      ∀ i w r, s.Writes w i → s.Reads r i → order.idxOf w < order.idxOf r := by
  obtain ⟨hl, hc, hphase⟩ := lower_linked hlower
  obtain ⟨order, horder⟩ := linearize_total hc hphase
  obtain ⟨hn, hclosed, hall⟩ := linearize_ok hl hc horder
  refine ⟨order, horder, ?_, fun i w r hw hr => ?_⟩
  · rw [List.perm_ext_iff_of_nodup hn List.nodup_range]
    exact fun j => (hall j).trans List.mem_range.symm
  · obtain ⟨op, hop, hi⟩ := id hw
    have hlt := (List.getElem?_eq_some_iff.1 hop).1
    obtain ⟨next, hnext, hmem⟩ := successors_linked hl hlt fun {x} hx => by
      obtain ⟨op', hop', hx⟩ := hx
      exact hc.output_lt (List.mem_of_getElem? hop') hx
    exact (hclosed.idxOf_lt hn ((hall w).2 hlt) hnext _ ((hmem i r).2 ⟨hw, hr⟩)).2

/-- `fannedOut` after it is lowered. -/
@[irreducible] def fannedLowered : Model :=
  ((lower fannedPlacements).on (finish.on fannedOut).2).2

/-- The operation that copies for the device was added after those that read the copy. It stands
between the one that writes what it copies and the one that reads both summands from the copy. -/
theorem linearize_fannedOut : ∃ order, fannedLowered.linearize = .ok order ∧
    order.Perm (List.range 7) ∧ order.idxOf 0 < order.idxOf 4 ∧ order.idxOf 4 < order.idxOf 1 := by
  have hlower : (lower fannedPlacements).on (finish.on fannedOut).2 = (.ok (), fannedLowered) := by
    rw [fannedLowered]
    exact outcome_eq (by decide +kernel)
  have hcount : fannedLowered.operations.length = 7 := by decide +kernel
  have hfirst : fannedLowered.operations[0]? = some ⟨[0], [1], .nop⟩ := by decide +kernel
  have hsum : fannedLowered.operations[1]? = some ⟨[6, 6], [2], .add 5⟩ := by decide +kernel
  have hcopy : fannedLowered.operations[4]? = some ⟨[1], [6], .permute "cpu" "gpu"⟩ := by
    decide +kernel
  obtain ⟨order, horder, hperm, hlt⟩ := linearize_topological hlower
  rw [hcount] at hperm
  exact ⟨order, horder, hperm, hlt 1 0 4 ⟨_, hfirst, by simp⟩ ⟨_, hcopy, by simp⟩,
    hlt 6 4 1 ⟨_, hcopy, by simp⟩ ⟨_, hsum, by simp⟩⟩

end HeteroNet.Model
