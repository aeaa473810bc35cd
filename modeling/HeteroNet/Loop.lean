/-
Counting loops. A step may have no result; then the loop has none either and goes no further, so
that its cost is that of the steps it takes, however far it was to count.
-/

namespace HeteroNet.Loop

/-- Runs `step` with `i`, `i + 1` and so on, `left` times in all. -/
def countFrom {β : Type} (step : β → Nat → Option β) : (left i : Nat) → β → Option β
  | 0, _, b => some b
  | left + 1, i, b =>
    match step b i with
    | some b => countFrom step left (i + 1) b
    | none => none

/-- Runs `step` with `0`, …, `n - 1` in turn. -/
def count {β : Type} (n : Nat) (step : β → Nat → Option β) (b : β) : Option β :=
  countFrom step n 0 b

/-- One step of a loop that collects what `f` gives, the latest first. -/
def collect {ι α : Type} (f : ι → Option α) (found : List α) (i : ι) : Option (List α) := do
  return (← f i) :: found

/-- What `f` gives for `0`, …, `n - 1`. -/
def gather {α : Type} (n : Nat) (f : Nat → Option α) : Option (List α) :=
  (count n (collect f) []).map List.reverse

theorem countFrom_eq {β : Type} (step : β → Nat → Option β) :
    ∀ (left i : Nat) (b : β), countFrom step left i b = (List.range' i left).foldlM step b
  | 0, _, _ => rfl
  | left + 1, i, b => by
    simp only [countFrom, List.range'_succ, List.foldlM_cons, Option.bind_eq_bind]
    cases step b i with
    | none => rfl
    | some b => exact countFrom_eq step left (i + 1) b

theorem count_eq {β : Type} (n : Nat) (step : β → Nat → Option β) (b : β) :
    count n step b = (List.range n).foldlM step b := by
  rw [count, countFrom_eq, List.range_eq_range']

/-- A loop over a `flatMap` is a loop of loops. -/
theorem foldlM_flatMap {ι κ β : Type} (f : ι → List κ) (step : β → κ → Option β) :
    ∀ (l : List ι) (b : β),
      (l.flatMap f).foldlM step b = l.foldlM (fun b i => (f i).foldlM step b) b
  | [], _ => rfl
  | i :: l, b => by
    simp only [List.flatMap_cons, List.foldlM_append, List.foldlM_cons]
    congr 1
    funext b
    exact foldlM_flatMap f step l b

theorem foldlM_collect {ι α : Type} (f : ι → Option α) :
    ∀ (l : List ι) (found : List α),
      (l.foldlM (collect f) found).map List.reverse = (l.mapM f).map (found.reverse ++ ·)
  | [], found => by simp
  | i :: l, found => by
    simp only [List.foldlM_cons, List.mapM_cons, collect]
    cases f i with
    | none => rfl
    | some x =>
      have := foldlM_collect f l (x :: found)
      simp only [List.reverse_cons, List.append_assoc] at this
      simp only [Option.pure_def, Option.bind_eq_bind, Option.bind_some, this]
      cases l.mapM f <;> simp

theorem gather_eq {α : Type} (n : Nat) (f : Nat → Option α) :
    gather n f = (List.range n).mapM f := by
  rw [gather, count_eq, foldlM_collect]
  simp

end HeteroNet.Loop
