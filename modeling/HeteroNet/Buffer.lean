import HeteroNet.Word

/-
The words of one tensor in storage order. A read or write outside a buffer has no result: all
operations here are partial in that one way, and `none` says so.
-/

namespace HeteroNet

abbrev Buffer := Array Word

namespace Buffer

/-- The most words that a buffer can have: its bytes are counted by a size that is not negative as a
signed one. -/
def capacity : Nat := 0x1fffffffffffffff

def zeros (n : Nat) : Buffer := Array.replicate n Word.zero

def read (b : Buffer) (i : Nat) : Option Word := b[i]?

def write (b : Buffer) (i : Nat) (w : Word) : Option Buffer :=
  if h : i < b.size then some (b.set i w h) else none

/-- The words from `start` on, up to but excluding `stop`. -/
def slice (b : Buffer) (start stop : Nat) : Option (List Word) :=
  if start ≤ stop ∧ stop ≤ b.size then some (b.toList.drop start |>.take (stop - start)) else none

/-- Writes the value of one place where it belongs. -/
def put {ι : Type} (offset : ι → Nat) (value : ι → Option Word) (b : Buffer) (i : ι) :
    Option Buffer := do
  b.write (offset i) (← value i)

/-- Writes the value of each place where it belongs, in the order of the list. -/
def fill {ι : Type} (offset : ι → Nat) (value : ι → Option Word) (places : List ι) (b : Buffer) :
    Option Buffer :=
  places.foldlM (put offset value) b

/-- Writes a run of words from `start` on. -/
def writeRun (b : Buffer) (start : Nat) (ws : List Word) : Option Buffer :=
  if start + ws.length ≤ b.size then
    fill (fun p : Word × Nat => start + p.2) (fun p => some p.1) ws.zipIdx b
  else none

/-- Replaces the contents by others of the same size. -/
def replace (b new : Buffer) : Option Buffer := if new.size = b.size then some new else none

@[simp] theorem size_zeros (n : Nat) : (zeros n).size = n := by simp [zeros]

theorem write_eq_some {b b' : Buffer} {i : Nat} {w : Word} :
    b.write i w = some b' ↔ ∃ h : i < b.size, b.set i w h = b' := by
  unfold write
  split
  · rename_i h
    simp [h]
  · rename_i h
    simp [h]

theorem size_write {b b' : Buffer} {i : Nat} {w : Word} (h : b.write i w = some b') :
    b'.size = b.size := by
  obtain ⟨_, rfl⟩ := write_eq_some.1 h
  simp

/-- Filling changes contents, never the size. -/
theorem size_fill {ι : Type} {offset : ι → Nat} {value : ι → Option Word} :
    ∀ {places : List ι} {b b' : Buffer}, fill offset value places b = some b' → b'.size = b.size
  | [], b, b', h => by
    simp only [fill, List.foldlM_nil, Option.pure_def, Option.some.injEq] at h
    rw [h]
  | i :: is, b, b', h => by
    simp only [fill, List.foldlM_cons, put, Option.bind_eq_bind, Option.bind_eq_some_iff] at h
    obtain ⟨b₁, ⟨w, _, hw⟩, h⟩ := h
    rw [size_fill h, size_write hw]

end Buffer

end HeteroNet
