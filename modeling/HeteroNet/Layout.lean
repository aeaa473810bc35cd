import HeteroNet.Buffer
import HeteroNet.Shape

/-
The order in which the elements of a rank 4 tensor are stored. The logical order of a model is
channel last; a backend may keep tensors channel first. Tensors of any other rank are stored in
one order only.
-/

namespace HeteroNet

/-- Writes the value of every position inside the extents `s` where it belongs. -/
def Feature.fill (s : Feature) (offset : Feature → Nat) (value : Feature → Option Word)
    (b : Buffer) : Option Buffer :=
  s.visit (Buffer.put offset value) b

theorem Feature.fill_eq (s : Feature) (offset : Feature → Nat) (value : Feature → Option Word)
    (b : Buffer) : s.fill offset value b = Buffer.fill offset value s.positions b :=
  s.visit_eq _ b

theorem Feature.size_fill {s : Feature} {offset : Feature → Nat} {value : Feature → Option Word}
    {b b' : Buffer} (h : s.fill offset value b = some b') : b'.size = b.size := by
  rw [s.fill_eq] at h
  exact Buffer.size_fill h

inductive Layout where
  | nhwc
  | nchw
  deriving DecidableEq, Repr

namespace Layout

def name : Layout → String
  | nhwc => "NHWC"
  | nchw => "NCHW"

/-- Where the element at position `p` of a feature map with extents `s` is stored. -/
def offset : Layout → Feature → Feature → Nat
  | nhwc, s, p => ((p.n * s.h + p.h) * s.w + p.w) * s.c + p.c
  | nchw, s, p => ((p.n * s.c + p.c) * s.h + p.h) * s.w + p.w

/-- The extents in storage order. -/
def storageDims : Layout → Shape → Shape
  | nchw, [n, h, w, c] => [n, c, h, w]
  | _, s => s

/-- The place in storage order of the logical axis `axis` of a tensor of rank `rank`. -/
def storageAxis : Layout → (rank axis : Nat) → Nat
  | nchw, 4, 1 => 2
  | nchw, 4, 2 => 3
  | nchw, 4, 3 => 1
  | _, _, axis => axis

/-- Reorders a tensor of logical shape `s` from one storage order to another. Only rank 4 data
moves; what lies beyond the elements of the shape becomes zero. -/
def convert (src dst : Layout) (s : Shape) (data : Buffer) : Option Buffer :=
  match s.feature? with
  | some f =>
    if src = dst then some data
    else
      f.fill (dst.offset f) (fun p => data.read (src.offset f p)) (Buffer.zeros data.size)
  | none => some data

@[simp] theorem convert_self (l : Layout) (s : Shape) (data : Buffer) :
    convert l l s data = some data := by
  unfold convert
  split <;> simp

theorem size_convert {src dst : Layout} {s : Shape} {data out : Buffer}
    (h : convert src dst s data = some out) : out.size = data.size := by
  unfold convert at h
  split at h
  · split at h
    · cases h; rfl
    · simpa using Feature.size_fill h
  · cases h; rfl

end Layout

end HeteroNet
