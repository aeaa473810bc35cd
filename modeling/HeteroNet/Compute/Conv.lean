import HeteroNet.Layout
import HeteroNet.Window

/-
Convolution in two dimensions. Input, weights and output are stored in one layout. Each output
element starts from the bias of its channel and adds the products under the window row by row,
channel fastest.
-/

namespace HeteroNet

structure ConvGeometry where
  input : Feature
  /-- Output channels, height, width, input channels. -/
  weights : Feature
  output : Feature
  strideH : Nat
  strideW : Nat
  padding : Padding
  deriving DecidableEq, Repr

namespace ConvGeometry

def window (g : ConvGeometry) : Window :=
  ⟨g.weights.h, g.weights.w, g.strideH, g.strideW, g.padding⟩

/-- The input and weight positions that meet at tap `t` of the output at `p`, in input channel
`ic`. -/
def product (p : Feature) (t : Tap) (ic : Nat) : Feature × Feature :=
  (⟨p.n, t.inputH, t.inputW, ic⟩, ⟨p.c, t.windowH, t.windowW, ic⟩)

/-- The input and weight positions whose products make up the output at `p`. -/
def products (g : ConvGeometry) (p : Feature) : List (Feature × Feature) :=
  (g.window.taps g.input p.h p.w).flatMap fun t => (List.range g.input.c).map (product p t)

end ConvGeometry

namespace Compute

/-- Adds the product at one input and weight position to a sum. -/
def addProduct (g : ConvGeometry) (layout : Layout) (input weights : Buffer) (sum : Word)
    (at' : Feature × Feature) : Option Word := do
  let x ← input.read (layout.offset g.input at'.1)
  let w ← weights.read (layout.offset g.weights at'.2)
  return sum.add (x.mul w)

/-- The bias and all products of the output at `p`, summed in order. -/
def convSum (g : ConvGeometry) (layout : Layout) (input weights : Buffer) (p : Feature)
    (start : Word) : Option Word :=
  g.window.visit g.input p.h p.w (fun sum t =>
    Loop.count g.input.c (fun sum ic =>
      addProduct g layout input weights sum (ConvGeometry.product p t ic)) sum) start

theorem convSum_eq (g : ConvGeometry) (layout : Layout) (input weights : Buffer) (p : Feature)
    (start : Word) :
    convSum g layout input weights p start
      = (g.products p).foldlM (addProduct g layout input weights) start := by
  simp only [convSum, ConvGeometry.products, Window.visit_eq, Loop.foldlM_flatMap, Loop.count_eq,
    List.foldlM_map]

def convAt (g : ConvGeometry) (layout : Layout) (input weights bias : Buffer)
    (activation : Activation) (p : Feature) : Option Word := do
  return activation.apply (← convSum g layout input weights p (← bias.read p.c))

def conv2d (g : ConvGeometry) (layout : Layout) (input weights bias : Buffer)
    (activation : Activation) (output : Buffer) : Option Buffer :=
  g.output.fill (layout.offset g.output) (convAt g layout input weights bias activation) output

end Compute

end HeteroNet
