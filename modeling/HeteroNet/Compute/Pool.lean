import HeteroNet.Layout
import HeteroNet.Window

/-
Pooling. Padding takes no part: it never is the largest element, and it is not counted in a
mean.
-/

namespace HeteroNet

structure PoolGeometry where
  input : Feature
  output : Feature
  window : Window
  deriving DecidableEq, Repr

namespace Compute

/-- The input words under the window of the output at `p`. -/
def windowWords (g : PoolGeometry) (layout : Layout) (input : Buffer) (p : Feature) :
    Option (List Word) :=
  let word (t : Tap) := input.read (layout.offset g.input ⟨p.n, t.inputH, t.inputW, p.c⟩)
  (g.window.visit g.input p.h p.w (Loop.collect word) []).map List.reverse

theorem windowWords_eq (g : PoolGeometry) (layout : Layout) (input : Buffer) (p : Feature) :
    windowWords g layout input p
      = (g.window.taps g.input p.h p.w).mapM fun t =>
          input.read (layout.offset g.input ⟨p.n, t.inputH, t.inputW, p.c⟩) := by
  simp only [windowWords, Window.visit_eq, Loop.foldlM_collect]
  simp

/-- Reduces each window to one word. -/
def pool (reduce : List Word → Word) (g : PoolGeometry) (layout : Layout) (input : Buffer)
    (activation : Activation) (output : Buffer) : Option Buffer :=
  g.output.fill (layout.offset g.output)
    (fun p => do return activation.apply (reduce (← windowWords g layout input p))) output

def largest (ws : List Word) : Word := ws.foldl Word.max Word.negInfinity

def mean (ws : List Word) : Word :=
  if ws.isEmpty then Word.zero
  else (ws.foldl Word.add Word.zero).div (Word.ofNat ws.length)

def maxPool2d : PoolGeometry → Layout → Buffer → Activation → Buffer → Option Buffer :=
  pool largest

def avgPool2d : PoolGeometry → Layout → Buffer → Activation → Buffer → Option Buffer :=
  pool mean

end Compute

end HeteroNet
