import HeteroNet.Model

/-
Depth-first search along the links from an operation to the operations that read what it writes.

The search keeps its own stack: an operation stands on it together with the number of the edge
to follow next. Pushed, an operation is open; once all its edges are followed it is done. Each
operation is pushed at most once, and each visit to the top of the stack either follows one edge
or finishes one operation, so a search takes at most as many steps as there are operations and
edges. The operations that finished, latest first, are in an order where writers stand before
readers, as long as there is no cycle.
-/

namespace HeteroNet

namespace Model

/-- The operations that read an output of operation `i`, each with the operand it reads. -/
def successors (m : Model) (i : OperationId) : Except Error (List (OperandId × OperationId)) := do
  let op ← m.operation i
  let edges ← op.outputs.mapM fun o => do
    return (← m.operands.get o).uses.map fun user => (o, user)
  return edges.flatten

/-- How often operation `i` is at the top of a search's stack: once for each edge, and once more
to be finished. -/
def visits (m : Model) (i : OperationId) : Nat :=
  match m.successors i with
  | .ok next => next.length + 1
  | .error _ => 1

/-- The number of operations and edges. -/
def searchBound (m : Model) : Nat :=
  (List.range m.operations.length).foldr (fun i total => m.visits i + total) 0

end Model

inductive Mark where
  | unvisited
  | opened
  | done
  deriving DecidableEq, Repr

structure Search where
  marks : List Mark
  stack : List (OperationId × Nat) := []
  /-- The operations that are done, latest first. -/
  finished : List OperationId := []
  deriving DecidableEq, Repr

namespace Search

def initial (m : Model) : Search := { marks := List.replicate m.operations.length .unvisited }

/-- Puts an operation on the stack. -/
def visit (s : Search) (i : OperationId) : Search :=
  { s with marks := s.marks.set i .opened, stack := (i, 0) :: s.stack }

/-- One visit to the top of the stack. `onOpen` decides about an edge back to an open
operation, which closes a cycle. -/
def step (m : Model) (onOpen : OperandId → Except Error Unit) (s : Search) :
    Except Error Search :=
  match s.stack with
  | [] => .ok s
  | (current, edge) :: rest => do
    match (← m.successors current)[edge]? with
    | none =>
      return { marks := s.marks.set current .done, stack := rest, finished := current :: s.finished }
    | some (via, user) =>
      let s : Search := { s with stack := (current, edge + 1) :: rest }
      match s.marks[user]? with
      | some .unvisited => return s.visit user
      | some .opened => do onOpen via; return s
      | _ => return s

/-- Takes steps until the stack is empty. -/
def run (m : Model) (onOpen : OperandId → Except Error Unit) : Nat → Search → Except Error Search
  | 0, s => .ok s
  | fuel + 1, s => if s.stack.isEmpty then .ok s else do run m onOpen fuel (← s.step m onOpen)

/-- Searches from operation `i`, unless it was met before. -/
def runFrom (m : Model) (onOpen : OperandId → Except Error Unit) (fuel : Nat) (s : Search)
    (i : OperationId) : Except Error Search :=
  if s.marks[i]? = some .unvisited then run m onOpen fuel (s.visit i) else .ok s

/-- Searches from every operation in index order. -/
def all (m : Model) (onOpen : OperandId → Except Error Unit) : Except Error Search :=
  (List.range m.operations.length).foldlM (runFrom m onOpen m.searchBound) (initial m)

end Search

end HeteroNet
