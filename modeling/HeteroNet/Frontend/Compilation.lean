import HeteroNet.Compile
import HeteroNet.Frontend.Code
import HeteroNet.Session

/-
A model on its way to a plan. It is compiled once; a second attempt is refused, whether the
first succeeded or not. Sessions can be created once there is a plan.
-/

namespace HeteroNet

structure Compilation where
  /-- The model, until it is handed to the compiler. -/
  model : Option Model
  plan : Option Plan := none
  /-- Why compiling failed. -/
  error : Option Error := none
  deriving DecidableEq, Repr

/-- How a call on a compilation ends: with a code, unless it broke off. -/
abbrev Answer := Except Unit ResultCode

namespace Compilation

def new (m : Model) : Compilation := { model := some m }

/-- Compiles the model. -/
def finish (c : Compilation) (policy : Policy) (s : Platform) : Answer × Compilation × Platform :=
  match c.model with
  | none => (.ok .badState, c, s)
  | some m =>
    let c := { c with model := none }
    match StateT.run (ExceptT.run (compile m policy)) s with
    | (.ok plan, s) => (.ok .noError, { c with plan := some plan }, s)
    | (.error (.error e), s) => (.ok (.ofError e), { c with error := some e }, s)
    | (.error _, s) => (.error (), c, s)

/-- A session on the plan. -/
def createSession (c : Compilation) : Except ResultCode Session :=
  match c.plan with
  | some plan => .ok (Session.new plan)
  | none => .error .badState

end Compilation

end HeteroNet
