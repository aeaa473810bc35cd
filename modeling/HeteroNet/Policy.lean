import HeteroNet.Backend
import HeteroNet.Model
import HeteroNet.SortedMap
import HeteroNet.Text.Blank

/-
The choice of a backend for each kind of operation. An override for all kinds wins over one for
a single kind, which wins over the default. Overrides are read from pairs of a key and the name
of a backend; a value that is blank or `none` overrides nothing.
-/

namespace HeteroNet

structure Policy where
  all : Option BackendId := none
  /-- Overrides of single kinds, the latest first. -/
  perKind : List (Kind × BackendId) := []
  default : BackendId := "gpu"
  deriving DecidableEq, Repr

namespace Policy

/-- The keys of overrides may start with this. -/
def keyStart : String := "OP_BACKEND_"

/-- The key that overrides all kinds. -/
def allKey : String := "ALLOPS"

/-- What a key names, less the blanks around it and one `keyStart`. -/
def bareKey (key : String) : String :=
  let key := Text.trimChars key.toList
  let start := keyStart.toList
  String.ofList (if start.isPrefixOf key then key.drop start.length else key)

/-- The backend a value names, if it overrides anything. -/
def value? (value : String) : Option BackendId :=
  let value := Text.trim value
  if value.isEmpty || Text.equalIgnoringCase value "none" then none else some value

def withAll (p : Policy) (id : BackendId) : Policy := { p with all := some id }

def withKind (p : Policy) (k : Kind) (id : BackendId) : Policy :=
  { p with perKind := (k, id) :: p.perKind.filter (·.1 != k) }

def withDefault (p : Policy) (id : BackendId) : Policy := { p with default := id }

/-- Takes one pair into account. Keys that name nothing are ignored. -/
def addPair (p : Policy) (pair : String × String) : Policy :=
  match value? pair.2 with
  | none => p
  | some id =>
    if bareKey pair.1 == allKey then p.withAll id
    else
      match Kind.ofName? (bareKey pair.1) with
      | some k => p.withKind k id
      | none => p

/-- The policy of a list of overrides; later pairs win over earlier ones. -/
def ofPairs (pairs : List (String × String)) : Policy := pairs.foldl addPair {}

/-- The backend for operations of a kind. -/
def backendFor (p : Policy) (k : Kind) : BackendId :=
  (p.all.or (p.perKind.lookup k)).getD p.default

/-- The backend of every operation of a model, which must be registered and take the
operation. -/
def resolve (p : Policy) (r : Registry) (m : Model) : Except Error (List Placement) :=
  m.operations.mapM fun op => do
    let id := p.backendFor op.kind
    let b ← r.lookup id
    if !b.supports op.kind then throw (.resolution (.unresolvedOperation op.kind))
    return ⟨id, b.layout⟩

end Policy

end HeteroNet
