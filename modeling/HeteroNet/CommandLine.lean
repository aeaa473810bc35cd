import HeteroNet.Demo
import HeteroNet.Settings

/-
The command line: list the backends, show the plan of a demo, or run it.

Arguments that do not fit the usage end with code 2 before anything else is looked at. Then the
settings are read from the environment; they and everything after them end with code 1 when they
fail.
-/

namespace HeteroNet.CommandLine

/-- Where the operations of a demo are to run. -/
structure PlacementArgs where
  backend : Option BackendId := none
  /-- Overrides as given, in order. -/
  overrides : List String := []
  deriving DecidableEq, Repr

inductive Command where
  | backends
  | plan (demo : Demo) (placement : PlacementArgs)
  | run (demo : Demo) (placement : PlacementArgs) (json : Bool)
  | version
  deriving DecidableEq, Repr

/-- What a call leaves: its exit code and what it wrote. -/
structure Outcome where
  exit : Nat
  out : String := ""
  err : String := ""
  deriving DecidableEq, Repr

/-! ### Arguments -/

/-- The arguments of a subcommand, as far as they are read. -/
structure Parsed where
  demo : Option Demo := none
  placement : PlacementArgs := {}
  json : Bool := false

/-- The text starts as an option does; a dash alone does not. -/
def looksLikeOption (s : String) : Bool := s.startsWith "-" && s != "-"

/-- A long option and the value attached to it with an equals sign. -/
def splitOption (s : String) : String × Option String :=
  let cs := s.toList
  match cs.dropWhile (· != '=') with
  | [] => (s, none)
  | _ :: value => (String.ofList (cs.takeWhile (· != '=')), some (String.ofList value))

/-- The first text before and after an equals sign. -/
def splitPair (s : String) : Option (String × String) :=
  match splitOption s with
  | (key, some value) => some (key, value)
  | (_, none) => none

def addDemo (p : Parsed) (s : String) : Option Parsed :=
  match p.demo, Demo.ofName? s with
  | none, some d => some { p with demo := some d }
  | _, _ => none

/-- Gives an option that takes a value its value. An option for the backend may stand once. -/
def addValue (p : Parsed) (option value : String) : Option Parsed :=
  if option = "--backend" then
    if p.placement.backend.isSome then none
    else some { p with placement := { p.placement with backend := some value } }
  else
    some { p with placement := { p.placement with overrides := p.placement.overrides ++ [value] } }

def takesValue (option : String) : Bool := option = "--backend" || option = "--op"

/-- Reads the arguments of a subcommand. After a double dash nothing is an option. -/
def parseArgs (allowJson : Bool) : (plain : Bool) → Parsed → List String → Option Parsed
  | _, p, [] => some p
  | true, p, arg :: rest => do parseArgs allowJson true (← addDemo p arg) rest
  | false, p, arg :: rest =>
    if arg = "--" then parseArgs allowJson true p rest
    else if !looksLikeOption arg then do parseArgs allowJson false (← addDemo p arg) rest
    else
      match splitOption arg with
      | (option, some value) =>
        if takesValue option then do
          parseArgs allowJson false (← addValue p option value) rest
        else none
      | (option, none) =>
        if takesValue option then
          match rest with
          | value :: rest =>
            if looksLikeOption value then none
            else do parseArgs allowJson false (← addValue p option value) rest
          | [] => none
        else if option = "--json" && allowJson && !p.json then
          parseArgs allowJson false { p with json := true } rest
        else none

/-- The option that asks for the version. A cluster of short options is read from its start, so
one that begins with `V` asks for it too. -/
def asksVersion (arg : String) : Bool := arg = "--version" || arg.startsWith "-V"

def parse (args : List String) : Option Command :=
  match args with
  | ["backends"] | ["backends", "--"] => some .backends
  | "plan" :: args => do
    let p ← parseArgs false false {} args
    return .plan (← p.demo) p.placement
  | "run" :: args => do
    let p ← parseArgs true false {} args
    return .run (← p.demo) p.placement p.json
  | first :: _ => if asksVersion first then some .version else none
  | [] => none

/-! ### Policy -/

/-- Why a command failed: an error of the library, or arguments that mean nothing. -/
inductive Problem where
  | library (f : Failure)
  | badOverride (text : String)
  deriving DecidableEq, Repr

/-- The text on the error output. The error inside another is told on its own. -/
def Problem.report : Problem → String
  | badOverride text => "Error: override " ++ Text.quoted text ++ " is not NNAPI_NAME=BACKEND\n"
  | library .outOfBounds | library .oversized => ""
  | library (.error e) =>
    let inner := match e.cause? with
      | some text => "\n\nCaused by:\n    " ++ "\n    ".intercalate (text.splitOn "\n")
      | none => ""
    "Error: " ++ e.message ++ inner ++ "\n"

def pairOf (text : String) : Except Problem (String × String) :=
  match splitPair text with
  | some pair => .ok pair
  | none => .error (.badOverride text)

/-- Overrides on the command line stand in for those of the environment; a backend for all
operations wins over both. -/
def policyOf (args : PlacementArgs) (settings : Settings) (env : Environment) :
    Except Problem Policy := do
  let pairs ← args.overrides.mapM pairOf
  let policy := if pairs.isEmpty then Policy.ofEnvironment env else Policy.ofPairs pairs
  let policy := policy.withDefault settings.defaultBackend
  match args.backend with
  | some id => return policy.withAll id
  | none => return policy

/-! ### Output -/

def padRight (width : Nat) (s : String) : String := s ++ "".pushn ' ' (width - s.length)
def padLeft (width : Nat) (s : String) : String := "".pushn ' ' (width - s.length) ++ s

def backendLine (b : Backend) : String :=
  let kinds := (Kind.all.filter b.supports).map Kind.name
  padRight 4 b.id ++ " layout=" ++ b.layout.name ++ " ops=" ++ ",".intercalate kinds ++ "\n"

def planText (plan : Plan) : String :=
  let steps := plan.runnables.zipIdx.map fun (r, i) =>
    padLeft 3 (toString i) ++ "  " ++ r.label ++ "\n"
  let stats := plan.builders.map fun b => b.backend ++ ": " ++ b.stats.text ++ "\n"
  String.join (steps ++ stats)

/-- What a run of a demo came to. -/
structure Report where
  demo : String
  backends : List BackendId
  runnables : Nat
  shape : Shape
  output : List Word

namespace Report

def text (r : Report) : String :=
  let output := Text.bracketed (r.output.map NumberStyle.listing.write)
  r.demo ++ " on " ++ Text.bracketed (r.backends.map Text.quoted) ++ ": " ++ toString r.runnables
    ++ " runnables\noutput " ++ Text.numbers r.shape ++ " = " ++ output ++ "\n"

/-- A list in JSON, one member a line. -/
def jsonList (members : List String) : String :=
  if members.isEmpty then "[]"
  else "[\n" ++ ",\n".intercalate (members.map ("    " ++ ·)) ++ "\n  ]"

/-- A float in JSON, which has no words for what is not finite. -/
def jsonFloat (w : Word) : String :=
  if w.exponent = 255 then "null" else NumberStyle.report.write w

def json (r : Report) : String :=
  "\x7b\n  \"demo\": \"" ++ r.demo ++ "\",\n  \"backends\": "
    ++ jsonList (r.backends.map fun id => "\"" ++ id ++ "\"")
    ++ ",\n  \"runnables\": " ++ toString r.runnables
    ++ ",\n  \"output_shape\": " ++ jsonList (r.shape.map toString)
    ++ ",\n  \"output\": " ++ jsonList (r.output.map jsonFloat) ++ "\n\x7d\n"

end Report

/-! ### Commands -/

/-- Runs a call on a platform, and keeps what it left. -/
def perform {α : Type} (t : PlatformTask α) (s : Platform) : Except Problem (α × Platform) :=
  match StateT.run (ExceptT.run t) s with
  | (.ok a, s) => .ok (a, s)
  | (.error f, _) => .error (.library f)

/-- The problem with a check that found an error. -/
def checked {α : Type} (x : Except Error α) : Except Problem α :=
  x.mapError fun e => .library (.error e)

def compileDemo (demo : Demo) (args : PlacementArgs) (settings : Settings) (env : Environment) :
    Except Problem (Plan × Platform) := do
  let policy ← policyOf args settings env
  let model ← checked demo.model
  perform (compile model policy) settings.platform

/-- Carries out a command; the answer is what it prints. -/
def execute (c : Command) (env : Environment) : Except Problem String := do
  match c with
  | .version => return "nnforge-cli 0.1.0\n"
  | .backends =>
    let settings ← checked (Settings.ofEnvironment env)
    return String.join (settings.platform.registry.map backendLine)
  | .plan demo args =>
    let settings ← checked (Settings.ofEnvironment env)
    let (plan, _) ← compileDemo demo args settings env
    return planText plan
  | .run demo args json =>
    let settings ← checked (Settings.ofEnvironment env)
    let (plan, platform) ← compileDemo demo args settings env
    let ((shape, output), _) ← perform (Platform.onMachine (Demo.runRamp plan)) platform
    let report : Report :=
      { demo := demo.name, backends := plan.backends, runnables := plan.runnables.length,
        shape, output }
    return if json then report.json else report.text

/-- A whole call, from arguments and environment to exit code and output. -/
def call (args : List String) (env : Environment) : Outcome :=
  match parse args with
  | none => { exit := 2 }
  | some c =>
    match execute c env with
    | .ok out => { exit := 0, out }
    | .error p => { exit := 1, err := p.report }

/-- The environment variables a call may look at. -/
def variableNames : List String :=
  [Settings.defaultBackendVariable, Settings.memoryLimitVariable] ++
    (Policy.allKey :: Kind.all.map Kind.name).map (Policy.keyStart ++ ·)

end HeteroNet.CommandLine
