import HeteroNet.Settings

/-
Settings of the event log: the level from which events are kept, the format of a line, and a
file that gets a copy.
-/

namespace HeteroNet

inductive LogLevel where
  | error
  | warn
  | info
  | debug
  | trace
  deriving DecidableEq, Repr

inductive LogFormat where
  | human
  | json
  deriving DecidableEq, Repr

inductive LogError where
  | invalidLevel (text : String)
  | invalidFormat (text : String)
  deriving DecidableEq, Repr

namespace LogError

def message : LogError → String
  | invalidLevel text => "invalid log level: " ++ text
  | invalidFormat text => "invalid log format: " ++ text

end LogError

namespace LogLevel

def name : LogLevel → String
  | error => "error"
  | warn => "warn"
  | info => "info"
  | debug => "debug"
  | trace => "trace"

/-- Reads a level, without regard to case and to blanks around it. -/
def read (text : String) : Except LogError LogLevel :=
  match Text.lowerAscii (Text.trim text) with
  | "error" => .ok error
  | "warn" | "warning" => .ok warn
  | "info" => .ok info
  | "debug" => .ok debug
  | "trace" => .ok trace
  | other => .error (.invalidLevel other)

end LogLevel

namespace LogFormat

def name : LogFormat → String
  | human => "Human"
  | json => "Json"

/-- Reads a format, without regard to case and to blanks around it. -/
def read (text : String) : Except LogError LogFormat :=
  match Text.lowerAscii (Text.trim text) with
  | "human" | "pretty" | "console" => .ok human
  | "json" | "structured" => .ok json
  | other => .error (.invalidFormat other)

end LogFormat

structure LogSettings where
  level : LogLevel := .warn
  format : LogFormat := .human
  /-- Spans of time are logged when they end. -/
  spans : Bool := false
  file : Option String := none
  deriving DecidableEq, Repr

namespace LogSettings

/-- The log settings of an environment; what cannot be read counts as not set. -/
def ofEnvironment (env : Environment) : LogSettings :=
  { level := ((env "NNFORGE_LOG_LEVEL").bind fun s => (LogLevel.read s).toOption).getD .warn
    format := ((env "NNFORGE_LOG_FORMAT").bind fun s => (LogFormat.read s).toOption).getD .human
    file := env "NNFORGE_LOG_FILE" }

/-- The settings that a level and a format, each perhaps left out, make up. -/
def ofTexts (level format : Option String) (spans : Bool) (file : Option String) :
    Except LogError LogSettings := do
  let level ← match level with
    | some s => LogLevel.read s
    | none => pure .warn
  let format ← match format with
    | some s => LogFormat.read s
    | none => pure .human
  return { level, format, spans, file }

end LogSettings

end HeteroNet
