import HeteroNet.CommandLine

/-
The program: arguments and environment in, output and exit code out.
-/

open HeteroNet

def main (args : List String) : IO UInt32 := do
  let mut found : List (String × String) := []
  for name in CommandLine.variableNames do
    if let some value ← IO.getEnv name then
      found := (name, value) :: found
  let outcome := CommandLine.call args fun name => found.lookup name
  (← IO.getStdout).putStr outcome.out
  (← IO.getStderr).putStr outcome.err
  if outcome.exit = 2 then
    (← IO.getStderr).putStr "usage: backends | plan DEMO | run DEMO [--json]\n"
  return outcome.exit.toUInt32
