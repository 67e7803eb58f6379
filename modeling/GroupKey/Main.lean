import GroupKey.Curve.Suite
import GroupKey.Random.ChaCha
import GroupKey.Simulation.CommandLine

/-!
# The simulator as a program

Reads the configuration file, runs the simulation and writes the report.
-/

open GroupKey

/-- The content of a file, if it can be read. -/
def readConfig? (path : String) : IO (Option String) := do
  try
    return some (← IO.FS.readFile path)
  catch _ =>
    return none

/-- A seed that differs from run to run. -/
def freshSeed : IO UInt64 := do
  let bytes ← IO.getRandomBytes 8
  return .ofNat (Bytes.toNatLE bytes.toList)

/-- Writes the report where it is asked for. -/
def writeReport (c : CommandLine) (report : Report) : IO UInt32 := do
  let text := report.toJson.renderPretty
  match c.report with
  | none =>
    IO.println text
    return 0
  | some path =>
    try
      IO.FS.writeFile path text
      return 0
    catch _ =>
      IO.eprintln ("Error: writing report " ++ path)
      return 1

/-- Runs the simulation that the arguments ask for. -/
def main (args : List String) : IO UInt32 := do
  match CommandLine.parse args with
  | .refused =>
    IO.eprintln "error: invalid arguments"
    return 2
  | .help =>
    IO.println CommandLine.usage
    return 0
  | .run c =>
    let content ← match c.config with
      | some path => readConfig? path
      | none => pure none
    let seed ← match c.seed with
      | some seed => pure seed
      | none => freshSeed
    match c.run Curve.suite ChaCha.ofSeed seed content with
    | .error e =>
      IO.eprintln ("Error: " ++ e.message)
      return 1
    | .ok report => writeReport c report
