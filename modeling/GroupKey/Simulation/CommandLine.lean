import GroupKey.Decimal.Reading
import GroupKey.Json.Records
import GroupKey.Simulation.Report

/-!
# The command line of the simulator

Options have a long name, most also a letter. A value follows its option as the next argument, or
in the same one: after an equals sign, or directly after the letter. Every option may be given
once, and nothing but options may be given.
-/

namespace GroupKey

/-- What is asked for on the command line. -/
structure CommandLine where
  members : UInt32
  durationMillis : UInt64
  loss : Float
  latencyMillis : UInt64
  /-- The seed of every random choice; a fresh one if absent. -/
  seed : Option UInt64
  /-- The file that holds the configuration. -/
  config : Option String
  groupSize : Option UInt64
  /-- The file that the report goes to. -/
  report : Option String

namespace CommandLine

/-- What is asked for when nothing is given. -/
def standard : CommandLine := ⟨3, 20000, 0, 5, none, none, none, none⟩

/-- The options. -/
inductive Flag where
  | members
  | durationMillis
  | loss
  | latencyMillis
  | seed
  | config
  | groupSize
  | report
  | help
  deriving DecidableEq, Repr

namespace Flag

/-- All options. -/
def all : List Flag :=
  [members, durationMillis, loss, latencyMillis, seed, config, groupSize, report, help]

/-- The long name of an option. -/
def name : Flag → String
  | members => "members"
  | durationMillis => "duration-ms"
  | loss => "loss"
  | latencyMillis => "latency-ms"
  | seed => "seed"
  | config => "config"
  | groupSize => "group-size"
  | report => "report"
  | help => "help"

/-- The letter of an option. -/
def letter? : Flag → Option Char
  | members => some 'm'
  | durationMillis => some 'd'
  | loss => some 'l'
  | config => some 'c'
  | report => some 'r'
  | help => some 'h'
  | latencyMillis | seed | groupSize => none

/-- The option with a long name. -/
def ofName? (name : String) : Option Flag := all.find? fun f => f.name = name

/-- The option with a letter. -/
def ofLetter? (letter : Char) : Option Flag := all.find? fun f => f.letter? = some letter

end Flag

/-- What an argument begins. -/
inductive Piece where
  /-- An option with its value in the same argument, if it has one there. -/
  | option (flag : Flag) (value : Option String)
  /-- The mark after which no options come. -/
  | endOfOptions
  /-- Neither. -/
  | other
  deriving DecidableEq

/-- Splits an argument. -/
def Piece.of (arg : String) : Piece :=
  match arg.toList with
  | ['-', '-'] => endOfOptions
  | '-' :: '-' :: cs =>
    let name := String.ofList (cs.takeWhile (· ≠ '='))
    let value := match cs.dropWhile (· ≠ '=') with
      | [] => none
      | _ :: value => some (String.ofList value)
    match Flag.ofName? name with
    | some flag => option flag value
    | none => other
  | '-' :: letter :: cs =>
    match Flag.ofLetter? letter with
    | some flag =>
      option flag (match cs with
        | [] => none
        | '=' :: value => some (String.ofList value)
        | value => some (String.ofList value))
    | none => other
  | _ => other

/-- An integer below `bound` behind an optional plus sign. -/
def natBelow? (bound : Nat) (text : String) : Option Nat :=
  (Decimal.nat? text).filter (· < bound)

/-- An integer below `bound` behind an optional sign. -/
def intBelow? (bound : Nat) (text : String) : Option Nat := do
  let n ← Decimal.int? text
  if 0 ≤ n ∧ n < bound then some n.toNat else none

/-- The name of a file, which is not empty. -/
def path? (text : String) : Option String := if text.isEmpty then none else some text

/-- Takes over the value of an option. -/
def setValue (c : CommandLine) (flag : Flag) (text : String) : Option CommandLine := do
  match flag with
  | .members => return { c with members := .ofNat (← intBelow? UInt32.size text) }
  | .durationMillis => return { c with durationMillis := .ofNat (← natBelow? UInt64.size text) }
  | .loss => return { c with loss := ← Decimal.float? text }
  | .latencyMillis => return { c with latencyMillis := .ofNat (← natBelow? UInt64.size text) }
  | .seed => return { c with seed := some (.ofNat (← natBelow? UInt64.size text)) }
  | .config => return { c with config := some (← path? text) }
  | .groupSize => return { c with groupSize := some (.ofNat (← natBelow? UInt64.size text)) }
  | .report => return { c with report := some (← path? text) }
  | .help => none

/-- What the arguments come to. -/
inductive Parsed where
  | run (c : CommandLine)
  /-- Help is asked for. -/
  | help
  /-- The arguments are not understood. -/
  | refused

/-- Whether an argument may stand as the value of the option before it. -/
def mayBeValue (arg : String) : Bool :=
  match arg.toList with
  | ['-'] => true
  | '-' :: _ => false
  | _ => true

/-- Reads arguments after those that gave `c` and the options `given`. -/
def parseFrom : List String → (given : List Flag) → CommandLine → Parsed
  | [], _, c => .run c
  | arg :: args, given, c =>
    match Piece.of arg with
    | .other => .refused
    | .endOfOptions => if args.isEmpty then .run c else .refused
    | .option .help none => .help
    | .option flag (some value) =>
      if flag ∈ given then .refused
      else
        match c.setValue flag value with
        | some c => parseFrom args (flag :: given) c
        | none => .refused
    | .option flag none =>
      match args with
      | [] => .refused
      | value :: args =>
        if flag ∈ given ∨ ¬ mayBeValue value then .refused
        else
          match c.setValue flag value with
          | some c => parseFrom args (flag :: given) c
          | none => .refused

/-- Reads the arguments. -/
def parse (args : List String) : Parsed := parseFrom args [] standard

/-! ## Runs -/

/-- Why a run that was asked for did not succeed. -/
inductive Failure where
  | lossOutOfRange (loss : Float)
  | unreadableConfig (path : String)
  | malformedConfig (path : String)
  | start (e : StartError)
  | node (e : NodeError)
  /-- The run was longer than the program is willing to go on. -/
  | endless

/-- Numbers in messages are written in full, whole ones without a point. -/
def messageFormat : Decimal.Format := ⟨none, none, false⟩

/-- The cause in words. -/
def Failure.message : Failure → String
  | lossOutOfRange loss => "loss must be between 0 and 1, got " ++ messageFormat.floatText loss
  | unreadableConfig path => "reading config " ++ path
  | malformedConfig path => "parsing config " ++ path
  | start e => e.message
  | node e => e.message
  | endless => "simulation does not end"

/-- The configuration that is asked for, given the content of the configuration file if there is
one to be read. -/
def loadConfig (c : CommandLine) (content : Option String) : Except Failure Config := do
  let config ← match c.config with
    | none => pure Config.standard
    | some path =>
      match content with
      | none => throw (.unreadableConfig path)
      | some text =>
        match Config.parse? text with
        | some config => pure config
        | none => throw (.malformedConfig path)
  match c.groupSize with
  | some groupSize => return { config with groupSize }
  | none => return config

/-- Whether the probability of a loss lies between zero and one. -/
def lossInRange (c : CommandLine) : Bool := 0 ≤ c.loss && c.loss ≤ 1

/-- How many events a run may take. -/
def eventLimit : Nat := 1000000000000000000

/-- Makes the run that is asked for and reports on it. -/
def run (S : Suite) {ρ : Type} [Generator ρ] (spawn : UInt64 → ρ) (seed : UInt64)
    (content : Option String) (c : CommandLine) : Except Failure Report := do
  if ¬ c.lossInRange then throw (.lossOutOfRange c.loss)
  let config ← c.loadConfig content
  let link : Link := ⟨.ofFloat c.loss, .ofMillis c.latencyMillis.toNat⟩
  match Simulation.assemble S config c.members.toNat link .zero spawn (spawn seed) with
  | .error e => throw (.start e)
  | .ok sim =>
    match sim.armTimers.runUntil (.ofMillis c.durationMillis.toNat) eventLimit with
    | (.finished, sim) => return .ofSimulation sim c.durationMillis.toNat c.loss
    | (.failed e, _) => throw (.node e)
    | (.unfinished, _) => throw .endless

/-- What is written when help is asked for. -/
def usage : String :=
  "Simulates group key agreement over a lossy broadcast medium\n\n" ++
  "Options:\n" ++
  String.join (Flag.all.map fun f =>
    (match f.letter? with
      | some letter => "  -" ++ letter.toString ++ ", --"
      | none => "      --") ++ f.name ++ "\n")

end CommandLine

end GroupKey
