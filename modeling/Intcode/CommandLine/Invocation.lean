import Intcode.CommandLine.Arguments
import Intcode.Log
import Intcode.Network.Run

/-! # Invocations

There are four commands. How much is logged and whether only results are printed can be said
before the command or behind it; where the two disagree on the log, what stands behind the
command wins. -/

namespace Intcode

/-- Running a program to its end. -/
structure RunCommand where
  file : String
  /-- Values queued before the run. -/
  input : List Word := []
  /-- A text queued behind them, a value for each byte. -/
  asciiIn : Option String := none
  /-- Values below 128 are printed as characters. -/
  ascii : Bool := false
  /-- An underrun is an error. -/
  strict : Bool := false
  scratch : Option UInt64 := none
  maxSteps : Option UInt64 := none
  /-- Further input is read from standard input and values are printed as they come. -/
  interactive : Bool := false
  json : Bool := false
  deriving DecidableEq, Repr

/-- Running an amplifier chain. -/
structure ChainCommand where
  file : String
  phases : List Word
  input : Word := 0
  feedback : Bool := false
  threaded : Bool := false
  best : Bool := false
  deriving DecidableEq, Repr

/-- Running a packet network. -/
structure NetworkCommand where
  file : String
  nodes : UInt64 := 50
  stop : StopCondition := .firstMonitorPacket
  maxRounds : UInt64 := 100000
  json : Bool := false
  deriving DecidableEq, Repr

/-- What is to be done. -/
inductive Command
  | run (options : RunCommand)
  | listing (file : String)
  | chain (options : ChainCommand)
  | network (options : NetworkCommand)
  deriving DecidableEq, Repr

def Command.file : Command → String
  | .run options => options.file
  | .listing file => file
  | .chain options => options.file
  | .network options => options.file

/-- A command with the choices common to all. -/
structure Invocation where
  command : Command
  verbosity : Nat
  quiet : Bool
  deriving DecidableEq, Repr

/-- What the command line asks for. -/
inductive Request
  | invoke (invocation : Invocation)
  | version
  | help
  deriving DecidableEq, Repr

namespace CommandLine

/-! ## Values -/

def word? (text : String) : Option Word :=
  (Word.read text.toList).toOption

def size? (text : String) : Option UInt64 :=
  (Text.readSize text.toList).toOption

def words? (text : String) : Option (List Word) :=
  (Text.splitOn ',' text.toList).mapM fun field => (Word.read field).toOption

def allWords? (given : List Given) (long : String) : Option (List Word) :=
  ((Given.values given long).mapM words?).map List.flatten

def stop? (text : String) : Option StopCondition :=
  if text = "first" then some .firstMonitorPacket
  else if text = "repeat" then some .repeatedDelivery
  else none

/-! ## Options -/

def commonSwitches : List Switch :=
  [{ long := "verbose", letter := some 'v' }, { long := "quiet", letter := some 'q' },
    { long := "help", letter := some 'h' }]

def leadingSwitches : List Switch :=
  commonSwitches ++ [{ long := "version", letter := some 'V' }]

def runSwitches : List Switch :=
  commonSwitches ++
    [{ long := "input", letter := some 'i', takesValue := true, hyphens := true },
      { long := "ascii-in", takesValue := true }, { long := "ascii" }, { long := "strict" },
      { long := "scratch", takesValue := true }, { long := "max-steps", takesValue := true },
      { long := "interactive" }, { long := "json" }]

def chainSwitches : List Switch :=
  commonSwitches ++
    [{ long := "phases", takesValue := true, hyphens := true },
      { long := "input", takesValue := true, hyphens := true }, { long := "feedback" },
      { long := "threaded" }, { long := "best" }]

def networkSwitches : List Switch :=
  commonSwitches ++
    [{ long := "nodes", takesValue := true }, { long := "until", takesValue := true },
      { long := "max-rounds", takesValue := true }, { long := "json" }]

/-! ## Commands -/

def runCommand? (given : List Given) : Option Command := do
  let file ← Given.operand? given
  let input ← allWords? given "input"
  let asciiIn ← Given.single? given "ascii-in" none fun text => some (some text)
  let ascii ← Given.once? given "ascii"
  let strict ← Given.once? given "strict"
  let scratch ← Given.single? given "scratch" none fun text => (size? text).map some
  let maxSteps ← Given.single? given "max-steps" none fun text => (size? text).map some
  let interactive ← Given.once? given "interactive"
  let json ← Given.once? given "json"
  return .run { file, input, asciiIn, ascii, strict, scratch, maxSteps, interactive, json }

def listingCommand? (given : List Given) : Option Command :=
  (Given.operand? given).map .listing

/-- Phases have to be given, and a search cannot be done by machines side by side. -/
def chainCommand? (given : List Given) : Option Command := do
  let file ← Given.operand? given
  let phases ← allWords? given "phases"
  let input ← Given.single? given "input" 0 word?
  let feedback ← Given.once? given "feedback"
  let threaded ← Given.once? given "threaded"
  let best ← Given.once? given "best"
  if phases.isEmpty || (threaded && best) then none
  else return .chain { file, phases, input, feedback, threaded, best }

def networkCommand? (given : List Given) : Option Command := do
  let file ← Given.operand? given
  let nodes ← Given.single? given "nodes" 50 size?
  let stop ← Given.single? given "until" .firstMonitorPacket stop?
  let maxRounds ← Given.single? given "max-rounds" 100000 size?
  let json ← Given.once? given "json"
  return .network { file, nodes, stop, maxRounds, json }

/-- A command by its name: its options and how it is made from what was given. -/
def command? (name : String) : Option (List Switch × (List Given → Option Command)) :=
  if name = "run" then some (runSwitches, runCommand?)
  else if name = "disasm" then some (commonSwitches, listingCommand?)
  else if name = "chain" then some (chainSwitches, chainCommand?)
  else if name = "network" then some (networkSwitches, networkCommand?)
  else none

/-- The request of a command with what was given before it and behind it. -/
def request? (before behind : List Given) (make : List Given → Option Command) :
    Option Request :=
  if Given.count behind "help" ≠ 0 then some .help
  else do
    let command ← make behind
    let quietBefore ← Given.once? before "quiet"
    let quietBehind ← Given.once? behind "quiet"
    let verbosity :=
      if Given.count behind "verbose" = 0 then Given.count before "verbose"
      else Given.count behind "verbose"
    return .invoke { command, verbosity, quiet := quietBefore || quietBehind }

/-- Whether what stands before a command asks for something by itself, at its first such piece. -/
def immediate? (before : List Given) : Option Request :=
  before.findSome? fun piece =>
    if piece = .flag "help" then some .help
    else if piece = .flag "version" then some .version
    else none

/-- Goes through the arguments up to the name of a command. -/
def parseFrom (before : List Given) : List String → Option Request
  | [] => none
  | argument :: rest =>
      match command? argument with
      | some (switches, make) =>
          (Given.read switches none rest).bind fun behind => request? before behind make
      | none =>
          if argument = "help" then some .help
          else if argument = "--" || !Given.looksLikeOption argument then none
          else
            match Given.readArgument leadingSwitches argument with
            | none => none
            | some (given, _) =>
                let before := before ++ given
                if 1 < Given.count before "quiet" then none
                else
                  match immediate? before with
                  | some request => some request
                  | none => parseFrom before rest

/-- The request that the arguments make, if they make one. -/
def parse? (arguments : List String) : Option Request :=
  parseFrom [] arguments

end CommandLine

end Intcode
