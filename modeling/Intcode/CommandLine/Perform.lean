import Intcode.CommandLine.Invocation
import Intcode.CommandLine.StandardInput
import Intcode.File
import Intcode.Json.Forms
import Intcode.Json.Sorted
import Intcode.Listing
import Intcode.Narration.Chain
import Intcode.Narration.Network

/-! # Carrying out an invocation

What an invocation prints and how it exits follows from the file it names and from standard
input. Results go to standard output; the log and, at the end, the error that stopped the command
go to standard error. What was printed before an error stays printed. -/

namespace Intcode

/-- What a command leaves behind. -/
structure Transcript where
  exitCode : Nat := 0
  stdout : String := ""
  stderr : String := ""
  deriving DecidableEq, Repr

namespace Transcript

def finished (threshold : Level) (log : Log) (stdout : String) : Transcript :=
  { stdout, stderr := log.text threshold }

def stopped (threshold : Level) (log : Log) (stdout : String) (error : Error) : Transcript :=
  { exitCode := 1, stdout, stderr := log.text threshold ++ "Error: " ++ error.display ++ "\n" }

/-- A command with a result to be printed, or stopped by an error. -/
def ofResult {α : Type} (threshold : Level) (log : Log) (print : α → String) :
    Except Error α → Transcript
  | .ok value => finished threshold log (print value)
  | .error error => stopped threshold log "" error

end Transcript

def inLine (text : String) : String :=
  text ++ "\n"

namespace RunCommand

def config (options : RunCommand) : Config :=
  { scratchCells := options.scratch.getD defaultScratch
    underrun := if options.strict then .error else .zero }

/-- The machine before the run. An interactive one is given the answers of standard input and a
sink. -/
def machine (options : RunCommand) (program : Program) (readings : List StandardInput.Reading) :
    Machine :=
  let m := (Machine.ofProgram program options.config).feed options.input
  let m := match options.asciiIn with
    | some text => m.feedText text
    | none => m
  if options.interactive then (m.setProvider (readings.map (·.value))).setSink else m

/-- Runs the machine to its end, or as far as its budget reaches. -/
def outcome (options : RunCommand) (fuel : Nat) (m : Machine) :
    Option (Except Error Unit × Machine) :=
  match options.maxSteps with
  | some limit => some (m.runWithin limit.toNat)
  | none => (m.runToHalt fuel []).map fun (result, m) => (result.map fun _ => (), m)

def log (options : RunCommand) (threshold : Level) (fuel : Nat)
    (readings : List StandardInput.Reading) (m : Machine) : Log :=
  let remarks := StandardInput.remarksOf readings
  match options.maxSteps with
  | some limit => Narration.runWithin threshold remarks limit.toNat m
  | none => Narration.run threshold remarks .never fuel [] m

/-- A value as it is printed: on a line of its own, or as the character it stands for. -/
def valueText (ascii : Bool) (value : Word) : String :=
  if ascii && 0 ≤ value && value < 128 then (Char.ofNat value.toNatClampNeg).toString
  else inLine value.text

def valuesText (ascii : Bool) (values : List Word) : String :=
  String.join (values.map (valueText ascii))

def banner (options : RunCommand) (quiet : Bool) (program : Program) : String :=
  if quiet || options.json then ""
  else
    "Running " ++ options.file ++ " (" ++ Text.natText program.size ++ " cells)\n\n"

/-- The values that were printed as they came. -/
def echoed (m : Machine) : List Word :=
  (m.bridge.sink.map Array.toList).getD []

def outputs (m : Machine) : List Word :=
  echoed m ++ m.bridge.outbox.toList

/-- The report on a finished machine. -/
def report (m : Machine) : Json :=
  (Json.Form.record
    [("outputs", Json.Form.word.list.write (outputs m)),
      ("snapshot", Json.Form.snapshot.write m.snapshot)]).sorted

def closing (options : RunCommand) (quiet : Bool) (m : Machine) : String :=
  if options.json then inLine (report m).prettyText
  else
    (if options.interactive then "" else valuesText options.ascii (outputs m)) ++
      (if quiet then "" else "\nHalted after " ++ Text.natText m.steps ++ " steps\n")

def perform (options : RunCommand) (fuel : Nat) (threshold : Level) (quiet : Bool)
    (program : Program) (input : List UInt8) : Option Transcript :=
  let readings := if options.interactive then StandardInput.readings options.ascii input else []
  let m := options.machine program readings
  let log := options.log threshold fuel readings m
  (options.outcome fuel m).map fun (result, m) =>
    let printed := options.banner quiet program ++ valuesText options.ascii (echoed m)
    match result with
    | .error error => Transcript.stopped threshold log printed error
    | .ok _ => Transcript.finished threshold log (printed ++ options.closing quiet m)

end RunCommand

/-- The listing of a program under the number of its cells. -/
def listingText (program : Program) : String :=
  inLine (Text.natText program.size ++ " cells") ++
    String.join ((Listing.lines program).map fun line => inLine line.text)

namespace ChainCommand

/-- The best signal and the order of phases it comes from. -/
def bestText : Word × List Word → String
  | (signal, phases) =>
      inLine (signal.text ++ " (phases " ++ (Program.mk phases).text ++ ")")

def perform (options : ChainCommand) (fuel : Nat) (threshold : Level) (program : Program) :
    Option Transcript :=
  let signalText (signal : Word) := inLine signal.text
  if options.best then
    (Chain.bestPhases fuel program options.phases options.feedback).map
      (Transcript.ofResult threshold
        (Narration.bestPhases threshold fuel program options.phases options.feedback) bestText)
  else if options.threaded then
    (runRing fuel program options.phases options.input).map
      (Transcript.ofResult threshold
        (Narration.ring threshold fuel program options.phases options.input) signalText)
  else
    match Chain.ofPhases program options.phases with
    | .error error => some (Transcript.stopped threshold [] "" error)
    | .ok chain =>
        let ran :=
          if options.feedback then chain.runFeedback fuel options.input
          else chain.runSerial fuel options.input
        ran.map fun (result, _) =>
          Transcript.ofResult threshold
            (Narration.chain threshold fuel options.feedback options.input chain) signalText result

end ChainCommand

namespace NetworkCommand

def config (options : NetworkCommand) : NetworkConfig :=
  { nodes := options.nodes, maxRounds := options.maxRounds }

/-- An event as it is printed: in full, or the `y` of its packet. -/
def eventText (options : NetworkCommand) (event : NetworkEvent) : String :=
  if options.json then inLine (Json.Form.event.write event).prettyText
  else inLine event.packet.y.text

def perform (options : NetworkCommand) (fuel : Nat) (threshold : Level) (program : Program) :
    Option Transcript :=
  match Network.boot? program options.config with
  | none => none
  | some (.error error) => some (Transcript.stopped threshold [] "" error)
  | some (.ok network) =>
      (Narration.network threshold fuel options.stop network).map fun ((result, network), said) =>
        let log := said.toList
        match result with
        | .error error => Transcript.stopped threshold log "" error
        | .ok event =>
            let stopped : Entry :=
              ⟨.debug, .command,
                "network stopped after " ++ Text.natText network.rounds ++ " rounds"⟩
            Transcript.finished threshold (log ++ [stopped]) (options.eventText event)

end NetworkCommand

namespace Command

def performOn (command : Command) (fuel : Nat) (threshold : Level) (quiet : Bool)
    (program : Program) (input : List UInt8) : Option Transcript :=
  match command with
  | .run options => options.perform fuel threshold quiet program input
  | .listing _ => some (Transcript.finished threshold [] (listingText program))
  | .chain options => options.perform fuel threshold program
  | .network options => options.perform fuel threshold program

def readsInput : Command → Bool
  | .run options => options.interactive
  | _ => false

end Command

namespace Invocation

/-- Carries out an invocation, given what reading its file comes to and the bytes of standard
input. -/
def perform (invocation : Invocation) (fuel : Nat) (file : FileRead) (input : List UInt8) :
    Option Transcript :=
  let threshold := Level.ofVerbosity invocation.verbosity
  match Program.ofFile invocation.command.file file with
  | .error error => some (Transcript.stopped threshold [] "" error)
  | .ok program => invocation.command.performOn fuel threshold invocation.quiet program input

end Invocation

namespace Request

def versionText : String :=
  "intcode 0.1.0\n"

def usageText : String :=
  "Usage: intcode [-v] [-q] <run|disasm|chain|network> <FILE> [OPTIONS]\n"

end Request

/-- The transcript of a command line that makes no request. -/
def Transcript.refused : Transcript :=
  { exitCode := 2, stderr := Request.usageText }

end Intcode
