import Intcode.Machine.Run

/-! # Amplifier chains

The machines of a chain run the same program, and each is given its own phase setting before the
first signal arrives. A signal goes through the machines in order, once (`Chain.runSerial`), or
around and around until the last machine halts (`Chain.runFeedback`).

An amplifier that reads more than it is sent shows that the chain is put together wrongly, so a
chain is strict about underruns unless told otherwise. -/

namespace Intcode

/-- Machines in a row. -/
structure Chain where
  machines : List Machine
  deriving DecidableEq

namespace Chain

/-- A machine that was given its phase setting. -/
def amplifier (program : Program) (config : Config) (phase : Word) : Machine :=
  (Machine.ofProgram program config).feed [phase]

def noPhases (operation : String) : Error :=
  (Error.invalidArgument "a chain needs at least one phase setting").inOperation operation

def ofPhases (program : Program) (phases : List Word) (config : Config := Config.strict) :
    Except Error Chain :=
  match phases with
  | [] => .error (noPhases "chain::new")
  | _ => .ok ⟨phases.map (amplifier program config)⟩

/-- The error of an amplifier that never produced a signal. -/
def silentAmplifier (index : Nat) : Error :=
  (Error.unexpected
    ("amplifier " ++ Text.natText index ++ " halted without producing output")).withContext
    "amplifier" (Text.natText index)

def atAmplifier (index : Nat) (error : Error) : Error :=
  error.withContext "amplifier" (Text.natText index)

/-! ## Once through -/

/-- Sends a signal through machines of which the first has the given position. Each runs until
it halts and its newest output is the signal for the next. -/
def serialPass (fuel : Nat) :
    (index : Nat) → Word → List Machine → Option (Except Error Word × List Machine)
  | _, signal, [] => some (.ok signal, [])
  | index, signal, m :: rest =>
      match m.runToHalt fuel [signal] with
      | none => none
      | some (.error error, m) => some (.error (atAmplifier index error), m :: rest)
      | some (.ok none, m) =>
          some (.error ((silentAmplifier index).inOperation "chain::run_serial"), m :: rest)
      | some (.ok (some value), m) =>
          let m := m.drainOutput.2
          match serialPass fuel (index + 1) value rest with
          | none => none
          | some (result, rest) => some (result, m :: rest)

/-- Passes a signal once through every machine. -/
def runSerial (fuel : Nat) (input : Word) (chain : Chain) :
    Option (Except Error Word × Chain) :=
  match serialPass fuel 0 input chain.machines with
  | none => none
  | some (result, machines) => some (result, ⟨machines⟩)

/-! ## Around until the last halts -/

/-- Sends a signal through machines of which the first has the given position. Each runs until
its next output, which is the signal for the next machine; one that halts instead passes the
signal on as it was. The pass either comes to the signal for the next one, or to the result of
the whole when the last machine halts or an error strikes. -/
def feedbackPass (fuel : Nat) : (index : Nat) → Word → List Machine →
    Option (Turn Word (Except Error Word) × List Machine)
  | _, signal, [] => some (.again signal, [])
  | index, signal, m :: rest =>
      match m.runUntilOutput fuel [signal] with
      | none => none
      | some (.error error, m) => some (.done (.error (atAmplifier index error)), m :: rest)
      | some (.ok output, m) =>
          let m := m.drainOutput.2
          if m.isHalted && rest.isEmpty then
            match m.lastOutput with
            | some value => some (.done (.ok value), m :: rest)
            | none =>
                some (.done (.error
                  ((silentAmplifier index).inOperation "chain::run_feedback")), m :: rest)
          else
            let signal := if m.isHalted then signal else output.getD signal
            match feedbackPass fuel (index + 1) signal rest with
            | none => none
            | some (result, rest) => some (result, m :: rest)

def feedbackTurn (fuel : Nat) :
    Word × List Machine → Option (Turn (Word × List Machine) (Except Error Word × Chain))
  | (signal, machines) =>
      match feedbackPass fuel 0 signal machines with
      | none => none
      | some (.again signal, machines) => some (.again (signal, machines))
      | some (.done result, machines) => some (.done (result, ⟨machines⟩))

/-- Loops the last machine's output back into the first until the last machine halts, and
reports that machine's newest output. -/
def runFeedback (fuel : Nat) (input : Word) (chain : Chain) :
    Option (Except Error Word × Chain) :=
  iterate (feedbackTurn fuel) fuel (input, chain.machines)

/-! ## Reseeding -/

/-- Resets every machine and gives it a new phase setting. -/
def reseed (chain : Chain) (phases : List Word) : Except Error Chain :=
  if phases.length = chain.machines.length then
    .ok ⟨List.zipWith (fun m phase => m.reset.feed [phase]) chain.machines phases⟩
  else
    .error ((Error.invalidArgument
      ("expected " ++ Text.natText chain.machines.length ++ " phase settings, got " ++
        Text.natText phases.length)).inOperation "chain::reseed")

end Chain

end Intcode
