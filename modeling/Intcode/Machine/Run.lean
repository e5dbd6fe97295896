import Intcode.Iteration
import Intcode.Machine.Step

/-! # Runs

A run queues some input and executes instructions until the machine halts or fails, or until
the occasion at which the run was to hand back control. Nothing is lost by that: the machine
that is handed back goes on where it stopped, so a run in pieces hands out the same values as
one that was never interrupted. -/

namespace Intcode

/-- When a run hands back control before the machine halts. -/
inductive Suspend
  | never
  /-- Behind an output instruction. -/
  | onOutput
  /-- Before an input instruction for which nothing is queued. -/
  | onInput
  deriving DecidableEq, Repr

namespace Suspend

def operation : Suspend → String
  | .never => "machine::run_to_halt"
  | .onOutput => "machine::run_until_output"
  | .onInput => "machine::run_until_input"

/-- Where the input instructions of a run may turn. A run that pauses for input leaves the
provider alone. -/
def source : Suspend → InputSource
  | .onInput => .queue
  | .never | .onOutput => .policy

end Suspend

namespace Machine

/-- The result of a run: an error, or the value it reports. -/
abbrev RunResult := Except Error (Option Word)

def runTurn (suspend : Suspend) (m : Machine) : Turn Machine (RunResult × Machine) :=
  match m.execute suspend.source with
  | (.ok .executed, m) => .again m
  | (.ok (.output value), m) =>
      if suspend = .onOutput then .done (.ok (some value), { m with state := .paused })
      else .again m
  | (.ok .needsInput, m) => .done (.ok m.lastOutput, { m with state := .paused })
  | (.ok .halted, m) => .done (.ok m.lastOutput, { m with state := .halted })
  | (.error error, m) =>
      let error := error.inOperation suspend.operation
      .done (.error error, { m with state := stateAfterError error })

/-- Queues input and runs, for `fuel` turns at most. A halted machine reports its newest output
and a failed one an error; neither takes the input. -/
def run (suspend : Suspend) (fuel : Nat) (input : List Word) (m : Machine) :
    Option (RunResult × Machine) :=
  match m.state with
  | .halted => some (.ok m.lastOutput, m)
  | .failed => some (.error (refusal suspend.operation), m)
  | _ => iterate (fun m => some (runTurn suspend m)) fuel { m.feed input with state := .running }

/-- Runs until the machine halts and reports its newest output. -/
def runToHalt (fuel : Nat) (input : List Word) (m : Machine) : Option (RunResult × Machine) :=
  m.run .never fuel input

/-- Runs until the next output, which is reported, or until the machine halts. -/
def runUntilOutput (fuel : Nat) (input : List Word) (m : Machine) : Option (RunResult × Machine) :=
  m.run .onOutput fuel input

/-- Runs until the queue cannot serve an input instruction, or until the machine halts. -/
def runUntilInput (fuel : Nat) (input : List Word) (m : Machine) : Option (RunResult × Machine) :=
  m.run .onInput fuel input

end Machine

end Intcode
