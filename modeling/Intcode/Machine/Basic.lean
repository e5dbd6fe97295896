import Intcode.Bridge
import Intcode.Config
import Intcode.Effect

/-! # Machines

A machine owns its working memory, an instruction pointer, a relative base, a count of executed
instructions and the bridge to its surroundings. Between calls it is in one of five states, of
which two are final: a halted machine ignores further calls and a failed one refuses them until
it is reset.

All operations are functions from machines to machines. Those that have a result besides return
it in front of the machine they leave. -/

namespace Intcode

/-- Where a machine stands between and during calls. -/
inductive State
  /-- Built or reset and never run since. -/
  | standby
  | running
  /-- Interrupted, to be continued. -/
  | paused
  | halted
  | failed
  deriving DecidableEq, Repr

namespace State

/-- Every state. -/
def all : List State :=
  [.standby, .running, .paused, .halted, .failed]

def name : State → String
  | .standby => "standby"
  | .running => "running"
  | .paused => "paused"
  | .halted => "halted"
  | .failed => "failed"

/-- Whether no call can make progress any more. -/
def isTerminal : State → Bool
  | .halted | .failed => true
  | _ => false

end State

/-- A machine that can be interrupted and continued. -/
structure Machine where
  memory : Memory
  bridge : Bridge := {}
  config : Config := {}
  state : State := .standby
  ip : Word := 0
  relativeBase : Word := 0
  /-- Instructions executed since the machine was built or reset. -/
  steps : Nat := 0
  deriving DecidableEq

/-- A machine's registers, pending input and used memory. -/
structure Snapshot where
  state : State
  ip : Word
  relativeBase : Word
  steps : UInt64
  lastOutput : Option Word
  pendingInput : List Word
  /-- The working memory without the zeros at its end, but never shorter than the program. -/
  memory : List Word
  deriving DecidableEq, Repr

namespace Machine

/-- A fresh machine over a program. -/
def ofProgram (program : Program) (config : Config) : Machine :=
  { memory := Memory.ofProgram program config.scratchCells.toNat, config }

def program (m : Machine) : Program :=
  m.memory.program

def isHalted (m : Machine) : Bool :=
  m.state = .halted

/-- The newest output. -/
def lastOutput (m : Machine) : Option Word :=
  m.bridge.lastOutput

def pendingInput (m : Machine) : Nat :=
  m.bridge.input.length

/-- The registers, the pending input and the used memory. -/
def snapshot (m : Machine) : Snapshot where
  state := m.state
  ip := m.ip
  relativeBase := m.relativeBase
  steps := UInt64.ofNat m.steps
  lastOutput := m.lastOutput
  pendingInput := m.bridge.input
  memory := m.memory.used

def peek (m : Machine) (address : Word) : Except Error Word :=
  (m.memory.read address).mapError (·.inOperation "machine::peek")

def poke (m : Machine) (address value : Word) : Except Error Machine :=
  ((m.memory.write address value).mapError (·.inOperation "machine::poke")).map fun memory =>
    { m with memory }

def feed (m : Machine) (values : List Word) : Machine :=
  { m with bridge := m.bridge.feed values }

def feedText (m : Machine) (text : String) : Machine :=
  m.feed (text.toUTF8.toList.map fun byte => Int64.ofNat byte.toNat)

def takeOutput (m : Machine) : Option Word × Machine :=
  let (value, bridge) := m.bridge.take
  (value, { m with bridge })

def drainOutput (m : Machine) : List Word × Machine :=
  let (values, bridge) := m.bridge.drain
  (values, { m with bridge })

def setSink (m : Machine) : Machine :=
  { m with bridge := m.bridge.setSink }

def setProvider (m : Machine) (answers : List (Option Word)) : Machine :=
  { m with bridge := m.bridge.setProvider answers }

def clearCallbacks (m : Machine) : Machine :=
  { m with bridge := m.bridge.clearCallbacks }

/-- Back to a fresh machine over the same program. Queued input and buffered output are lost,
callbacks are kept. -/
def reset (m : Machine) : Machine where
  memory := m.memory.reset
  bridge := m.bridge.reset
  config := m.config

end Machine

end Intcode
