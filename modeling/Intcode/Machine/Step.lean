import Intcode.Machine.Basic

/-! # One instruction

Executing an instruction reads the cell at the instruction pointer, decodes it, resolves its
parameters, forms their effect and carries the effect out. Any error on the way carries the
instruction pointer as a particular, and leaves memory, registers and queue as they were.

An input instruction that finds no value is not executed: it changes nothing and can be tried
again. Which places it may turn to for a value, and whether an underrun policy applies at last,
is the choice of the caller (`InputSource`). -/

namespace Intcode

/-- What an instruction came to. -/
inductive Step
  | executed
  | output (value : Word)
  /-- It is an input instruction that found no value, and was not executed. -/
  | needsInput
  | halted
  deriving DecidableEq, Repr

/-- Where an input instruction may get its value. -/
inductive InputSource
  /-- The queue alone. -/
  | queue
  /-- The queue, then the provider. -/
  | provider
  /-- The queue, then the provider, then the underrun policy. -/
  | policy
  deriving DecidableEq, Repr

namespace Machine

/-- The parameter of an instruction at the instruction pointer. One past the arity is blank. -/
def paramAt (m : Machine) (instruction : Instruction) (index : Fin maxParams) :
    Except Error Param :=
  if index.val < instruction.opcode.arity then
    m.memory.resolve (m.ip + 1 + Int64.ofNat index) (instruction.modes.get index) m.relativeBase
  else .ok default

/-- The parameters of an instruction at the instruction pointer. -/
def paramsOf (m : Machine) (instruction : Instruction) :
    Except Error (Vector Param maxParams) := do
  let first ← m.paramAt instruction firstParam
  let second ← m.paramAt instruction secondParam
  let third ← m.paramAt instruction thirdParam
  return #v[first, second, third]

/-- The instruction at the instruction pointer, with its parameters. -/
def fetch (m : Machine) : Except Error (Instruction × Vector Param maxParams) := do
  let raw ← m.memory.read m.ip
  let instruction ← Instruction.decode raw
  let params ← m.paramsOf instruction
  return (instruction, params)

def atIp (m : Machine) (error : Error) : Error :=
  error.withContext "ip" m.ip.text

/-- The value for an input instruction, if there is one. -/
def nextInput (m : Machine) (source : InputSource) : Except Error (Option Word) × Machine :=
  match m.bridge.pop with
  | (some value, bridge) => (.ok (some value), { m with bridge })
  | (none, bridge) =>
      match source with
      | .queue => (.ok none, { m with bridge })
      | .provider =>
          let (answer, bridge) := bridge.ask
          (.ok answer, { m with bridge })
      | .policy =>
          match bridge.ask with
          | (some value, bridge) => (.ok (some value), { m with bridge })
          | (none, bridge) =>
              match m.config.underrun with
              | .zero => (.ok (some 0), { m with bridge })
              | .error => (.error (Error.inputUnderrun m.ip), { m with bridge })

/-- Moves the instruction pointer behind an instruction and counts it. -/
def advance (m : Machine) (instruction : Instruction) : Machine :=
  { m with ip := m.ip + Int64.ofNat instruction.width, steps := m.steps + 1 }

/-- Puts a value into memory on behalf of an instruction and goes on behind it. -/
def store (m : Machine) (instruction : Instruction) (address value : Word) :
    Except Error Step × Machine :=
  match m.memory.locate "memory::write" address with
  | .error error => (.error (m.atIp error), m)
  | .ok index => (.ok .executed, { m with memory := m.memory.put index value }.advance instruction)

def apply (m : Machine) (source : InputSource) (instruction : Instruction) :
    Effect → Except Error Step × Machine
  | .store address value => m.store instruction address value
  | .input address =>
      match m.nextInput source with
      | (.error error, m) => (.error error, m)
      | (.ok none, m) => (.ok .needsInput, m)
      | (.ok (some value), m) => m.store instruction address value
  | .output value =>
      (.ok (.output value), { m with bridge := m.bridge.emit value }.advance instruction)
  | .jump target => (.ok .executed, { m with ip := target, steps := m.steps + 1 })
  | .adjustBase delta =>
      (.ok .executed, { m with relativeBase := m.relativeBase + delta }.advance instruction)
  | .advance => (.ok .executed, m.advance instruction)
  | .halt => (.ok .halted, { m with steps := m.steps + 1 })

/-- Executes the instruction at the instruction pointer, whatever the machine's state. -/
def execute (m : Machine) (source : InputSource) : Except Error Step × Machine :=
  match m.fetch with
  | .error error => (.error (m.atIp error), m)
  | .ok (instruction, params) =>
      m.apply source instruction (Effect.of instruction.opcode params)

/-- The state an error leaves its machine in. -/
def stateAfterError (error : Error) : State :=
  if error.isFatal then .failed else .paused

def refusal (operation : String) : Error :=
  Error.alreadyFailed.inOperation operation

/-- Executes a single instruction. Input comes from the queue and then from the provider. -/
def step (m : Machine) : Except Error Step × Machine :=
  match m.state with
  | .halted => (.ok .halted, m)
  | .failed => (.error (refusal "machine::step"), m)
  | _ =>
      match { m with state := .running }.execute .provider with
      | (.ok .halted, m) => (.ok .halted, { m with state := .halted })
      | (.ok step, m) => (.ok step, { m with state := .paused })
      | (.error error, m) =>
          let error := error.inOperation "machine::step"
          (.error error, { m with state := stateAfterError error })

end Machine

end Intcode
