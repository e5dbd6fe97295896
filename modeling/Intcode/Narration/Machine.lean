import Intcode.Log
import Intcode.Machine.Budget
import Intcode.Machine.Run

/-! # What is said of a machine at work

The entries of a machine follow from the machine alone: those of an instruction from the machine
about to execute it, those of a change of state from the states before and after. So machines
run without a log, and the log of a run is told by going over the run again.

A provider may have remarks of its own, to be made when it is asked for the first, second, and
every further time; `remarks` numbers the questions from zero. -/

namespace Intcode.Narration

def machineEntry (level : Level) (message : String) : Entry :=
  ⟨level, .machine, message⟩

/-- Said when a machine was in one state and is now in another. -/
def changed (before : State) (m : Machine) : Log :=
  if before = m.state then []
  else
    [machineEntry .debug
      ("machine " ++ before.name ++ " -> " ++ m.state.name ++ " (ip " ++ m.ip.text ++ ", steps " ++
        Text.natText m.steps ++ ")")]

def failed (error : Error) : Log :=
  if error.isFatal then [machineEntry .debug ("machine failed: " ++ error.display)] else []

def wasReset (m : Machine) : Log :=
  [machineEntry .debug ("machine reset: " ++ m.state.name ++ " -> standby")]

def paramText (param : Param) : String :=
  "Param \x7b address: " ++ param.address.text ++ ", value: " ++ param.value.text ++ " \x7d"

def instructionText (m : Machine) (instruction : Instruction) (params : Vector Param maxParams) :
    String :=
  String.ofList (m.ip.text.toList.leftpad 6 ' ') ++ ": " ++
    String.ofList (instruction.opcode.mnemonic.toList.rightpad 4 ' ') ++ " [" ++
    ", ".intercalate ((params.toList.take instruction.opcode.arity).map paramText) ++ "] rb=" ++
    m.relativeBase.text

/-- Said of an input instruction at a machine whose queue is empty. -/
def searched (remarks : Nat → Log) (source : InputSource) (m : Machine) : Log :=
  let asked := if m.bridge.provider.isSome then remarks m.bridge.asked else []
  match source with
  | .queue => []
  | .provider => asked
  | .policy =>
      if m.config.underrun = .zero ∧ m.bridge.ask.1 = none then
        asked ++ [machineEntry .warn ("input underrun at ip " ++ m.ip.text ++ ", reading 0")]
      else asked

/-- Said of the instruction a machine is about to execute. -/
def executing (threshold : Level) (remarks : Nat → Log) (source : InputSource) (m : Machine) :
    Log :=
  if threshold.shows .trace || m.bridge.input.isEmpty then
    match m.fetch with
    | .error _ => []
    | .ok (instruction, params) =>
        (if threshold.shows .trace then
          [machineEntry .trace (instructionText m instruction params)]
        else []) ++
        (if instruction.opcode = .input && m.bridge.input.isEmpty then
          searched remarks source m
        else [])
  else []

/-- Goes over a run and gathers what is said before every turn. -/
@[specialize]
def gather {State Answer : Type} (said : State → Log)
    (turn : State → Option (Turn State Answer)) :
    (fuel : Nat) → State → (soFar : Array Entry) → Array Entry × Option Answer
  | 0, _, soFar => (soFar, none)
  | fuel + 1, state, soFar =>
      let soFar := soFar ++ said state
      match turn state with
      | none => (soFar, none)
      | some (.done answer) => (soFar, some answer)
      | some (.again next) => gather said turn fuel next soFar

def ended : Machine.RunResult × Machine → Log
  | (.ok _, m) => changed .running m
  | (.error error, m) => failed error ++ changed .running m

def run (threshold : Level) (remarks : Nat → Log) (suspend : Suspend) (fuel : Nat)
    (input : List Word) (m : Machine) : Log :=
  if m.state.isTerminal then []
  else
    let start := { m.feed input with state := .running }
    let (said, outcome) :=
      gather (executing threshold remarks suspend.source)
        (fun m => some (Machine.runTurn suspend m)) fuel start #[]
    changed m.state start ++ said.toList ++ (outcome.map ended).getD []

def step (threshold : Level) (remarks : Nat → Log) (m : Machine) : Log :=
  if m.state.isTerminal then []
  else
    let start := { m with state := .running }
    let said := executing threshold remarks .provider start
    if threshold.shows .debug then
      changed m.state start ++ said ++
        match m.step with
        | (.ok _, next) => changed .running next
        | (.error error, next) => failed error ++ changed .running next
    else said

/-- Whether the next instruction is an input instruction that will find no value. -/
def starved (m : Machine) : Bool :=
  m.bridge.input.isEmpty && m.bridge.ask.1.isNone &&
    match m.fetch with
    | .ok (instruction, _) => instruction.opcode = .input
    | .error _ => false

def budgetStep (threshold : Level) (remarks : Nat → Log) (m : Machine) : Log :=
  step threshold remarks m ++
    if starved m && m.config.underrun = .zero then
      ⟨.warn, .command, "input underrun at ip " ++ m.ip.text ++ ", reading 0"⟩ ::
        step threshold remarks (m.step.2.feed [0])
    else []

def budgetTurn (m : Machine) : Turn Machine Unit :=
  match m.budgetStep with
  | (some _, _) => .done ()
  | (none, m) => .again m

def runWithin (threshold : Level) (remarks : Nat → Log) (limit : Nat) (m : Machine) : Log :=
  (gather (budgetStep threshold remarks) (fun m => some (budgetTurn m)) (limit - m.steps) m
    #[]).1.toList

end Intcode.Narration
