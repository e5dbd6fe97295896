import Intcode.Json.Form
import Intcode.Machine.Basic
import Intcode.Network.Run

/-! # The forms of machines and networks

How programs, settings, snapshots and network events are written as JSON and read back. -/

namespace Intcode.Json.Form

def program : Form Program where
  write value := word.list.write value.cells
  read value := (word.list.read value).map Program.mk

def underrun : Form Underrun :=
  names Underrun.all Underrun.name

def state : Form State :=
  names State.all State.name

def opcode : Form Opcode :=
  names Opcode.all Opcode.name

def mode : Form Mode :=
  names Mode.all Mode.name

def stopCondition : Form StopCondition :=
  names StopCondition.all StopCondition.name

def config : Form Config where
  write value :=
    record
      [("scratch_cells", size.write value.scratchCells),
        ("underrun", underrun.write value.underrun)]
  read value :=
    match fields? ["scratch_cells", "underrun"] value with
    | some [scratch, policy] => do
        let scratchCells ← required size scratch
        let underrun ← required underrun policy
        return { scratchCells, underrun }
    | _ => none

def snapshot : Form Snapshot where
  write value :=
    record
      [("state", state.write value.state), ("ip", word.write value.ip),
        ("relative_base", word.write value.relativeBase), ("steps", size.write value.steps),
        ("last_output", word.option.write value.lastOutput),
        ("pending_input", word.list.write value.pendingInput),
        ("memory", word.list.write value.memory)]
  read value :=
    match fields? ["state", "ip", "relative_base", "steps", "last_output", "pending_input",
      "memory"] value with
    | some [stateField, ipField, baseField, stepsField, outputField, inputField, memoryField] => do
        let state ← required state stateField
        let ip ← required word ipField
        let relativeBase ← required word baseField
        let steps ← required size stepsField
        let lastOutput ← optional word outputField
        let pendingInput ← required word.list inputField
        let memory ← required word.list memoryField
        return { state, ip, relativeBase, steps, lastOutput, pendingInput, memory }
    | _ => none

def networkConfig : Form NetworkConfig where
  write value :=
    record
      [("nodes", size.write value.nodes), ("idle_input", word.write value.idleInput),
        ("max_rounds", size.write value.maxRounds),
        ("scratch_cells", size.write value.scratchCells)]
  read value :=
    match fields? ["nodes", "idle_input", "max_rounds", "scratch_cells"] value with
    | some [nodesField, idleField, roundsField, scratchField] => do
        let nodes ← required size nodesField
        let idleInput ← required word idleField
        let maxRounds ← required size roundsField
        let scratchCells ← required size scratchField
        return { nodes, idleInput, maxRounds, scratchCells }
    | _ => none

def packet : Form Packet where
  write value :=
    record [("dest", word.write value.dest), ("x", word.write value.x), ("y", word.write value.y)]
  read value :=
    match fields? ["dest", "x", "y"] value with
    | some [destField, xField, yField] => do
        let dest ← required word destField
        let x ← required word xField
        let y ← required word yField
        return { dest, x, y }
    | _ => none

/-- An event is an object with its condition's name for the only key and the packet as value. -/
def event : Form NetworkEvent where
  write value := record [(value.condition.name, packet.write value.packet)]
  read
    | .object [(key, value)] =>
        match named? StopCondition.all StopCondition.name key with
        | none => none
        | some condition => (packet.read value).map condition.eventOf
    | _ => none

end Intcode.Json.Form
