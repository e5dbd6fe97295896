import Intcode.Chain.Basic

/-! # Amplifiers at work side by side

In a ring every amplifier is a task of its own that runs until it halts. What one puts out goes
into the channel of the next, the last feeding the first. A channel is first in, first out and
never full; it is kept as the queue of the machine that reads it. Reading from an empty channel
waits as long as the task that feeds it is unfinished, and is an underrun once that task is done;
what is sent to a finished task is dropped.

`Ring.step` lets one task make one step, and tasks may take their steps in any order. The run
carried out here lets every task go on for as long as it can before the next has its turn. -/

namespace Intcode

/-- An amplifier and, once it is finished, its result. -/
structure Task where
  machine : Machine
  outcome : Option (Except Error (Option Word)) := none

namespace Task

def isFinished (task : Task) : Bool :=
  task.outcome.isSome

/-- What a step of a task comes to, as far as others are concerned. -/
inductive Move
  /-- The task is finished or waits for its channel. -/
  | idle
  | worked
  | sent (value : Word)
  | finished
  deriving DecidableEq

/-- The error of a task as the ring reports it. -/
def failure (index : Nat) (error : Error) : Error :=
  let error := Chain.atAmplifier index (error.inOperation Suspend.never.operation)
  if error.kind = .inputUnderrun then
    (Error.channelClosed ("amplifier " ++ Text.natText index ++ " input")).causedBy error
  else error

/-- One step of the task at a position, given whether the task that feeds it has finished. -/
def step (index : Nat) (feederFinished : Bool) (task : Task) : Move × Task :=
  match task.outcome with
  | some _ => (.idle, task)
  | none =>
      match task.machine.execute .queue with
      | (.ok .executed, machine) => (.worked, { task with machine })
      | (.ok (.output value), machine) => (.sent value, { task with machine })
      | (.ok .halted, machine) =>
          (.finished, { machine, outcome := some (.ok machine.lastOutput) })
      | (.ok .needsInput, machine) =>
          if feederFinished then
            let error := failure index (Error.inputUnderrun machine.ip)
            (.finished, { machine, outcome := some (.error error) })
          else (.idle, { task with machine })
      | (.error error, machine) =>
          (.finished, { machine, outcome := some (.error (failure index error)) })

def receive (task : Task) (value : Word) : Task :=
  if task.isFinished then task else { task with machine := task.machine.feed [value] }

end Task

/-- Tasks each of which feeds the next, and the last the first. -/
structure Ring where
  tasks : List Task

namespace Ring

/-- The ring for some phase settings with a signal waiting for the first amplifier. The machines
have no sink: what they put out is handed on by the ring. -/
def ofPhases (program : Program) (phases : List Word) (input : Word) : Ring :=
  match phases.map fun phase => Chain.amplifier program Config.strict phase with
  | [] => ⟨[]⟩
  | first :: rest => ⟨(first.feed [input] :: rest).map fun machine => { machine }⟩

/-- Applies an operation to the element at a position and returns what it says besides. -/
def operateAt {α β : Type} (operation : α → β × α) :
    (position : Nat) → List α → Option β × List α
  | _, [] => (none, [])
  | 0, element :: rest =>
      let (answer, element) := operation element
      (some answer, element :: rest)
  | position + 1, element :: rest =>
      let (answer, rest) := operateAt operation position rest
      (answer, element :: rest)

/-- The position that feeds a position. -/
def feeder (size index : Nat) : Nat :=
  (index + size - 1) % size

def finishedAt (tasks : List Task) (index : Nat) : Bool :=
  (tasks[index]?.map Task.isFinished).getD false

/-- Lets the task at a position make one step. Its output is handed on. -/
def move (ring : Ring) (index : Nat) : Task.Move × Ring :=
  let size := ring.tasks.length
  let feederFinished := finishedAt ring.tasks (feeder size index)
  match operateAt (Task.step index feederFinished) index ring.tasks with
  | (some (.sent value), tasks) =>
      (.sent value, ⟨tasks.modify ((index + 1) % size) (·.receive value)⟩)
  | (some other, tasks) => (other, ⟨tasks⟩)
  | (none, tasks) => (.idle, ⟨tasks⟩)

/-- The ring after a step of the task at a position, if that task can make one. -/
def step? (ring : Ring) (index : Nat) : Option Ring :=
  match ring.move index with
  | (.idle, _) => none
  | (_, next) => some next

def isFinished (ring : Ring) : Bool :=
  ring.tasks.all Task.isFinished

/-- A turn of the schedule: the task at the current position makes a step or, when it cannot,
passes the turn on. When all have passed in a row, nobody can go on: the run is over if all tasks are
finished, and otherwise those that are not go on waiting. -/
def scheduleTurn : Ring × Nat × Nat → Option (Turn (Ring × Nat × Nat) Ring)
  | (ring, index, passed) =>
      let size := ring.tasks.length
      if size ≤ passed then
        some (if ring.isFinished then .done ring else .again (ring, index, passed))
      else
        match ring.move index with
        | (.idle, ring) => some (.again (ring, (index + 1) % size, passed + 1))
        | (_, ring) => some (.again (ring, index, 0))

/-- Runs all tasks to their ends. There is no answer, whatever the fuel, when they come to wait for
each other. -/
def run (fuel : Nat) (ring : Ring) : Option Ring :=
  iterate scheduleTurn fuel (ring, 0, 0)

/-- The first error among the outcomes. -/
def firstError? (ring : Ring) : Option Error :=
  ring.tasks.findSome? fun task =>
    match task.outcome with
    | some (.error error) => some error
    | _ => none

/-- The result of a finished ring: the error of its first failed task, else the newest output of
its last task. -/
def result (ring : Ring) : Except Error Word :=
  match ring.firstError? with
  | some error => .error error
  | none =>
      match ring.tasks.getLast?.bind (·.outcome) with
      | some (.ok (some value)) => .ok value
      | _ =>
          .error ((Chain.silentAmplifier (ring.tasks.length - 1)).inOperation
            "chain::run_feedback_threaded")

end Ring

/-- The signal of a feedback loop whose amplifiers work side by side. -/
def runRing (fuel : Nat) (program : Program) (phases : List Word) (input : Word) :
    Option (Except Error Word) :=
  match phases with
  | [] => some (.error (Chain.noPhases "chain::run_feedback_threaded"))
  | _ => ((Ring.ofPhases program phases input).run fuel).map Ring.result

end Intcode
