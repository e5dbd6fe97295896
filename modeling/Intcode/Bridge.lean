import Intcode.Text.Decimal

/-! # The bridge between a machine and its surroundings

Input waits in a queue; when the queue is empty a provider may be asked. A provider is given by
the answers it will make, in order: `none` is a refusal, and past the last answer it refuses for
good. How often the newest provider was asked is counted, also after it was dropped.

Output goes to the registered sink or, without one, to an outbox that can be emptied. A sink is
the tape of the values it received; the tapes of sinks registered earlier are kept. -/

namespace Intcode

/-- Queued input, routed output and the callbacks in between. -/
structure Bridge where
  /-- Input not yet read, oldest first. -/
  input : List Word := []
  /-- Output that no sink received and nobody took yet, oldest first. -/
  outbox : Array Word := #[]
  /-- The answers still to come from the registered provider. -/
  provider : Option (List (Option Word)) := none
  /-- How often the newest provider was asked. -/
  asked : Nat := 0
  sink : Option (Array Word) := none
  /-- The tapes of the sinks before the registered one, oldest first. -/
  oldTapes : List (Array Word) := []
  /-- The newest output, wherever it went. -/
  lastOutput : Option Word := none
  deriving DecidableEq, Repr

namespace Bridge

def feed (bridge : Bridge) (values : List Word) : Bridge :=
  { bridge with input := bridge.input ++ values }

def pop (bridge : Bridge) : Option Word × Bridge :=
  match bridge.input with
  | [] => (none, bridge)
  | value :: rest => (some value, { bridge with input := rest })

def ask (bridge : Bridge) : Option Word × Bridge :=
  match bridge.provider with
  | none => (none, bridge)
  | some [] => (none, { bridge with asked := bridge.asked + 1 })
  | some (answer :: rest) =>
      (answer, { bridge with provider := some rest, asked := bridge.asked + 1 })

/-- Hands a value out, to the sink or else to the outbox. -/
def emit (bridge : Bridge) (value : Word) : Bridge :=
  match bridge.sink with
  | some tape => { bridge with sink := some (tape.push value), lastOutput := some value }
  | none => { bridge with outbox := bridge.outbox.push value, lastOutput := some value }

def take (bridge : Bridge) : Option Word × Bridge :=
  (bridge.outbox[0]?, { bridge with outbox := bridge.outbox.extract 1 bridge.outbox.size })

def drain (bridge : Bridge) : List Word × Bridge :=
  (bridge.outbox.toList, { bridge with outbox := #[] })

def tapes (bridge : Bridge) : List (List Word) :=
  bridge.oldTapes.map Array.toList ++ (bridge.sink.map Array.toList).toList

def retireSink (bridge : Bridge) : Bridge :=
  { bridge with sink := none, oldTapes := bridge.oldTapes ++ bridge.sink.toList }

/-- Registers a sink with an empty tape in place of the one there was. -/
def setSink (bridge : Bridge) : Bridge :=
  { bridge.retireSink with sink := some #[] }

def setProvider (bridge : Bridge) (answers : List (Option Word)) : Bridge :=
  { bridge with provider := some answers, asked := 0 }

def clearCallbacks (bridge : Bridge) : Bridge :=
  { bridge.retireSink with provider := none }

/-- Forgets queued input, buffered output and the newest output. Callbacks stay. -/
def reset (bridge : Bridge) : Bridge :=
  { bridge with input := [], outbox := #[], lastOutput := none }

def wordsText (values : List Word) : String :=
  "[" ++ ", ".intercalate (values.map Word.text) ++ "]"

def optionText : Option Word → String
  | none => "None"
  | some value => "Some(" ++ value.text ++ ")"

def presenceText (present : Bool) : String :=
  if present then "true" else "false"

/-- All that can be seen of a bridge, in one line. -/
def display (bridge : Bridge) : String :=
  "IoBridge \x7b input: " ++ wordsText bridge.input ++ ", outbox: " ++
    wordsText bridge.outbox.toList ++ ", provider: " ++ presenceText bridge.provider.isSome ++
    ", sink: " ++ presenceText bridge.sink.isSome ++ ", last_output: " ++
    optionText bridge.lastOutput ++ " \x7d"

end Bridge

end Intcode
