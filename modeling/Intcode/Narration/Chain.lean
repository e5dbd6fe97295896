import Intcode.Chain.Orderings
import Intcode.Chain.Ring
import Intcode.Narration.Machine

/-! # What is said of a chain at work

The log of a chain is that of its machines, in the order in which they run, with a few entries of
the chain's own. The machines of a ring run side by side; their entries are told one machine
after the other. -/

namespace Intcode.Narration

def chainEntry (level : Level) (message : String) : Entry :=
  ⟨level, .chain, message⟩

/-- A provider that never remarks on anything. -/
def silent : Nat → Log :=
  fun _ => []

def serialPass (threshold : Level) (fuel : Nat) : (index : Nat) → Word → List Machine → Log
  | _, _, [] => []
  | index, signal, m :: rest =>
      run threshold silent .never fuel [signal] m ++
        match m.runToHalt fuel [signal] with
        | some (.ok (some value), _) =>
            chainEntry .debug ("amplifier " ++ Text.natText index ++ " -> " ++ value.text) ::
              serialPass threshold fuel (index + 1) value rest
        | _ => []

/-- The log of one pass around a chain, the count of passes included. -/
def feedbackPass (threshold : Level) (fuel passes : Nat) : Word → List Machine → Log
  | _, [] => []
  | signal, m :: rest =>
      run threshold silent .onOutput fuel [signal] m ++
        match m.runUntilOutput fuel [signal] with
        | some (.ok output, m) =>
            if m.isHalted && rest.isEmpty then
              [chainEntry .info
                ("feedback chain settled after " ++ Text.natText passes ++ " passes")]
            else
              feedbackPass threshold fuel passes
                (if m.isHalted then signal else output.getD signal) rest
        | _ => []

/-- One pass around a chain, with the number of the pass. -/
def feedbackTurn (fuel : Nat) :
    Nat × Word × List Machine → Option (Turn (Nat × Word × List Machine) Unit)
  | (passes, state) =>
      match Chain.feedbackTurn fuel state with
      | none => none
      | some (.again state) => some (.again (passes + 1, state))
      | some (.done _) => some (.done ())

def feedback (threshold : Level) (fuel : Nat) (input : Word) (chain : Chain) : Log :=
  (gather (fun (passes, signal, machines) => feedbackPass threshold fuel passes signal machines)
    (feedbackTurn fuel) fuel (1, input, chain.machines) #[]).1.toList

def chain (threshold : Level) (fuel : Nat) (around : Bool) (input : Word) (chain : Chain) : Log :=
  if threshold.shows .info then
    if around then feedback threshold fuel input chain
    else serialPass threshold fuel 0 input chain.machines
  else []

def search (threshold : Level) (fuel : Nat) (around : Bool) :
    Option (Word × List Word) → List (List Word) → Chain → Log
  | _, [], _ => []
  | best, phases :: rest, before =>
      before.machines.flatMap wasReset ++
        match before.reseed phases with
        | .error _ => []
        | .ok seeded =>
            chain threshold fuel around 0 seeded ++
              match seeded.runFromZero fuel around with
              | some (.ok signal, after) =>
                  let next := Chain.better best signal phases
                  (if best = some next then []
                  else
                    [chainEntry .debug
                      ("new best " ++ signal.text ++ " from " ++ Bridge.wordsText phases)]) ++
                    search threshold fuel around (some next) rest after
              | _ => []

/-- The log of the search over all orders of some candidates. -/
def bestPhases (threshold : Level) (fuel : Nat) (program : Program) (candidates : List Word)
    (around : Bool) : Log :=
  if threshold.shows .info then
    match Chain.ofPhases program candidates with
    | .error _ => []
    | .ok chain => search threshold fuel around none (orderings candidates) chain
  else []

/-- What each task of a finished ring was sent by the task that feeds it. -/
def deliveries (ring : Ring) : List (List Word) :=
  let sent := ring.tasks.map fun task => task.machine.bridge.outbox.toList
  (sent.getLast?.getD []) :: sent.dropLast

/-- The log of a ring: that of each machine when all that it was sent is there from the start. -/
def ring (threshold : Level) (fuel : Nat) (program : Program) (phases : List Word)
    (input : Word) : Log :=
  if threshold.shows .debug then
    let start := Ring.ofPhases program phases input
    match start.run fuel with
    | none => []
    | some final =>
        (List.zipWith (fun task sent => run threshold silent .never fuel sent task.machine)
          start.tasks (deliveries final)).flatten
  else []

end Intcode.Narration
