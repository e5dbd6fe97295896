import Intcode.Narration.Machine
import Intcode.Network.Run

/-! # What is said of a network at work

Here a run is gone through once only and gives its result together with its log, because going
over all rounds again would cost as much as the run itself. Each part makes the same moves as the
part of the network it tells of. -/

namespace Intcode.Narration

def networkEntry (level : Level) (message : String) : Entry :=
  ⟨level, .network, message⟩

def packetText (packet : Packet) : String :=
  "Packet \x7b dest: " ++ packet.dest.text ++ ", x: " ++ packet.x.text ++ ", y: " ++
    packet.y.text ++ " \x7d"

def dropped (network : Network) (packet : Packet) : Log :=
  if packet.dest = IdleMonitor.address then []
  else
    match (Network.position? packet.dest).bind fun position => network.nodes[position]? with
    | none => [networkEntry .warn ("dropping packet for unknown address " ++ packet.dest.text)]
    | some node =>
        if node.machine.isHalted then
          [networkEntry .warn ("dropping packet for halted node " ++ packet.dest.text)]
        else []

/-- Said of a packet that a node sends. Handing packets over halts no node, so this can be told
after they were. -/
def sent (network : Network) (address : Nat) (packet : Packet) : Log :=
  networkEntry .debug ("node " ++ Text.natText address ++ " -> " ++ packetText packet) ::
    dropped network packet

/-- Said of the machine of a node that is visited. -/
def visiting (threshold : Level) (fuel : Nat) (address : Nat) (network : Network) : Log :=
  if threshold.shows .debug then
    match network.nodes[address]? with
    | none => []
    | some node =>
        if node.machine.isHalted then []
        else
          let input := if node.machine.pendingInput = 0 then [network.config.idleInput] else []
          run threshold (fun _ => []) .onInput fuel input node.machine
  else []

/-- Visits the nodes at some addresses one after the other and tells of it. -/
def visitAll (threshold : Level) (fuel : Nat) :
    List Nat → Network → Network.Progress → Array Entry →
      Option ((Except Error Network.Progress × Network) × Array Entry)
  | [], network, progress, soFar => some ((.ok progress, network), soFar)
  | address :: rest, network, progress, soFar =>
      let soFar := soFar ++ visiting threshold fuel address network
      match network.visit fuel address progress with
      | none => none
      | some (.error error, network) => some ((.error error, network), soFar)
      | some (.ok next, network) =>
          let packets := next.sent.drop progress.sent.length
          visitAll threshold fuel rest network next
            (soFar ++ packets.flatMap (sent network address))

/-- Said at the end of a round, of the network it leaves. -/
def roundEnded (round : Round) (network : Network) : Log :=
  match round.delivery with
  | none => []
  | some (packet, _) =>
      networkEntry .debug ("network idle, NAT delivers " ++ packetText packet) ::
        dropped network packet

def round (threshold : Level) (fuel : Nat) (network : Network) (soFar : Array Entry) :
    Option ((Except Error Round × Network) × Array Entry) :=
  match visitAll threshold fuel (List.range network.nodes.size) network {} soFar with
  | none => none
  | some ((.error error, network), soFar) => some ((.error error, network), soFar)
  | some ((.ok progress, network), soFar) =>
      let (round, network) := network.finishRound progress
      some ((.ok round, network), soFar ++ roundEnded round network)

def happened (event : NetworkEvent) (network : Network) : Entry :=
  let rounds := " after " ++ Text.natText network.rounds ++ " rounds"
  match event with
  | .firstMonitorPacket packet =>
      networkEntry .info ("first NAT packet" ++ rounds ++ ": " ++ packetText packet)
  | .repeatedDelivery packet =>
      networkEntry .info ("NAT repeated y=" ++ packet.y.text ++ rounds)

/-- Runs a network for a number of further rounds at most and tells of it. -/
def runRounds (threshold : Level) (fuel : Nat) (stop : StopCondition) :
    (remaining : Nat) → Network → Array Entry →
      Option ((Except Error NetworkEvent × Network) × Array Entry)
  | 0, network, soFar => some ((.error network.exhausted, network), soFar)
  | remaining + 1, network, soFar =>
      match round threshold fuel network soFar with
      | none => none
      | some ((.error error, network), soFar) => some ((.error error, network), soFar)
      | some ((.ok round, network), soFar) =>
          match stop.event? round with
          | some event => some ((.ok event, network), soFar.push (happened event network))
          | none => runRounds threshold fuel stop remaining network soFar

def booted (network : Network) : Entry :=
  networkEntry .info
    ("network booted with " ++ Text.natText network.config.nodes.toNat ++ " nodes")

/-- Runs a network just booted until a condition is met and tells of it. -/
def network (threshold : Level) (fuel : Nat) (stop : StopCondition) (network : Network) :
    Option ((Except Error NetworkEvent × Network) × Array Entry) :=
  runRounds threshold fuel stop (network.config.maxRounds.toNat - network.rounds) network
    #[booted network]

end Intcode.Narration
