import Intcode.Network.Basic

/-! # Running a network

A network runs round after round until the event it was to wait for, or until it has used up its
allowance of rounds. -/

namespace Intcode

/-- What a run waits for. -/
inductive StopCondition
  | firstMonitorPacket
  /-- The same `y` delivered by the monitor twice in a row. -/
  | repeatedDelivery
  deriving DecidableEq, Repr

/-- What ended a run. -/
inductive NetworkEvent
  | firstMonitorPacket (packet : Packet)
  | repeatedDelivery (packet : Packet)
  deriving DecidableEq, Repr

namespace NetworkEvent

def packet : NetworkEvent → Packet
  | .firstMonitorPacket packet => packet
  | .repeatedDelivery packet => packet

def condition : NetworkEvent → StopCondition
  | .firstMonitorPacket _ => .firstMonitorPacket
  | .repeatedDelivery _ => .repeatedDelivery

end NetworkEvent

namespace StopCondition

/-- Every condition, the usual one first. -/
def all : List StopCondition :=
  [.firstMonitorPacket, .repeatedDelivery]

def name : StopCondition → String
  | .firstMonitorPacket => "first_nat_packet"
  | .repeatedDelivery => "repeated_nat_delivery"

def eventOf : StopCondition → Packet → NetworkEvent
  | .firstMonitorPacket => .firstMonitorPacket
  | .repeatedDelivery => .repeatedDelivery

/-- The event in a round that meets the condition. -/
def event? (stop : StopCondition) (round : Round) : Option NetworkEvent :=
  match stop with
  | .firstMonitorPacket =>
      (round.sent.find? fun packet => packet.dest = IdleMonitor.address).map
        .firstMonitorPacket
  | .repeatedDelivery =>
      match round.delivery with
      | some (packet, true) => some (.repeatedDelivery packet)
      | _ => none

end StopCondition

namespace Network

def exhausted (network : Network) : Error :=
  ((Error.budgetExhausted network.config.maxRounds.toNat).inOperation "network::run").withContext
    "nat_packets" (Text.natText network.monitor.received)

/-- Runs a network for a number of further rounds at most. -/
def runRounds (fuel : Nat) (stop : StopCondition) :
    (remaining : Nat) → Network → Option (Except Error NetworkEvent × Network)
  | 0, network => some (.error network.exhausted, network)
  | remaining + 1, network =>
      match network.round fuel with
      | none => none
      | some (.error error, network) => some (.error error, network)
      | some (.ok round, network) =>
          match stop.event? round with
          | some event => some (.ok event, network)
          | none => runRounds fuel stop remaining network

/-- Runs a network until a condition is met, within the rounds it is allowed altogether. -/
def run (fuel : Nat) (stop : StopCondition) (network : Network) :
    Option (Except Error NetworkEvent × Network) :=
  runRounds fuel stop (network.config.maxRounds.toNat - network.rounds) network

end Network

end Intcode
