import Intcode.Network.Packet

/-! # The idle monitor

The monitor listens at an address of its own and keeps only the newest packet sent there. When
the network is idle it is woken and delivers that packet to node zero; it also knows whether the
delivery repeats the `y` of the one before. -/

namespace Intcode

/-- The newest packet received and the record of deliveries. -/
structure IdleMonitor where
  latest : Option Packet := none
  received : Nat := 0
  lastDelivered : Option Packet := none
  deliveries : Nat := 0
  deriving DecidableEq, Repr

namespace IdleMonitor

def address : Word := 255

def receive (monitor : IdleMonitor) (packet : Packet) : IdleMonitor :=
  { monitor with received := monitor.received + 1, latest := some packet }

/-- The delivery to node zero and whether it repeats the `y` of the delivery before. There is
none before the first packet was received. -/
def wake (monitor : IdleMonitor) : Option (Packet × Bool) × IdleMonitor :=
  match monitor.latest with
  | none => (none, monitor)
  | some latest =>
      let packet := { latest with dest := 0 }
      let repeated := (monitor.lastDelivered.map (·.y)) = some packet.y
      (some (packet, repeated),
        { monitor with lastDelivered := some packet, deliveries := monitor.deliveries + 1 })

end IdleMonitor

end Intcode
