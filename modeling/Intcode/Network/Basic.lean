import Intcode.Machine.Run
import Intcode.Network.IdleMonitor

/-! # Packet networks

A network has one machine per address, all over the same program, and each is given its address
as its first input. In a round the nodes are visited in the order of their addresses. A node
with nothing queued is given the idle value; it then runs until it waits for input again, and the
packets it completed are put into their destinations' queues at once. A round in which no node
had anything queued and nothing was sent is idle, and wakes the idle monitor. -/

namespace Intcode

/-- The settings of a network. -/
structure NetworkConfig where
  nodes : UInt64 := 50
  /-- What a node with nothing queued is given. -/
  idleInput : Word := -1
  maxRounds : UInt64 := 100000
  scratchCells : UInt64 := defaultScratch
  deriving DecidableEq, Repr

/-- Whether the nodes' addresses can be told from the monitor's. The number of nodes is compared
as a word. -/
def NetworkConfig.check (config : NetworkConfig) : Except Error Unit :=
  if config.nodes = 0 then .error (Error.configInvalid "a network needs at least one node")
  else if IdleMonitor.address ≤ config.nodes.toInt64 then
    .error (Error.configInvalid
      (Text.natText config.nodes.toNat ++ " nodes would collide with the NAT address " ++
        IdleMonitor.address.text))
  else .ok ()

/-- A machine of the network and the words it put out that make no packet yet. -/
structure Node where
  machine : Machine
  partialPacket : List Word := []
  deriving DecidableEq

namespace Node

/-- The node at an address before the first round. -/
def boot (program : Program) (config : Config) (address : Nat) : Node :=
  { machine := (Machine.ofProgram program config).feed [Int64.ofNat address] }

/-- A node without a program. It stands in for a node while that one is being visited. -/
def vacant : Node :=
  { machine := Machine.ofProgram ⟨[]⟩ { scratchCells := 0 } }

/-- Takes the two values of a packet in, unless the node is halted. -/
def receive (node : Node) (packet : Packet) : Node :=
  if node.machine.isHalted then node
  else { node with machine := node.machine.feed [packet.x, packet.y] }

/-- The error of a node whose machine failed. -/
def failure (address : Nat) (error : Error) : Error :=
  (((Error.machineFailed
    ("node " ++ Text.natText address ++ " failed: " ++ error.message)).inOperation
    "network::round").withContext "node" (Text.natText address)).causedBy error

/-- Runs a node that is not halted until it waits for input. Reports whether something was
queued for it, and the packets it completed. -/
def visit (fuel : Nat) (idleInput : Word) (address : Nat) (node : Node) :
    Option (Except Error (Bool × List Packet) × Node) :=
  let busy := node.machine.pendingInput != 0
  let machine := if busy then node.machine else node.machine.feed [idleInput]
  match machine.runUntilInput fuel [] with
  | none => none
  | some (.error error, machine) =>
      some (.error (failure address error), { node with machine })
  | some (.ok _, machine) =>
      let (values, machine) := machine.drainOutput
      let (packets, left) := Packet.cut (node.partialPacket ++ values)
      some (.ok (busy, packets), { machine, partialPacket := left })

end Node

/-- What a round came to. -/
structure Round where
  sent : List Packet
  /-- Nothing was queued for anybody and nothing was sent. -/
  idle : Bool
  /-- The monitor's delivery, and whether it repeats the `y` of the one before. -/
  delivery : Option (Packet × Bool)
  deriving DecidableEq, Repr

/-- Nodes and the monitor, with the number of rounds completed. -/
structure Network where
  config : NetworkConfig
  nodes : Array Node
  monitor : IdleMonitor := {}
  rounds : Nat := 0
  deriving DecidableEq

namespace Network

def nodeConfig (config : NetworkConfig) : Config :=
  { scratchCells := config.scratchCells }

/-- Boots every node of a network. -/
def ofProgram (program : Program) (config : NetworkConfig) : Except Error Network :=
  match config.check with
  | .error error => .error (error.inOperation "network::new")
  | .ok _ =>
      .ok
        { config
          nodes :=
            ((List.range config.nodes.toNat).map
              (Node.boot program (nodeConfig config))).toArray }

/-- A table has fewer entries than this, whatever memory there is: its size is counted by words that
are not negative. -/
def tableLimit : Nat := Nat.pow 2 63

/-- Boots a network if there can be a table of its nodes. Nothing comes of settings that pass the
check with more nodes than that. -/
def boot? (program : Program) (config : NetworkConfig) : Option (Except Error Network) :=
  match config.check with
  | .error _ => some (ofProgram program config)
  | .ok _ =>
      if config.nodes.toNat < tableLimit then some (ofProgram program config) else none

/-- The position of an address among the nodes; none for an address below zero. -/
def position? (address : Word) : Option Nat :=
  if address < 0 then none else some address.toNatClampNeg

/-- Hands a packet to the monitor or to the node it is addressed to. One for a halted node or for
an address nobody has is dropped. -/
def route (network : Network) (packet : Packet) : Network :=
  if packet.dest = IdleMonitor.address then
    { network with monitor := network.monitor.receive packet }
  else
    match position? packet.dest with
    | none => network
    | some position =>
        { network with nodes := network.nodes.modify position (·.receive packet) }

def routeAll (network : Network) (packets : List Packet) : Network :=
  packets.foldl route network

/-- How far a round has come: whether something was queued for a node visited so far, and what
those nodes sent. -/
structure Progress where
  busy : Bool := false
  sent : List Packet := []
  deriving DecidableEq, Repr

/-- Visits the node at an address. A halted node is passed over. -/
def visit (fuel : Nat) (address : Nat) (network : Network) (progress : Progress) :
    Option (Except Error Progress × Network) :=
  if inside : address < network.nodes.size then
    if network.nodes[address].machine.isHalted then some (.ok progress, network)
    else
      let node := network.nodes[address]
      let nodes := network.nodes.set address Node.vacant
      match node.visit fuel network.config.idleInput address with
      | none => none
      | some (.error error, node) =>
          some (.error error, { network with nodes := nodes.setIfInBounds address node })
      | some (.ok (busy, packets), node) =>
          some (.ok { busy := progress.busy || busy, sent := progress.sent ++ packets },
            { network with nodes := nodes.setIfInBounds address node }.routeAll packets)
  else some (.ok progress, network)

/-- Visits the nodes at some addresses one after the other. An error ends the pass. -/
def visitAll (fuel : Nat) :
    List Nat → Network → Progress → Option (Except Error Progress × Network)
  | [], network, progress => some (.ok progress, network)
  | address :: rest, network, progress =>
      match network.visit fuel address progress with
      | none => none
      | some (.error error, network) => some (.error error, network)
      | some (.ok progress, network) => visitAll fuel rest network progress

/-- Ends a round in which every node was visited. An idle one wakes the monitor. -/
def finishRound (network : Network) (progress : Progress) : Round × Network :=
  let idle := !progress.busy && progress.sent.isEmpty
  let (delivery, monitor) :=
    if idle then network.monitor.wake else (none, network.monitor)
  let network := { network with monitor, rounds := network.rounds + 1 }
  ({ sent := progress.sent, idle, delivery },
    match delivery with
    | none => network
    | some (packet, _) => network.route packet)

def round (fuel : Nat) (network : Network) : Option (Except Error Round × Network) :=
  match visitAll fuel (List.range network.nodes.size) network {} with
  | none => none
  | some (.error error, network) => some (.error error, network)
  | some (.ok progress, network) =>
      let (round, network) := network.finishRound progress
      some (.ok round, network)

end Network

end Intcode
