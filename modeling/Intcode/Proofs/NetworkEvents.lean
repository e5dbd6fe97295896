import Intcode.Network.Run
import Intcode.Proofs.Runs

/-! # What happens in a network

What happens in a network happens to it one thing at a time: a node has its turn, a packet is handed
over, a round ends (`Network.Happens`). Visiting a node is such an event, behind which its packets
are handed over (`Network.visit_cases`).

What an event does to one node is listed once (`Node.Undergoes`, `Network.Happens.undergoes`): the
node has its turn, or it receives a packet that is addressed to it, or it is left as it is. -/

namespace Intcode

namespace Machine

variable {m final : Machine} {reads outputs : List Word} {result : RunResult}

/-- A run to the next input of a machine that is not halted: what it reads and hands out, its
result and the machine it hands back. -/
inductive RunsToInput (m : Machine) : List Word → List Word → RunResult → Machine → Prop
  | refused (failed : m.state = .failed) :
      RunsToInput m [] [] (.error (refusal Suspend.onInput.operation)) m
  | worked {reads outputs : List Word} {mid final : Machine} {result : RunResult}
      (works : Works .queue m.resumed reads outputs mid)
      (ends : Ends .onInput mid result final) : RunsToInput m reads outputs result final

theorem exists_runsToInput {fuel : Nat} (live : m.isHalted = false)
    (returned : m.runUntilInput fuel [] = some (result, final)) :
    ∃ reads outputs, m.RunsToInput reads outputs result final := by
  cases terminal : m.state.isTerminal with
  | true =>
      have failed : m.state = .failed := by
        rcases State.halted_or_failed terminal with halted | failed
        · simp [isHalted, halted] at live
        · exact failed
      rw [runUntilInput, run_of_failed failed] at returned
      cases returned
      exact ⟨[], [], .refused failed⟩
  | false =>
      obtain ⟨outputs, mid, goesOn, ends⟩ := (run_returns_iff terminal).mp ⟨fuel, returned⟩
      rw [started_nil] at goesOn
      obtain ⟨reads, works⟩ := goesOn.works
      exact ⟨reads, outputs, .worked works ends⟩

/-- A run that waits for input is handed back with the bridge as its last instruction left it. -/
theorem Ends.bridge_eq (ends : Ends .onInput m result final) : final.bridge = m.bridge := by
  cases ends with
  | output occasion ended => cases occasion
  | needsInput ended => rw [(eq_of_execute_queue_waits ended).1]
  | halted ended =>
      cases execute_eq_iff.mp ended with
      | halt planned => rfl
  | failed ended =>
      cases execute_eq_iff.mp ended with
      | fault planned => rfl
      | underrun planned supplied =>
          cases queued : m.bridge.input with
          | nil => rw [Suspend.source, nextInput_queue_of_empty queued] at supplied; cases supplied
          | cons value rest => rw [nextInput_of_queued queued] at supplied; cases supplied

namespace RunsToInput

theorem queue_eq (ran : m.RunsToInput reads outputs result final) :
    m.bridge.input = reads ++ final.bridge.input := by
  cases ran with
  | refused failed => rfl
  | worked works ends =>
      rw [ends.bridge_eq]
      exact works.queue_eq

theorem delivered_eq (ran : m.RunsToInput reads outputs result final) :
    final.bridge.delivered = m.bridge.delivered ++ outputs := by
  cases ran with
  | refused failed => exact (List.append_nil _).symm
  | worked works ends =>
      rw [ends.bridge_eq]
      exact works.delivered_eq

theorem failed {error : Error} (ran : m.RunsToInput reads outputs (.error error) final) :
    final.state = .failed := by
  cases ran with
  | refused failed => exact failed
  | worked works ends =>
      cases ends with
      | failed ended => rfl

theorem unheard (ran : m.RunsToInput reads outputs result final)
    (unheard : m.bridge.sink = none) : final.bridge.sink = none := by
  cases ran with
  | refused failed => exact unheard
  | worked works ends =>
      rw [ends.bridge_eq]
      exact works.preserves (P := fun mid => mid.bridge.sink = none) Executes.unheard unheard

end RunsToInput

end Machine

namespace Node

/-- Whether nothing is queued for a node. -/
def isIdle (node : Node) : Bool :=
  node.machine.bridge.input.isEmpty

/-- The machine of a node whose turn has come: if nothing is queued, it is given the idle value. -/
def opened (idleInput : Word) (node : Node) : Machine :=
  if node.isIdle then node.machine.feed [idleInput] else node.machine

variable {fuel address : Nat} {idleInput : Word} {node after : Node}

theorem isHalted_opened (idleInput : Word) (node : Node) :
    (node.opened idleInput).isHalted = node.machine.isHalted := by
  unfold opened
  split <;> rfl

/-- A visit is a run to the next input, behind which the words put out are cut into packets. -/
theorem visit_eq (fuel : Nat) (idleInput : Word) (address : Nat) (node : Node) :
    node.visit fuel idleInput address =
      ((node.opened idleInput).runUntilInput fuel []).map fun (result, final) =>
        match result with
        | .error error => (.error (failure address error), { node with machine := final })
        | .ok _ =>
            let cut := Packet.cut (node.partialPacket ++ final.drainOutput.1)
            (.ok (!node.isIdle, cut.1),
              { machine := final.drainOutput.2, partialPacket := cut.2 }) := by
  have busy : (node.machine.pendingInput != 0) = !node.isIdle := by
    unfold Machine.pendingInput isIdle
    cases node.machine.bridge.input <;> rfl
  have machine : (if !node.isIdle then node.machine else node.machine.feed [idleInput]) =
      node.opened idleInput := by
    unfold opened
    cases node.isIdle <;> rfl
  unfold visit
  dsimp only
  rw [busy, machine]
  cases (node.opened idleInput).runUntilInput fuel [] with
  | none => rfl
  | some answer =>
      obtain ⟨result, final⟩ := answer
      cases result <;> rfl

end Node

/-- What happens in a network at a time. -/
inductive Event
  /-- A node has its turn: with nothing queued, it is given the idle value; its machine reads some
  words and puts out others, which complete some packets. -/
  | turn (address : Nat) (idle : Bool) (reads outputs : List Word) (packets : List Packet)
  /-- A node has its turn and its machine fails. -/
  | failed (address : Nat) (idle : Bool) (reads outputs : List Word) (error : Error)
  /-- A packet that a node sent is handed over. -/
  | sent (packet : Packet)
  /-- A round ends, with the delivery of the monitor if it makes one. -/
  | ended (round : Round)

namespace Event

/-- Whether a node has its turn for which something is queued. -/
def isBusy : Event → Bool
  | .turn _ idle _ _ _ => !idle
  | _ => false

def isFailure : Event → Bool
  | .failed .. => true
  | _ => false

def sent? : Event → Option Packet
  | .sent packet => some packet
  | _ => none

/-- The packet that is handed over, be it from a node or from the monitor. -/
def handed? : Event → Option Packet
  | .sent packet => some packet
  | .ended round => round.delivery.map Prod.fst
  | _ => none

/-- Whether the node at an address has its turn. -/
def isTurnOf (address : Nat) : Event → Bool
  | .turn other _ _ _ _ | .failed other _ _ _ _ => other = address
  | _ => false

end Event

/-- Whether a packet is addressed to the node at an address. What is addressed to the monitor is
not. -/
def Packet.isFor (address : Nat) (packet : Packet) : Bool :=
  packet.dest != IdleMonitor.address && packet.dest.toInt = address

theorem Packet.isFor_iff {address : Nat} {packet : Packet} :
    packet.isFor address = true ↔
      packet.dest ≠ IdleMonitor.address ∧ packet.dest.toInt = address := by
  rw [isFor, Bool.and_eq_true, bne_iff_ne, decide_eq_true_iff]

namespace Node

/-- What the node at an address undergoes in an event. -/
inductive Undergoes (idleInput : Word) (address : Nat) (node : Node) : Event → Node → Prop
  | turn {reads outputs left : List Word} {output : Option Word} {final : Machine}
      {packets : List Packet} (live : node.machine.isHalted = false)
      (ran : (node.opened idleInput).RunsToInput reads outputs (.ok output) final)
      (cut : Packet.cut (node.partialPacket ++ final.drainOutput.1) = (packets, left)) :
      Undergoes idleInput address node (.turn address node.isIdle reads outputs packets)
        { machine := final.drainOutput.2, partialPacket := left }
  | failed {reads outputs : List Word} {cause error : Error} {final : Machine}
      (live : node.machine.isHalted = false)
      (ran : (node.opened idleInput).RunsToInput reads outputs (.error cause) final) :
      Undergoes idleInput address node (.failed address node.isIdle reads outputs error)
        { node with machine := final }
  | handed {event : Event} {packet : Packet} (handed : event.handed? = some packet)
      (addressed : packet.isFor address = true) :
      Undergoes idleInput address node event (node.receive packet)
  | nothing {event : Event} (elsewhere : event.isTurnOf address = false)
      (unaddressed : ∀ packet, event.handed? = some packet → packet.isFor address = false) :
      Undergoes idleInput address node event node

end Node

theorem IdleMonitor.wake_of_heard {monitor : IdleMonitor} {latest : Packet}
    (heard : monitor.latest = some latest) :
    monitor.wake =
      (some ({ latest with dest := 0 }, decide (monitor.lastDelivered.map (·.y) = some latest.y)),
        { monitor with
          lastDelivered := some { latest with dest := 0 }
          deliveries := monitor.deliveries + 1 }) := by
  simp only [wake, heard]

namespace Network

variable {network next : Network} {event : Event} {round : Round} {progress : Progress}

/-- The network with another node at an address. -/
def put (network : Network) (address : Nat) (node : Node) : Network :=
  { network with nodes := network.nodes.setIfInBounds address node }

/-- An event happens to a network. -/
inductive Happens (network : Network) : Event → Network → Prop
  | turn {address : Nat} {node : Node} {reads outputs left : List Word} {output : Option Word}
      {final : Machine} {packets : List Packet}
      (there : network.nodes[address]? = some node) (live : node.machine.isHalted = false)
      (ran : (node.opened network.config.idleInput).RunsToInput reads outputs (.ok output) final)
      (cut : Packet.cut (node.partialPacket ++ final.drainOutput.1) = (packets, left)) :
      Happens network (.turn address node.isIdle reads outputs packets)
        (network.put address { machine := final.drainOutput.2, partialPacket := left })
  | failed {address : Nat} {node : Node} {reads outputs : List Word} {cause : Error}
      {final : Machine} (there : network.nodes[address]? = some node)
      (live : node.machine.isHalted = false)
      (ran : (node.opened network.config.idleInput).RunsToInput reads outputs (.error cause)
        final) :
      Happens network
        (.failed address node.isIdle reads outputs (Node.failure address cause))
        (network.put address { node with machine := final })
  | sent (packet : Packet) : Happens network (.sent packet) (network.route packet)
  | ended {progress : Progress} {round : Round} {next : Network}
      (finished : network.finishRound progress = (round, next)) :
      Happens network (.ended round) next

/-- A halted node is passed over, and so is an address that nobody has. -/
theorem visit_of_passed {address : Nat} {progress : Progress}
    (passed : ∀ node, network.nodes[address]? = some node → node.machine.isHalted = true)
    (fuel : Nat) : network.visit fuel address progress = some (.ok progress, network) := by
  unfold visit
  split
  · rename_i inside
    rw [if_pos (passed _ (Array.getElem?_eq_getElem inside))]
  · rfl

/-- To visit a node that is not halted is to run it to its next input. Behind a run that returns its
packets are handed over. -/
theorem visit_of_live {address : Nat} {node : Node} (there : network.nodes[address]? = some node)
    (live : node.machine.isHalted = false) (fuel : Nat) (progress : Progress) :
    network.visit fuel address progress =
      ((node.opened network.config.idleInput).runUntilInput fuel []).map fun (result, final) =>
        match result with
        | .error cause =>
            (.error (Node.failure address cause), network.put address { node with machine := final })
        | .ok _ =>
            let cut := Packet.cut (node.partialPacket ++ final.drainOutput.1)
            (.ok { busy := progress.busy || !node.isIdle, sent := progress.sent ++ cut.1 },
              (network.put address
                { machine := final.drainOutput.2, partialPacket := cut.2 }).routeAll cut.1) := by
  obtain ⟨inside, rfl⟩ := Array.getElem?_eq_some_iff.mp there
  -- While it is visited the node stands outside the array; then it is put back.
  have restored (node : Node) :
      (network.nodes.set address Node.vacant).setIfInBounds address node =
        network.nodes.setIfInBounds address node := by
    simp only [Array.setIfInBounds, Array.size_set, inside, ↓reduceDIte, Array.set_set]
  simp only [visit, inside, ↓reduceDIte, live, Bool.false_eq_true, ↓reduceIte, Node.visit_eq,
    restored]
  cases (network.nodes[address].opened network.config.idleInput).runUntilInput fuel [] with
  | none => rfl
  | some answer =>
      obtain ⟨result, final⟩ := answer
      cases result <;> rfl

theorem passed_or_live (network : Network) (address : Nat) :
    (∀ node, network.nodes[address]? = some node → node.machine.isHalted = true) ∨
      ∃ node, network.nodes[address]? = some node ∧ node.machine.isHalted = false := by
  cases there : network.nodes[address]? with
  | none => exact .inl fun node absurd => nomatch absurd
  | some node =>
      cases halted : node.machine.isHalted with
      | false => exact .inr ⟨node, rfl, halted⟩
      | true =>
          refine .inl fun other same => ?_
          cases same
          exact halted

/-- Visiting a node is passing it over, its turn with its packets handed over, or its failure. -/
theorem visit_cases {fuel address : Nat} {progress : Progress} {outcome : Except Error Progress}
    (returned : network.visit fuel address progress = some (outcome, next)) :
    (outcome = .ok progress ∧ next = network ∧
      ∀ node, network.nodes[address]? = some node → node.machine.isHalted = true) ∨
    (∃ mid idle reads outputs packets,
      network.Happens (.turn address idle reads outputs packets) mid ∧
      next = mid.routeAll packets ∧
      outcome = .ok { busy := progress.busy || !idle, sent := progress.sent ++ packets }) ∨
    ∃ idle reads outputs error, network.Happens (.failed address idle reads outputs error) next ∧
      outcome = .error error := by
  rcases network.passed_or_live address with passed | ⟨node, there, live⟩
  · rw [visit_of_passed passed] at returned
    cases returned
    exact .inl ⟨rfl, rfl, passed⟩
  · rw [visit_of_live there live] at returned
    obtain ⟨⟨result, final⟩, ran, came⟩ := Option.map_eq_some_iff.mp returned
    obtain ⟨reads, outputs, runs⟩ :=
      Machine.exists_runsToInput ((Node.isHalted_opened _ _).trans live) ran
    cases result with
    | error cause =>
        cases came
        exact .inr (.inr ⟨_, _, _, _, .failed there live runs, rfl⟩)
    | ok output =>
        cases came
        exact .inr (.inl ⟨_, _, _, _, _, .turn there live runs rfl, rfl, rfl⟩)

/-! ## What an event does to a node -/

theorem position?_eq_some_iff {address : Word} {position : Nat} :
    position? address = some position ↔ address.toInt = position := by
  unfold position?
  have clamped : address.toNatClampNeg = address.toInt.toNat := rfl
  split
  · rename_i negative
    have below := Int64.lt_iff_toInt_lt.mp negative
    have zero : (0 : Word).toInt = 0 := rfl
    simp only [reduceCtorEq, false_iff]
    omega
  · rename_i nonnegative
    have below := mt Int64.lt_iff_toInt_lt.mpr nonnegative
    have zero : (0 : Word).toInt = 0 := rfl
    rw [Option.some.injEq, clamped]
    omega

/-- Handing a packet over is receiving it at the node it is addressed to. -/
theorem getElem?_route (network : Network) (packet : Packet) (address : Nat) :
    (network.route packet).nodes[address]? =
      network.nodes[address]?.map fun node =>
        if packet.isFor address then node.receive packet else node := by
  unfold route Packet.isFor
  by_cases monitored : packet.dest = IdleMonitor.address
  · simp [monitored]
  · simp only [monitored, ↓reduceIte, bne_iff_ne.mpr monitored, Bool.true_and, decide_eq_true_eq]
    cases found : position? packet.dest with
    | none =>
        have other : ¬packet.dest.toInt = address := by
          intro same
          rw [position?_eq_some_iff.mpr same] at found
          cases found
        simp only [other, ↓reduceIte, Option.map_id']
    | some position =>
        have same := position?_eq_some_iff.mp found
        simp only [Array.getElem?_modify, same, Int.natCast_inj]
        by_cases here : position = address
        · simp only [here, ↓reduceIte]
        · simp only [here, ↓reduceIte, Option.map_id']

theorem config_route (network : Network) (packet : Packet) :
    (network.route packet).config = network.config := by
  unfold route
  split
  · rfl
  · split <;> rfl

theorem size_route (network : Network) (packet : Packet) :
    (network.route packet).nodes.size = network.nodes.size := by
  unfold route
  split
  · rfl
  · split
    · rfl
    · exact Array.size_modify

/-- Which nodes a packet leaves depends on the nodes alone. -/
theorem nodes_route_congr {other : Network} (same : other.nodes = network.nodes)
    (packet : Packet) : (other.route packet).nodes = (network.route packet).nodes := by
  unfold route
  split
  · exact same
  · split
    · exact same
    · simp only [same]

/-- What the end of a round can come to. -/
inductive Closes (network : Network) (progress : Progress) : Round → Network → Prop
  | active (active : ¬(progress.busy = false ∧ progress.sent = [])) :
      Closes network progress { sent := progress.sent, idle := false, delivery := none }
        { network with rounds := network.rounds + 1 }
  | unheard (quiet : progress.busy = false) (silent : progress.sent = [])
      (nothing : network.monitor.latest = none) :
      Closes network progress { sent := progress.sent, idle := true, delivery := none }
        { network with rounds := network.rounds + 1 }
  | delivered {latest packet : Packet} (quiet : progress.busy = false) (silent : progress.sent = [])
      (heard : network.monitor.latest = some latest)
      (readdressed : packet = { latest with dest := 0 }) :
      Closes network progress
        { sent := progress.sent, idle := true
          delivery := some (packet, network.monitor.lastDelivered.map (·.y) = some packet.y) }
        ({ network with
            rounds := network.rounds + 1
            monitor := { network.monitor with
              lastDelivered := some packet, deliveries := network.monitor.deliveries + 1 } }.route
          packet)

theorem closes_of_finishRound (finished : network.finishRound progress = (round, next)) :
    network.Closes progress round next := by
  obtain ⟨busy, sent⟩ := progress
  unfold finishRound at finished
  cases busy with
  | true =>
      cases finished
      exact .active (by simp)
  | false =>
      cases sent with
      | cons packet rest =>
          cases finished
          exact .active (by simp)
      | nil =>
          cases heard : network.monitor.latest with
          | none =>
              have woken : network.monitor.wake = (none, network.monitor) := by
                simp only [IdleMonitor.wake, heard]
              simp only [woken] at finished
              cases finished
              exact .unheard rfl rfl heard
          | some latest =>
              simp only [IdleMonitor.wake_of_heard heard] at finished
              cases finished
              exact @Closes.delivered network ⟨false, []⟩ latest _ rfl rfl heard rfl

/-- The end of a round hands over what the monitor delivers. -/
theorem finishRound_eq (finished : network.finishRound progress = (round, next)) :
    next.config = network.config ∧ round.sent = progress.sent ∧
      next.nodes =
        match round.delivery with
        | none => network.nodes
        | some (packet, _) => (network.route packet).nodes := by
  cases closes_of_finishRound finished with
  | active active => exact ⟨rfl, rfl, rfl⟩
  | unheard quiet silent nothing => exact ⟨rfl, rfl, rfl⟩
  | @delivered latest packet quiet silent heard readdressed =>
      refine ⟨config_route _ _, rfl, ?_⟩
      change (route _ packet).nodes = (network.route packet).nodes
      apply nodes_route_congr
      rfl

theorem getElem?_put (network : Network) (address other : Nat) (node : Node)
    (inside : address < network.nodes.size) :
    (network.put address node).nodes[other]? =
      if address = other then some node else network.nodes[other]? := by
  unfold put
  simp only [Array.getElem?_setIfInBounds, inside, ↓reduceIte]

/-- What an event does to each node. -/
theorem Happens.undergoes {address : Nat} {node : Node} (happens : network.Happens event next)
    (there : network.nodes[address]? = some node) :
    ∃ after, next.nodes[address]? = some after ∧
      node.Undergoes network.config.idleInput address event after := by
  have given (packet : Packet) : ∃ after, (network.route packet).nodes[address]? = some after ∧
      ∀ event : Event, event.isTurnOf address = false → event.handed? = some packet →
        node.Undergoes network.config.idleInput address event after := by
    rw [getElem?_route, there, Option.map_some]
    refine ⟨_, rfl, ?_⟩
    intro event elsewhere handed
    cases addressed : packet.isFor address with
    | true => exact .handed handed addressed
    | false =>
        refine .nothing elsewhere ?_
        intro other same
        rw [handed] at same
        cases same
        exact addressed
  have inside {other : Nat} {found : Node} (foundThere : network.nodes[other]? = some found) :
      other < network.nodes.size := (Array.getElem?_eq_some_iff.mp foundThere).1
  cases happens with
  | @turn other found reads outputs left output final packets foundThere live ran cut =>
      rw [getElem?_put _ _ _ _ (inside foundThere)]
      by_cases here : other = address
      · subst here
        rw [there] at foundThere
        cases foundThere
        rw [if_pos rfl]
        exact ⟨_, rfl, .turn live ran cut⟩
      · rw [if_neg here]
        refine ⟨node, there, .nothing ?_ ?_⟩
        · exact decide_eq_false here
        · exact fun packet absurd => nomatch absurd
  | @failed other found reads outputs cause final foundThere live ran =>
      rw [getElem?_put _ _ _ _ (inside foundThere)]
      by_cases here : other = address
      · subst here
        rw [there] at foundThere
        cases foundThere
        rw [if_pos rfl]
        exact ⟨_, rfl, .failed live ran⟩
      · rw [if_neg here]
        refine ⟨node, there, .nothing ?_ ?_⟩
        · exact decide_eq_false here
        · exact fun packet absurd => nomatch absurd
  | sent packet =>
      obtain ⟨after, found, undergoes⟩ := given packet
      exact ⟨after, found, undergoes _ rfl rfl⟩
  | @ended progress round next finished =>
      obtain ⟨_, _, nodes⟩ := finishRound_eq finished
      rw [nodes]
      cases delivered : round.delivery with
      | none =>
          refine ⟨node, there, .nothing rfl ?_⟩
          intro packet absurd
          simp [Event.handed?, delivered] at absurd
      | some pair =>
          obtain ⟨packet, repeated⟩ := pair
          obtain ⟨after, found, undergoes⟩ := given packet
          refine ⟨after, found, undergoes _ rfl ?_⟩
          simp only [Event.handed?, delivered, Option.map_some]

theorem Happens.config_eq (happens : network.Happens event next) :
    next.config = network.config := by
  cases happens with
  | turn => rfl
  | failed => rfl
  | sent packet => exact network.config_route packet
  | ended finished => exact (finishRound_eq finished).1

theorem Happens.size_eq (happens : network.Happens event next) :
    next.nodes.size = network.nodes.size := by
  cases happens with
  | turn => exact Array.size_setIfInBounds
  | failed => exact Array.size_setIfInBounds
  | sent packet => exact network.size_route packet
  | @ended progress round next finished =>
      obtain ⟨_, _, nodes⟩ := finishRound_eq finished
      rw [nodes]
      cases round.delivery with
      | none => rfl
      | some pair => exact network.size_route pair.1

/-- Where a node is after an event, one was before. -/
theorem Happens.exists_node {address : Nat} {node : Node} (happens : network.Happens event next)
    (there : next.nodes[address]? = some node) :
    ∃ before, network.nodes[address]? = some before ∧
      before.Undergoes network.config.idleInput address event node := by
  obtain ⟨inside, _⟩ := Array.getElem?_eq_some_iff.mp there
  rw [happens.size_eq] at inside
  obtain ⟨after, found, undergoes⟩ := happens.undergoes (Array.getElem?_eq_getElem inside)
  rw [there] at found
  cases found
  exact ⟨_, Array.getElem?_eq_getElem inside, undergoes⟩

/-- Where no node is, none comes. -/
theorem Happens.absent {address : Nat} (happens : network.Happens event next)
    (absent : network.nodes[address]? = none) : next.nodes[address]? = none := by
  rw [Array.getElem?_eq_none_iff] at absent ⊢
  rw [happens.size_eq]
  exact absent

/-- A fresh network has a booted node at each of its addresses. -/
theorem fresh_of_ofProgram {program : Program} {config : NetworkConfig}
    (built : ofProgram program config = .ok network) :
    network.config = config ∧ ∀ {address : Nat} {node : Node},
      network.nodes[address]? = some node → node = Node.boot program (nodeConfig config) address := by
  unfold ofProgram at built
  split at built
  · cases built
  · cases built
    refine ⟨rfl, ?_⟩
    intro address node there
    rw [List.getElem?_toArray, List.getElem?_map] at there
    obtain ⟨position, ranged, rfl⟩ := Option.map_eq_some_iff.mp there
    obtain ⟨inside, rfl⟩ := List.getElem?_eq_some_iff.mp ranged
    rw [List.getElem_range]

end Network

end Intcode
