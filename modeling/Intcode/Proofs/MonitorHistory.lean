import Intcode.Proofs.Framing
import Intcode.Proofs.IdleRounds
import Intcode.Proofs.NetworkCalls
import Intcode.Proofs.Streams

/-! # The history of the monitor

What the monitor keeps is decided by two rows: the reports, which are the packets that nodes sent to
it in the order in which they were handed over, and its deliveries. One event adds to these rows
what it hands over and nothing else (`Network.Happens.monitor_eq`), also in a round that fails
behind it. So the monitor knows the last report and how many there were, counts the rounds that told
of a delivery, and what it sends gets into the queues by its deliveries alone
(`Network.monitor_keeps_history`). -/

namespace Intcode

namespace IdleMonitor

/-- The monitor behind some reports and some deliveries. -/
def hearing (monitor : IdleMonitor) (reports deliveries : List Packet) : IdleMonitor where
  latest := reports.getLast?.or monitor.latest
  received := monitor.received + reports.length
  lastDelivered := deliveries.getLast?.or monitor.lastDelivered
  deliveries := monitor.deliveries + deliveries.length

variable {monitor : IdleMonitor} {reports deliveries : List Packet}

theorem hearing_hearing (laterReports laterDeliveries : List Packet) :
    (monitor.hearing reports deliveries).hearing laterReports laterDeliveries =
      monitor.hearing (reports ++ laterReports) (deliveries ++ laterDeliveries) := by
  simp only [hearing, List.getLast?_append, List.length_append, Option.or_assoc, Nat.add_assoc]

end IdleMonitor

namespace Event

/-- The packet that a node sent to the monitor. -/
def report? (event : Event) : Option Packet :=
  event.sent?.filter fun packet => packet.dest = IdleMonitor.address

/-- The packet that the monitor delivers. -/
def delivery? : Event → Option Packet
  | .ended round => round.delivery.map Prod.fst
  | _ => none

variable {event : Event} {packet : Packet}

theorem report?_eq_some_iff :
    event.report? = some packet ↔
      event.sent? = some packet ∧ packet.dest = IdleMonitor.address := by
  rw [report?, Option.filter_eq_some_iff, decide_eq_true_iff]

/-- What is handed over was sent by a node or is delivered by the monitor. -/
theorem handed?_eq_some_iff :
    event.handed? = some packet ↔ event.sent? = some packet ∨ event.delivery? = some packet := by
  cases event <;> simp [handed?, sent?, delivery?]

end Event

namespace Network

variable {fresh network next last : Network} {event : Event} {moments : List Moment}
  {addresses : List Nat} {failure : Option Error} {result : Except Error Round} {address : Nat}
  {packet : Packet} {history : List (Except Error Round × List Moment)}

/-- The packets that nodes sent to the monitor, in the order in which they were handed over. -/
def reportsOf (moments : List Moment) : List Packet :=
  moments.filterMap (·.event.report?)

/-- The packets that the monitor delivered. -/
def deliveriesOf (moments : List Moment) : List Packet :=
  moments.filterMap (·.event.delivery?)

/-! ## One event -/

/-- **One event at the monitor.** It hears the report and counts the delivery. -/
theorem Happens.monitor_eq (happens : network.Happens event next) :
    next.monitor = network.monitor.hearing event.report?.toList event.delivery?.toList := by
  cases happens with
  | turn => rfl
  | failed => rfl
  | sent packet =>
      rw [monitor_route]
      by_cases report : packet.dest = IdleMonitor.address
      · have heard : (Event.sent packet).report? = some packet :=
          Event.report?_eq_some_iff.mpr ⟨rfl, report⟩
        rw [if_pos report, heard]
        rfl
      · have unheard : (Event.sent packet).report? = none :=
          Option.filter_some_neg (decide_eq_false report)
        rw [if_neg report, unheard]
        rfl
  | ended finished =>
      cases closes_of_finishRound finished with
      | active active => rfl
      | unheard quiet silent nothing => rfl
      | delivered quiet silent heard readdressed =>
          have elsewhere : (0 : Word) ≠ IdleMonitor.address := by decide
          rw [monitor_route, readdressed, if_neg elsewhere]
          rfl

/-- What the monitor delivers is the newest packet it received, addressed to node zero. -/
theorem Happens.delivery_eq (happens : network.Happens event next)
    (delivered : event.delivery? = some packet) :
    ∃ latest, network.monitor.latest = some latest ∧ packet = { latest with dest := 0 } := by
  cases happens with
  | turn => cases delivered
  | failed => cases delivered
  | sent other => cases delivered
  | ended finished =>
      cases closes_of_finishRound finished with
      | active active => cases delivered
      | unheard quiet silent nothing => cases delivered
      | delivered quiet silent heard readdressed =>
          cases delivered
          exact ⟨_, heard, readdressed⟩

/-- A report changes no queue. -/
theorem Happens.queue_eq_of_report (happens : network.Happens event next)
    (report : event.report? = some packet) (address : Nat) :
    next.queue address = network.queue address := by
  obtain ⟨sent, reported⟩ := Event.report?_eq_some_iff.mp report
  refine happens.queue_eq_of_dropped (Event.handed?_eq_some_iff.mpr (.inl sent)) ?_ address
  intro other addressed
  exact absurd reported (Packet.isFor_iff.mp addressed).1

/-- A packet that gets into a queue was sent by a node to another than the monitor, or it is a
delivery of the monitor to node zero. -/
theorem Happens.pair_cases {live : Bool} (happens : network.Happens event next)
    (put : event.block? address live = some (.pair packet)) :
    (event.sent? = some packet ∧ packet.dest ≠ IdleMonitor.address ∧
        packet.dest.toInt = address) ∨
      event.delivery? = some packet ∧ address = 0 := by
  have received : event.received? address live = some packet := by
    rw [← Event.packet?_of_block?, put]
    rfl
  obtain ⟨handed, taken⟩ := Option.filter_eq_some_iff.mp received
  obtain ⟨listened, addressed⟩ := Packet.isFor_iff.mp ((Bool.and_eq_true_iff.mp taken).2)
  rcases Event.handed?_eq_some_iff.mp handed with sent | delivered
  · exact .inl ⟨sent, listened, addressed⟩
  · obtain ⟨latest, _, rfl⟩ := happens.delivery_eq delivered
    have zero : (0 : Word).toInt = 0 := rfl
    rw [zero] at addressed
    exact .inr ⟨delivered, by omega⟩

/-! ## Histories -/

theorem Unfolds.monitor_eq (unfolds : Unfolds network moments last) :
    last.monitor = network.monitor.hearing (reportsOf moments) (deliveriesOf moments) := by
  induction unfolds with
  | nothing network => rfl
  | @moment network mid last event moments happens _ ih =>
      rw [ih, happens.monitor_eq, IdleMonitor.hearing_hearing]
      simp only [reportsOf, deliveriesOf, List.filterMap_eq_flatMap_toList, List.flatMap_cons]

theorem deliveriesOf_handovers (network : Network) (packets : List Packet) :
    deliveriesOf (network.handovers packets) = [] := by
  have delivered := congrArg (List.filterMap Event.delivery?) (network.events_handovers packets)
  rw [List.filterMap_map, List.filterMap_map] at delivered
  exact delivered.trans (List.filterMap_eq_nil_iff.mpr fun _ _ => rfl)

theorem Passes.deliveries_eq_nil (passes : Passes network addresses moments failure last) :
    deliveriesOf moments = [] := by
  induction passes with
  | nothing => rfl
  | skipped _ _ ih => exact ih
  | turn _ _ ih =>
      refine List.filterMap_append.trans ?_
      exact List.append_eq_nil_iff.mpr ⟨deliveriesOf_handovers _ _, ih⟩
  | failed => rfl

/-- What the monitor delivers in a round is what the round tells. -/
theorem RoundOf.deliveries_eq (made : network.RoundOf moments result last) :
    deliveriesOf moments = deliveriesIn [result] := by
  cases made with
  | failed passes => exact passes.deliveries_eq_nil
  | @ended moments round mid _ passes finished =>
      refine List.filterMap_append.trans ?_
      rw [← deliveriesOf, passes.deliveries_eq_nil]
      rfl

theorem Chronicle.deliveries_eq (chronicle : Chronicle network history last) :
    deliveriesOf (momentsOf history) = deliveriesIn (history.map Prod.fst) := by
  induction chronicle with
  | nothing network => rfl
  | @andThen network next last result moments history made _ ih =>
      have here := made.deliveries_eq
      simp only [momentsOf, deliveriesOf, deliveriesIn, List.flatMap_cons, List.filterMap_append,
        List.map_cons] at here ih ⊢
      rw [here, ih, ← List.filterMap_append, List.singleton_append]

/-- The monitor keeps its history: what it knows of the packets sent to it and of its deliveries is
what the rounds there were tell, those that failed included. -/
structure MonitorHistory (fresh : Network) (history : List (Except Error Round × List Moment))
    (network : Network) : Prop where
  /-- All that is put out by a node are the words of the packets it sends and what it has not
  sent. -/
  outputs_eq : ∀ (address : Nat) (node : Node), network.nodes[address]? = some node →
    (momentsOf history).flatMap (·.event.outputs address) =
      ((momentsOf history).flatMap (·.event.contributed address)).flatMap Packet.words ++
        node.unsent
  /-- A node that did not fail has sent all packets it completed. -/
  unsent_short : ∀ (address : Nat) (node : Node), network.nodes[address]? = some node →
    node.machine.state ≠ .failed → node.unsent.length < 3
  /-- What is sent in a round are the packets of its nodes, in the order of their addresses. -/
  sent_eq : ∀ result moments, (result, moments) ∈ history →
    moments.filterMap (·.event.sent?) =
      (List.range network.nodes.size).flatMap fun address =>
        moments.flatMap (·.event.contributed address)
  received_eq : network.monitor.received = (reportsOf (momentsOf history)).length
  latest_eq : network.monitor.latest = (reportsOf (momentsOf history)).getLast?
  /-- Nothing but a report changes what the monitor knows of reports. -/
  undisturbed : ∀ moment ∈ momentsOf history, moment.event.report? = none →
    moment.after.monitor.received = moment.before.monitor.received ∧
      moment.after.monitor.latest = moment.before.monitor.latest
  /-- The deliveries are those that the rounds told of. -/
  deliveries_eq : network.monitor.deliveries = (deliveriesIn (history.map Prod.fst)).length
  delivered : ∀ moment ∈ momentsOf history, ∀ packet, moment.event.delivery? = some packet →
    ∃ latest, moment.before.monitor.latest = some latest ∧ packet = { latest with dest := 0 }
  /-- A report changes no queue. -/
  unqueued : ∀ moment ∈ momentsOf history, ∀ packet, moment.event.report? = some packet →
    ∀ address, moment.after.queue address = moment.before.queue address
  /-- What is put into a queue is the idle value or a packet. -/
  entered_eq : ∀ moment ∈ momentsOf history, ∀ address, moment.entered address =
    (moment.block? address).toList.flatMap (Block.words fresh.config.idleInput)
  /-- A packet that is put into a queue was sent by a node to another than the monitor, or it is
  what the monitor delivers to node zero. -/
  put : ∀ moment ∈ momentsOf history, ∀ address packet,
    moment.block? address = some (.pair packet) →
      (moment.event.sent? = some packet ∧ packet.dest ≠ IdleMonitor.address ∧
          packet.dest.toInt = address) ∨
        moment.event.delivery? = some packet ∧ address = 0

theorem Chronicle.monitorHistory {program : Program} {config : NetworkConfig}
    (built : ofProgram program config = .ok fresh)
    (chronicle : Chronicle fresh history network) : MonitorHistory fresh history network where
  outputs_eq address node there :=
    (chronicle.unfolds.outputs_eq (settled_of_fresh built).inOrder (unsent_of_fresh built) there).2
  unsent_short address node there :=
    (chronicle.unfolds.outputs_eq (settled_of_fresh built).inOrder (unsent_of_fresh built)
      there).1.unsent_short
  sent_eq result moments among := by
    obtain ⟨_, before, _, earlier, made⟩ := chronicle.roundOf among
    rw [chronicle.unfolds.size_eq.2, ← earlier.size_eq.2]
    exact made.routed_eq
  received_eq := by
    rw [chronicle.unfolds.monitor_eq, monitor_of_fresh built]
    exact Nat.zero_add _
  latest_eq := by
    rw [chronicle.unfolds.monitor_eq, monitor_of_fresh built]
    exact Option.or_none
  undisturbed moment among unheard := by
    rw [(chronicle.unfolds.happens moment among).monitor_eq, unheard]
    exact ⟨rfl, rfl⟩
  deliveries_eq := by
    rw [chronicle.unfolds.monitor_eq, monitor_of_fresh built, ← chronicle.deliveries_eq]
    exact Nat.zero_add _
  delivered moment among packet := (chronicle.unfolds.happens moment among).delivery_eq
  unqueued moment among packet := (chronicle.unfolds.happens moment among).queue_eq_of_report
  entered_eq moment among := chronicle.unfolds.entered_eq among
  put moment among address packet := (chronicle.unfolds.happens moment among).pair_cases

/-- **The monitor keeps its history.** The calls made on a fresh network have a chronicle of rounds,
and in any chronicle that leads to the network they leave, the monitor has heard every packet that
was sent to it in these rounds, knows the last of them and has counted the deliveries that they
told of. -/
theorem monitor_keeps_history {program : Program} {config : NetworkConfig} {fuel : Nat}
    {calls : List NetworkCall} {answers : List (Except Error NetworkAnswer)}
    (built : ofProgram program config = .ok fresh)
    (returned : fresh.serveAll fuel calls = some (answers, network)) :
    (∃ history, Reaches fresh (history.map Prod.fst) network ∧ Chronicle fresh history network) ∧
    ∀ history, Chronicle fresh history network → MonitorHistory fresh history network :=
  ⟨exists_chronicle returned, fun _ chronicle => chronicle.monitorHistory built⟩

/-- The monitor has heard the report of the round that failed behind it. -/
theorem tattler_is_heard :
    ∃ fresh answers network history, ofProgram tattling tattlers = .ok fresh ∧
      fresh.serveAll 9 [.round, .run .firstMonitorPacket] = some (answers, network) ∧
      answers.map Except.toOption = [none, none] ∧
      network.monitor.received = 1 ∧ network.monitor.latest = some ⟨255, 7, 8⟩ ∧
      Chronicle fresh history network ∧ MonitorHistory fresh history network := by
  have evaluated :
      ((ofProgram tattling tattlers).toOption.bind
          (·.serveAll 9 [.round, .run .firstMonitorPacket])).map
        (fun went => (went.1.map Except.toOption, went.2.monitor.received,
          went.2.monitor.latest)) =
        some ([none, none], 1, some ⟨255, 7, 8⟩) := by decide +kernel
  obtain ⟨⟨answers, network⟩, came, same⟩ := Option.map_eq_some_iff.mp evaluated
  obtain ⟨fresh, built, returned⟩ := exists_fresh came
  simp only [Prod.mk.injEq] at same
  obtain ⟨failed, received, latest⟩ := same
  obtain ⟨⟨history, _, chronicle⟩, keeps⟩ := monitor_keeps_history built returned
  exact ⟨fresh, answers, network, history, built, returned, failed, received, latest, chronicle,
    keeps history chronicle⟩

end Network

end Intcode
