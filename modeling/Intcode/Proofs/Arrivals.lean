import Intcode.Proofs.MonitorHistory
import Intcode.Proofs.NetworkRuns

/-! # The arrival of deliveries

The monitor counts a delivery before it is handed over, and a halted node takes nothing in. A node
that has halted stays so (`Network.Happens.isLive_of_isLive`). So the deliveries arrive at node zero
until it halts, and from then on all of them are lost (`Network.Unfolds.deliveries_eq`). A run to a
repeated delivery may thus end with two packets that node zero never got
(`Network.deliveries_arrive_while_live`, `Network.lost_delivery_repeats`). -/

namespace Intcode

namespace Moment

/-- The packet that the monitor delivers, if it is put into the queue of node zero. -/
def arrival? (moment : Moment) : Option Packet :=
  moment.event.delivery?.filter fun packet => moment.block? 0 = some (.pair packet)

/-- The packet that the monitor delivers, if it is not put into the queue of node zero. -/
def lost? (moment : Moment) : Option Packet :=
  moment.event.delivery?.filter fun packet => moment.block? 0 ≠ some (.pair packet)

end Moment

namespace Node

variable {idleInput : Word} {address : Nat} {node after : Node} {event : Event}

/-- A node halts at its turn only. -/
theorem Undergoes.isHalted_eq (undergoes : node.Undergoes idleInput address event after)
    (elsewhere : event.isTurnOf address = false) :
    after.machine.isHalted = node.machine.isHalted := by
  cases undergoes with
  | turn live ran cut => exact absurd rfl (of_decide_eq_false elsewhere)
  | failed live ran => exact absurd rfl (of_decide_eq_false elsewhere)
  | handed handed addressed =>
      unfold Node.receive
      split <;> rfl
  | nothing elsewhere unaddressed => rfl

theorem Undergoes.live_of_live (undergoes : node.Undergoes idleInput address event after)
    (live : after.machine.isHalted = false) : node.machine.isHalted = false := by
  cases turn : event.isTurnOf address with
  | false => rwa [undergoes.isHalted_eq turn] at live
  | true =>
      cases undergoes with
      | turn liveBefore ran cut => exact liveBefore
      | failed liveBefore ran => exact liveBefore
      | handed handed addressed =>
          rw [Event.elsewhere_of_handed handed] at turn
          cases turn
      | nothing elsewhere unaddressed =>
          rw [elsewhere] at turn
          cases turn

end Node

namespace Network

variable {fresh network next last : Network} {event : Event} {moments : List Moment}
  {moment : Moment} {address : Nat} {packet : Packet} {results : List (Except Error Round)}
  {history : List (Except Error Round × List Moment)}

/-! ## Who is halted stays so -/

theorem isLive_iff :
    network.isLive address = true ↔
      ∃ node, network.nodes[address]? = some node ∧ node.machine.isHalted = false := by
  simp only [isLive, Option.any_eq_true, Bool.not_eq_true']

theorem Happens.isLive_of_isLive (happens : network.Happens event next)
    (live : next.isLive address = true) : network.isLive address = true := by
  obtain ⟨after, there, liveThen⟩ := isLive_iff.mp live
  obtain ⟨before, found, undergoes⟩ := happens.exists_node there
  exact isLive_iff.mpr ⟨before, found, undergoes.live_of_live liveThen⟩

theorem Happens.isLive_eq (happens : network.Happens event next)
    (elsewhere : event.isTurnOf address = false) :
    next.isLive address = network.isLive address := by
  cases there : network.nodes[address]? with
  | none => rw [isLive, isLive, there, happens.absent there]
  | some node =>
      obtain ⟨after, thereThen, undergoes⟩ := happens.undergoes there
      rw [isLive_of_node there, isLive_of_node thereThen, undergoes.isHalted_eq elsewhere]

/-- A node that is halted at first is halted at every moment. -/
theorem Unfolds.dead (unfolds : Unfolds network moments last)
    (dead : network.isLive address = false) :
    ∀ moment ∈ moments, moment.before.isLive address = false := by
  refine (unfolds.preserves (P := fun mid => mid.isLive address = false) ?_ dead).1
  intro moment among deadBefore
  rw [← Bool.not_eq_true] at deadBefore ⊢
  exact mt (unfolds.happens moment among).isLive_of_isLive deadBefore

/-- A node that is live at last was live at every moment. -/
theorem Unfolds.live (unfolds : Unfolds network moments last)
    (live : last.isLive address = true) :
    network.isLive address = true ∧
      ∀ moment ∈ moments, moment.before.isLive address = true := by
  induction unfolds with
  | nothing network => exact ⟨live, fun moment among => nomatch among⟩
  | moment happens _ ih =>
      obtain ⟨next, others⟩ := ih live
      have here := happens.isLive_of_isLive next
      exact ⟨here, List.forall_mem_cons.mpr ⟨here, others⟩⟩

/-! ## Arrivals and losses -/

/-- The deliveries of the monitor that were put into the queue of node zero. -/
def arrivalsOf (moments : List Moment) : List Packet :=
  moments.filterMap (·.arrival?)

/-- The deliveries of the monitor that were not put into the queue of node zero. -/
def lossesOf (moments : List Moment) : List Packet :=
  moments.filterMap (·.lost?)

/-- A delivery is put into the queue of node zero just when that node is not halted. -/
theorem Happens.block?_of_delivery {live : Bool} (happens : network.Happens event next)
    (delivered : event.delivery? = some packet) :
    event.block? 0 live = if live then some (.pair packet) else none := by
  have handed := Event.handed?_eq_some_iff.mpr (.inr delivered)
  obtain ⟨latest, _, rfl⟩ := happens.delivery_eq delivered
  have elsewhere : (0 : Word) ≠ IdleMonitor.address := by decide
  have addressed : Packet.isFor 0 { latest with dest := 0 } = true :=
    Packet.isFor_iff.mpr ⟨elsewhere, rfl⟩
  rw [Event.block?_of_handed handed, addressed, Bool.and_true]

theorem Happens.arrival?_eq (happens : moment.before.Happens moment.event moment.after) :
    moment.arrival? = if moment.before.isLive 0 then moment.event.delivery? else none := by
  cases delivered : moment.event.delivery? with
  | none => simp only [Moment.arrival?, delivered, Option.filter_none, ite_self]
  | some packet =>
      rw [Moment.arrival?, Moment.block?, delivered, Option.filter_some,
        happens.block?_of_delivery delivered]
      cases moment.before.isLive 0 <;> simp

theorem Happens.lost?_eq (happens : moment.before.Happens moment.event moment.after) :
    moment.lost? = if moment.before.isLive 0 then none else moment.event.delivery? := by
  cases delivered : moment.event.delivery? with
  | none => simp only [Moment.lost?, delivered, Option.filter_none, ite_self]
  | some packet =>
      rw [Moment.lost?, Moment.block?, delivered, Option.filter_some,
        happens.block?_of_delivery delivered]
      cases moment.before.isLive 0 <;> simp

/-- While node zero is halted all deliveries are lost. -/
theorem Unfolds.all_lost (unfolds : Unfolds network moments last)
    (dead : network.isLive 0 = false) :
    arrivalsOf moments = [] ∧ lossesOf moments = deliveriesOf moments := by
  have deadThen := unfolds.dead dead
  constructor
  · refine List.filterMap_eq_nil_iff.mpr ?_
    intro moment among
    rw [(unfolds.happens moment among).arrival?_eq, deadThen moment among]
    rfl
  · refine List.filterMap_congr ?_
    intro moment among
    rw [(unfolds.happens moment among).lost?_eq, deadThen moment among]
    rfl

/-- **Arrivals come before losses.** The deliveries that arrived are the first ones, and those that
were lost come behind them. -/
theorem Unfolds.deliveries_eq (unfolds : Unfolds network moments last) :
    deliveriesOf moments = arrivalsOf moments ++ lossesOf moments := by
  induction unfolds with
  | nothing network => rfl
  | @moment network mid last event moments happens rest ih =>
      cases live : network.isLive 0 with
      | true =>
          have arrived : (Moment.mk network event mid).arrival? =
              if network.isLive 0 then event.delivery? else none := Happens.arrival?_eq happens
          have unlost : (Moment.mk network event mid).lost? =
              if network.isLive 0 then none else event.delivery? := Happens.lost?_eq happens
          simp only [live, ↓reduceIte] at arrived unlost
          simp only [deliveriesOf, arrivalsOf, lossesOf, List.filterMap_eq_flatMap_toList,
            List.flatMap_cons, arrived, unlost, Option.toList_none, List.nil_append,
            List.append_assoc] at ih ⊢
          rw [ih]
      | false =>
          obtain ⟨none, all⟩ := (Unfolds.moment happens rest).all_lost live
          rw [none, all, List.nil_append]

/-- As long as node zero is not halted nothing is lost. -/
theorem Unfolds.nothing_lost (unfolds : Unfolds network moments last)
    (live : last.isLive 0 = true) : lossesOf moments = [] := by
  refine List.filterMap_eq_nil_iff.mpr ?_
  intro moment among
  rw [(unfolds.happens moment among).lost?_eq, (unfolds.live live).2 moment among]
  rfl

/-- What became of the deliveries that the monitor counted: those made while node zero was not
halted arrived, and the others, which came behind them, were lost. -/
structure DeliveryAccount (history : List (Except Error Round × List Moment)) (network : Network) :
    Prop where
  counted : network.monitor.deliveries = (deliveriesOf (momentsOf history)).length
  entered : ∀ moment ∈ momentsOf history, ∀ packet, moment.event.delivery? = some packet →
    moment.entered 0 = if moment.before.isLive 0 then [packet.x, packet.y] else []
  parted : deliveriesOf (momentsOf history) =
    arrivalsOf (momentsOf history) ++ lossesOf (momentsOf history)
  complete : network.isLive 0 = true → lossesOf (momentsOf history) = []

theorem Chronicle.deliveryAccount {program : Program} {config : NetworkConfig}
    (built : ofProgram program config = .ok fresh)
    (chronicle : Chronicle fresh history network) : DeliveryAccount history network where
  counted := by
    rw [(chronicle.monitorHistory built).deliveries_eq, chronicle.deliveries_eq]
  entered moment among packet delivered := by
    rw [chronicle.unfolds.entered_eq among, Moment.block?,
      (chronicle.unfolds.happens moment among).block?_of_delivery delivered]
    cases moment.before.isLive 0 <;> rfl
  parted := chronicle.unfolds.deliveries_eq
  complete := chronicle.unfolds.nothing_lost

/-- The delivery that ends a round arrives just when node zero is not halted behind the round. -/
theorem RoundOf.lossesOf_eq_nil_iff {round : Round} {repeated : Bool}
    (made : network.RoundOf moments (.ok round) last)
    (delivery : round.delivery = some (packet, repeated)) :
    lossesOf moments = [] ↔ last.isLive 0 = true := by
  refine ⟨?_, made.unfolds.nothing_lost⟩
  cases made with
  | @ended moments round mid last passes finished =>
      intro unlost
      have happens : mid.Happens (.ended round) last := .ended finished
      have unlostThen := List.filterMap_eq_nil_iff.mp unlost ⟨mid, .ended round, last⟩
        (List.mem_append_right _ (List.mem_singleton_self _))
      have lost : (Moment.mk mid (.ended round) last).lost? =
          if mid.isLive 0 then none else (Event.ended round).delivery? := Happens.lost?_eq happens
      have delivered : (Event.ended round).delivery? = some packet := by
        simp only [Event.delivery?, delivery, Option.map_some]
      rw [unlostThen] at lost
      rw [happens.isLive_eq rfl]
      cases live : mid.isLive 0 with
      | true => rfl
      | false =>
          simp only [live, delivered] at lost
          cases lost

/-- A round that repeats the delivery before it. Node zero got both just when it is not halted behind
the round. -/
theorem Reaches.repetition {program : Program} {config : NetworkConfig} {fuel : Nat} {round : Round}
    (built : ofProgram program config = .ok fresh) (reached : Reaches fresh results network)
    (returned : network.round fuel = some (.ok round, last))
    (repeated : round.delivery = some (packet, true)) :
    ∃ others previous history, Reaches fresh (history.map Prod.fst) last ∧
      Chronicle fresh history last ∧
      deliveriesOf (momentsOf history) = others ++ [previous, packet] ∧ previous.y = packet.y ∧
      (arrivalsOf (momentsOf history) = others ++ [previous, packet] ↔
        last.isLive 0 = true) := by
  obtain ⟨earlier, rfl, chronicle⟩ := reached.told
  obtain ⟨moments, made⟩ := round_told returned
  have whole : Chronicle fresh (earlier ++ [(.ok round, moments)]) last :=
    chronicle.append (.andThen made (.nothing last))
  have told : (earlier ++ [(Except.ok round, moments)]).map Prod.fst =
      earlier.map Prod.fst ++ [.ok round] := List.map_append
  obtain ⟨previous, newest, same⟩ :=
    (made.repeated_iff (reached.accounts built) repeated).mp rfl
  obtain ⟨others, before⟩ := List.getLast?_eq_some_iff.mp newest
  have deliveries : deliveriesOf (momentsOf (earlier ++ [(.ok round, moments)])) =
      others ++ [previous, packet] := by
    rw [whole.deliveries_eq, told, deliveriesIn_concat, before, repeated, List.append_assoc]
    rfl
  refine ⟨others, previous, _, told ▸ reached.round returned, whole, deliveries, same, ?_⟩
  rw [← deliveries, whole.unfolds.deliveries_eq, List.self_eq_append_right]
  refine ⟨?_, whole.unfolds.nothing_lost⟩
  intro unlost
  rw [momentsOf, List.flatMap_append, lossesOf, List.filterMap_append] at unlost
  have unlostThen := (List.append_eq_nil_iff.mp unlost).2
  rw [List.flatMap_singleton] at unlostThen
  exact (made.lossesOf_eq_nil_iff repeated).mp unlostThen

/-- **Deliveries arrive while node zero is live.** In any chronicle of the calls made on a fresh
network the monitor has counted all deliveries, of which those arrived at node zero that were made
before it halted. A run from there that ends with a repetition ends with two deliveries in a row of
the same `y`; node zero was handed every delivery, the two included, just when it is not halted at
the end. -/
theorem deliveries_arrive_while_live {program : Program} {config : NetworkConfig} {fuel : Nat}
    {calls : List NetworkCall} {answers : List (Except Error NetworkAnswer)}
    (built : ofProgram program config = .ok fresh)
    (served : fresh.serveAll fuel calls = some (answers, network)) :
    (∀ history, Chronicle fresh history network → DeliveryAccount history network) ∧
    ∀ turns event last, network.run turns .repeatedDelivery = some (.ok event, last) →
      ∃ others previous packet history, event = .repeatedDelivery packet ∧
        Reaches fresh (history.map Prod.fst) last ∧ Chronicle fresh history last ∧
        deliveriesOf (momentsOf history) = others ++ [previous, packet] ∧
        previous.y = packet.y ∧
        (arrivalsOf (momentsOf history) = others ++ [previous, packet] ↔
          last.isLive 0 = true) := by
  refine ⟨fun history chronicle => chronicle.deliveryAccount built, ?_⟩
  intro turns event last returned
  obtain ⟨results, reached⟩ := Reaches.here.serveAll served
  obtain ⟨rounds, run⟩ := run_returns_iff.mp ⟨turns, returned⟩
  cases run with
  | met made unmet allowed ended met =>
      cases met with
      | @repetition packet repeated =>
          obtain ⟨others, previous, history, all⟩ :=
            (reached.rounds made).repetition built ended repeated
          exact ⟨others, previous, packet, history, rfl, all⟩

/-- The deliveries to a lone reporter arrive, as it reads on. -/
theorem reporter_gets_deliveries :
    ∃ fresh answers network event last history, ofProgram reporting hurriedHermit = .ok fresh ∧
      fresh.serveAll 9 [.round] = some (answers, network) ∧
      network.run 9 .repeatedDelivery = some (.ok event, last) ∧ Chronicle fresh history last ∧
      last.monitor.deliveries = 2 ∧
      arrivalsOf (momentsOf history) = deliveriesOf (momentsOf history) := by
  have evaluated :
      ((ofProgram reporting hurriedHermit).toOption.bind (·.serveAll 9 [.round])).bind
        (fun went => (went.2.run 9 .repeatedDelivery).map fun ended =>
          (ended.1.toOption, ended.2.monitor.deliveries, ended.2.isLive 0)) =
        some (some (.repeatedDelivery ⟨0, 7, 8⟩), 2, true) := by decide +kernel
  obtain ⟨⟨answers, network⟩, came, evaluated⟩ := Option.bind_eq_some_iff.mp evaluated
  obtain ⟨⟨answer, last⟩, returned, same⟩ := Option.map_eq_some_iff.mp evaluated
  obtain ⟨fresh, built, served⟩ := exists_fresh came
  simp only [Prod.mk.injEq] at same
  obtain ⟨answered, delivered, live⟩ := same
  cases answer with
  | error error => cases answered
  | ok event =>
      obtain ⟨_, arrive⟩ := deliveries_arrive_while_live built served
      obtain ⟨others, previous, packet, history, _, _, chronicle, deliveries, _, arrivals⟩ :=
        arrive 9 event last returned
      exact ⟨fresh, answers, network, event, last, history, built, served, returned, chronicle,
        delivered, (arrivals.mpr live).trans deliveries.symm⟩

/-- A program that sends a packet to the monitor and halts. -/
def farewell : Program :=
  ⟨[3, 0, 104, 255, 104, 7, 104, 8, 99]⟩

/-- **A lost delivery repeats.** A lone node reports and halts in the first round, before anything
is delivered. Then a run ends with a repetition, but none of the deliveries arrived. -/
theorem lost_delivery_repeats :
    ∃ fresh answers network last, ofProgram farewell hurriedHermit = .ok fresh ∧
      fresh.serveAll 9 [.round] = some (answers, network) ∧ network.monitor.deliveries = 0 ∧
      network.run 9 .repeatedDelivery = some (.ok (.repeatedDelivery ⟨0, 7, 8⟩), last) ∧
      last.monitor.deliveries = 2 ∧
      ∀ history, Chronicle network history last →
        (deliveriesOf (momentsOf history)).length = 2 ∧ arrivalsOf (momentsOf history) = [] := by
  have evaluated :
      ((ofProgram farewell hurriedHermit).toOption.bind (·.serveAll 9 [.round])).bind
        (fun went => (went.2.run 9 .repeatedDelivery).map fun ended =>
          (went.2.monitor.deliveries, went.2.isLive 0, ended.1.toOption,
            ended.2.monitor.deliveries)) =
        some (0, false, some (.repeatedDelivery ⟨0, 7, 8⟩), 2) := by decide +kernel
  obtain ⟨⟨answers, network⟩, came, evaluated⟩ := Option.bind_eq_some_iff.mp evaluated
  obtain ⟨⟨answer, last⟩, returned, same⟩ := Option.map_eq_some_iff.mp evaluated
  obtain ⟨fresh, built, served⟩ := exists_fresh came
  simp only [Prod.mk.injEq] at same
  obtain ⟨none, dead, answered, two⟩ := same
  cases answer with
  | error error => cases answered
  | ok event =>
      cases answered
      refine ⟨fresh, answers, network, last, built, served, none, returned, two, ?_⟩
      intro history chronicle
      have counted := congrArg IdleMonitor.deliveries chronicle.unfolds.monitor_eq
      rw [two, IdleMonitor.hearing, none, Nat.zero_add] at counted
      exact ⟨counted.symm, (chronicle.unfolds.all_lost dead).1⟩

end Network

end Intcode
