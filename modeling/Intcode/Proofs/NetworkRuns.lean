import Intcode.Proofs.IdleRounds
import Mathlib.Data.List.Chain

/-! # Runs of networks

A run makes round after round on its network. It ends with the first round that meets its condition
or fails, and otherwise when its allowance of rounds is used up. That is all it can come to, and it
comes to it whenever the rounds return (`Network.run_returns_iff`).

On a fresh network the event that ends a run is singled out among all rounds there were. The monitor
counts what is sent to it and delivers nothing before, so a run to the first report ends with the
first report ever sent. It remembers its last delivery, so a run to a repetition ends with the first
two deliveries in a row of the same `y`. -/

namespace Intcode

/-! ## Conditions -/

/-- The packet is the first of some packets that is addressed to the monitor. -/
def Packet.IsFirstReport (packets : List Packet) (packet : Packet) : Prop :=
  ∃ earlier later, packets = earlier ++ packet :: later ∧
    packet.dest = IdleMonitor.address ∧ ∀ other ∈ earlier, other.dest ≠ IdleMonitor.address

namespace StopCondition

variable {stop : StopCondition} {round : Round} {event : NetworkEvent}

/-- A round meets a condition, with an event. -/
inductive Met (round : Round) : StopCondition → NetworkEvent → Prop
  | report {packet : Packet} (first : packet.IsFirstReport round.sent) :
      Met round .firstMonitorPacket (.firstMonitorPacket packet)
  | repetition {packet : Packet} (repeated : round.delivery = some (packet, true)) :
      Met round .repeatedDelivery (.repeatedDelivery packet)

theorem event?_eq_some_iff : stop.event? round = some event ↔ Met round stop event := by
  constructor
  · intro met
    unfold event? at met
    split at met
    · obtain ⟨packet, found, rfl⟩ := Option.map_eq_some_iff.mp met
      obtain ⟨addressed, earlier, later, sent, others⟩ := List.find?_eq_some_iff_append.mp found
      refine .report ⟨earlier, later, sent, of_decide_eq_true addressed, ?_⟩
      intro other among
      simpa using others other among
    · split at met
      · rename_i delivered
        cases met
        exact .repetition delivered
      · cases met
  · intro met
    cases met with
    | @report packet first =>
        obtain ⟨earlier, later, sent, addressed, others⟩ := first
        have found : round.sent.find? (fun packet => packet.dest = IdleMonitor.address) =
            some packet := by
          refine List.find?_eq_some_iff_append.mpr
            ⟨decide_eq_true addressed, earlier, later, sent, ?_⟩
          intro other among
          simpa using others other among
        simp only [event?, found, Option.map_some]
    | repetition repeated => simp only [event?, repeated]

/-- No event meets the condition in a round. -/
def Unmet (stop : StopCondition) (round : Round) : Prop :=
  ∀ event, ¬Met round stop event

theorem event?_eq_none_iff : stop.event? round = none ↔ stop.Unmet round := by
  unfold Unmet
  simp only [Option.eq_none_iff_forall_ne_some, ne_eq, event?_eq_some_iff]

end StopCondition

variable {fuel : Nat}

/-! ## Fuel -/

theorem Node.visit_add {idleInput : Word} {address : Nat} {node : Node}
    {answer : Except Error (Bool × List Packet) × Node}
    (visited : node.visit fuel idleInput address = some answer) (more : Nat) :
    node.visit (fuel + more) idleInput address = some answer := by
  rw [visit_eq] at visited ⊢
  obtain ⟨returned, ran, rfl⟩ := Option.map_eq_some_iff.mp visited
  rw [Machine.runUntilInput, Machine.run_add ran more, Option.map_some]

namespace Network

variable {network before next last fresh : Network} {stop : StopCondition} {round : Round}
  {rounds : List Round} {event : NetworkEvent} {answer : Except Error NetworkEvent} {error : Error}
  {progress : Progress} {addresses : List Nat} {moments : List Moment} {failure : Option Error}
  {remaining : Nat} {results : List (Except Error Round)} {deliveries : List Packet}

theorem visit_add {address : Nat} {answer : Except Error Progress × Network}
    (visited : network.visit fuel address progress = some answer) (more : Nat) :
    network.visit (fuel + more) address progress = some answer := by
  unfold visit at visited ⊢
  split at visited
  · rename_i inside
    rw [dif_pos inside]
    split at visited
    · rename_i halted
      rw [if_pos halted]
      exact visited
    · rename_i live
      rw [if_neg live]
      dsimp only at visited ⊢
      cases ran : network.nodes[address].visit fuel network.config.idleInput address with
      | none =>
          rw [ran] at visited
          cases visited
      | some went =>
          rw [ran] at visited
          rwa [Node.visit_add ran more]
  · rename_i outside
    rwa [dif_neg outside]

theorem visitAll_add {answer : Except Error Progress × Network}
    (visited : visitAll fuel addresses network progress = some answer) (more : Nat) :
    visitAll (fuel + more) addresses network progress = some answer := by
  induction addresses generalizing network progress with
  | nil => exact visited
  | cons address rest ih =>
      unfold visitAll at visited ⊢
      split at visited
      · cases visited
      · rename_i ran
        rw [visit_add ran more]
        exact visited
      · rename_i ran
        rw [visit_add ran more]
        exact ih visited

theorem round_add {answer : Except Error Round × Network}
    (returned : network.round fuel = some answer) (more : Nat) :
    network.round (fuel + more) = some answer := by
  unfold Network.round at returned ⊢
  split at returned
  · cases returned
  · rename_i visited
    rw [visitAll_add visited more]
    exact returned
  · rename_i visited
    rw [visitAll_add visited more]
    exact returned

theorem runRounds_add {answer : Except Error NetworkEvent × Network}
    (returned : network.runRounds fuel stop remaining = some answer) (more : Nat) :
    network.runRounds (fuel + more) stop remaining = some answer := by
  induction remaining generalizing network with
  | zero => exact returned
  | succ remaining ih =>
      unfold runRounds at returned ⊢
      split at returned
      · cases returned
      · rename_i made
        rw [round_add made more]
        exact returned
      · rename_i made
        rw [round_add made more]
        dsimp only
        split at returned
        · exact returned
        · exact ih returned

/-! ## What a round leaves -/

theorem rounds_route (network : Network) (packet : Packet) :
    (network.route packet).rounds = network.rounds := by
  unfold route
  split
  · rfl
  · split <;> rfl

theorem rounds_routeAll (network : Network) (packets : List Packet) :
    (network.routeAll packets).rounds = network.rounds := by
  induction packets generalizing network with
  | nil => rfl
  | cons packet rest ih => exact (ih _).trans (network.rounds_route packet)

theorem Passes.rounds_eq (passes : Passes network addresses moments failure last) :
    last.rounds = network.rounds := by
  induction passes with
  | nothing => rfl
  | skipped _ _ ih => exact ih
  | turn happens _ ih =>
      cases happens with
      | turn => exact ih.trans (rounds_routeAll _ _)
  | failed happens =>
      cases happens with
      | failed => rfl

theorem RoundOf.rounds_eq (made : network.RoundOf moments (.ok round) next) :
    next.rounds = network.rounds + 1 := by
  cases made with
  | ended passes finished =>
      rw [← passes.rounds_eq]
      cases closes_of_finishRound finished with
      | active => rfl
      | unheard => rfl
      | delivered => exact rounds_route _ _

theorem RoundOf.config_eq {result : Except Error Round}
    (made : network.RoundOf moments result next) : next.config = network.config :=
  made.unfolds.config_eq.2

theorem Rounds.rounds_eq (made : Rounds network rounds last) :
    last.rounds = network.rounds + rounds.length := by
  induction made with
  | nothing network => rfl
  | andThen returned _ ih =>
      obtain ⟨moments, told⟩ := round_told returned
      rw [ih, told.rounds_eq, List.length_cons, Nat.add_assoc, Nat.add_comm 1]

theorem Rounds.append {others : List Round} (made : Rounds network rounds before)
    (further : Rounds before others last) : Rounds network (rounds ++ others) last := by
  induction made with
  | nothing network => exact further
  | andThen returned _ ih => exact .andThen returned (ih further)

theorem Rounds.config_eq (made : Rounds network rounds last) : last.config = network.config := by
  induction made with
  | nothing network => rfl
  | andThen returned _ ih =>
      obtain ⟨moments, told⟩ := round_told returned
      exact ih.trans told.config_eq

/-- A pass that fails does so with the failure of a node. -/
theorem Passes.kind_eq (passes : Passes network addresses moments (some error) last) :
    error.kind = .machineFailed := by
  generalize came : some error = failure at passes
  induction passes with
  | nothing => cases came
  | skipped _ _ ih => exact ih came
  | turn _ _ ih => exact ih came
  | failed happens =>
      cases came
      cases happens with
      | failed => rfl

theorem kind_of_round (failed : network.round fuel = some (.error error, next)) :
    error.kind = .machineFailed := by
  obtain ⟨moments, made⟩ := round_told failed
  cases made with
  | failed passes => exact passes.kind_eq

/-! ## What a run comes to -/

/-- A run makes rounds that do not meet its condition and ends behind them: with a round that does,
with one that fails, or because it may make no further one. -/
inductive RunOf (stop : StopCondition) (network : Network) :
    List Round → Except Error NetworkEvent → Network → Prop
  | met {rounds : List Round} {before last : Network} {fuel : Nat} {round : Round}
      {event : NetworkEvent} (made : Rounds network rounds before)
      (unmet : ∀ earlier ∈ rounds, stop.Unmet earlier)
      (allowed : before.rounds < before.config.maxRounds.toNat)
      (returned : before.round fuel = some (.ok round, last)) (met : stop.Met round event) :
      RunOf stop network (rounds ++ [round]) (.ok event) last
  | failed {rounds : List Round} {before last : Network} {fuel : Nat} {error : Error}
      (made : Rounds network rounds before) (unmet : ∀ earlier ∈ rounds, stop.Unmet earlier)
      (allowed : before.rounds < before.config.maxRounds.toNat)
      (returned : before.round fuel = some (.error error, last)) :
      RunOf stop network rounds (.error error) last
  | spent {rounds : List Round} {last : Network} (made : Rounds network rounds last)
      (unmet : ∀ earlier ∈ rounds, stop.Unmet earlier)
      (spent : last.rounds = max network.rounds network.config.maxRounds.toNat) :
      RunOf stop network rounds (.error last.exhausted) last

/-- A round that does not meet the condition comes before the rest of the run. -/
theorem RunOf.andThen (allowed : network.rounds < network.config.maxRounds.toNat)
    (returned : network.round fuel = some (.ok round, next)) (unmet : stop.Unmet round)
    (run : RunOf stop next rounds answer last) : RunOf stop network (round :: rounds) answer last := by
  obtain ⟨moments, told⟩ := round_told returned
  have others {rounds : List Round} (unmetThen : ∀ later ∈ rounds, stop.Unmet later) :
      ∀ later ∈ round :: rounds, stop.Unmet later := List.forall_mem_cons.mpr ⟨unmet, unmetThen⟩
  cases run with
  | met made unmetThen allowedThen returnedThen met =>
      exact .met (.andThen returned made) (others unmetThen) allowedThen returnedThen met
  | failed made unmetThen allowedThen returnedThen =>
      exact .failed (.andThen returned made) (others unmetThen) allowedThen returnedThen
  | spent made unmetThen spent =>
      refine .spent (.andThen returned made) (others unmetThen) ?_
      rw [told.rounds_eq, told.config_eq] at spent
      omega

theorem exists_runOf (allowance : network.config.maxRounds.toNat - network.rounds = remaining)
    (returned : network.runRounds fuel stop remaining = some (answer, last)) :
    ∃ rounds, RunOf stop network rounds answer last := by
  induction remaining generalizing network with
  | zero =>
      cases returned
      exact ⟨[], .spent (.nothing _) (fun _ absurd => nomatch absurd) (by omega)⟩
  | succ remaining ih =>
      have allowed : network.rounds < network.config.maxRounds.toNat := by omega
      unfold runRounds at returned
      split at returned
      · cases returned
      · rename_i failed
        cases returned
        exact ⟨[], .failed (.nothing _) (fun _ absurd => nomatch absurd) allowed failed⟩
      · rename_i round next made
        split at returned
        · rename_i met
          cases returned
          exact ⟨[round], .met (.nothing _) (fun _ absurd => nomatch absurd) allowed made
            (StopCondition.event?_eq_some_iff.mp met)⟩
        · rename_i unmet
          obtain ⟨moments, told⟩ := round_told made
          obtain ⟨rounds, run⟩ := ih (by rw [told.rounds_eq, told.config_eq]; omega) returned
          exact ⟨round :: rounds,
            .andThen allowed made (StopCondition.event?_eq_none_iff.mp unmet) run⟩

/-- Behind rounds that do not meet the condition a run goes on as one that starts there. -/
theorem exists_runRounds (made : Rounds network rounds before)
    (unmet : ∀ earlier ∈ rounds, stop.Unmet earlier)
    (further : ∃ fuel, before.runRounds fuel stop remaining = some (answer, last)) :
    ∃ fuel, network.runRounds fuel stop (rounds.length + remaining) = some (answer, last) := by
  induction made with
  | nothing network => rwa [List.length_nil, Nat.zero_add]
  | @andThen once network next before round rounds returned _ ih =>
      obtain ⟨here, others⟩ := List.forall_mem_cons.mp unmet
      obtain ⟨fuel, rest⟩ := ih others further
      refine ⟨once + fuel, ?_⟩
      have again := runRounds_add rest once
      rw [Nat.add_comm] at again
      rw [List.length_cons, Nat.succ_add]
      simp only [runRounds, round_add returned fuel, StopCondition.event?_eq_none_iff.mpr here,
        again]

theorem exists_runRounds_succ (met : StopCondition.Met round stop event)
    (returned : network.round fuel = some (.ok round, last)) :
    ∃ fuel, network.runRounds fuel stop (remaining + 1) = some (.ok event, last) :=
  ⟨fuel, by simp only [runRounds, returned, StopCondition.event?_eq_some_iff.mpr met]⟩

/-- **Runs of networks.** What a run comes to is its rounds and the end of one of the listed kinds,
and it comes to every such end. -/
theorem run_returns_iff :
    (∃ fuel, network.run fuel stop = some (answer, last)) ↔
      ∃ rounds, RunOf stop network rounds answer last := by
  constructor
  · rintro ⟨fuel, returned⟩
    exact exists_runOf rfl returned
  · rintro ⟨rounds, run⟩
    unfold Network.run
    cases run with
    | @met rounds before _ fuel round event made unmet allowed returned met =>
        rw [made.rounds_eq, made.config_eq] at allowed
        obtain ⟨further, room⟩ := Nat.exists_eq_add_of_lt allowed
        rw [show network.config.maxRounds.toNat - network.rounds = rounds.length + (further + 1)
          by omega]
        exact exists_runRounds made unmet (exists_runRounds_succ met returned)
    | @failed rounds before _ fuel error made unmet allowed returned =>
        rw [made.rounds_eq, made.config_eq] at allowed
        obtain ⟨further, room⟩ := Nat.exists_eq_add_of_lt allowed
        rw [show network.config.maxRounds.toNat - network.rounds = rounds.length + (further + 1)
          by omega]
        exact exists_runRounds made unmet ⟨fuel, by simp only [runRounds, returned]⟩
    | spent made unmet spent =>
        rw [made.rounds_eq] at spent
        rw [show network.config.maxRounds.toNat - network.rounds = rounds.length + 0 by omega]
        exact exists_runRounds made unmet ⟨0, rfl⟩

/-! ## The first report -/

/-- How many of some packets are addressed to the monitor. -/
def reportsIn (packets : List Packet) : Nat :=
  packets.countP fun packet => packet.dest = IdleMonitor.address

theorem reportsIn_eq_zero_iff {packets : List Packet} :
    reportsIn packets = 0 ↔ ∀ packet ∈ packets, packet.dest ≠ IdleMonitor.address := by
  simp only [reportsIn, List.countP_eq_zero, decide_eq_true_eq, ne_eq]

theorem counts_routeAll (network : Network) (packets : List Packet) :
    (network.routeAll packets).monitor.received = network.monitor.received + reportsIn packets ∧
      (network.routeAll packets).monitor.deliveries = network.monitor.deliveries := by
  induction packets generalizing network with
  | nil => exact ⟨rfl, rfl⟩
  | cons packet rest ih =>
      obtain ⟨received, delivered⟩ := ih (network.route packet)
      rw [monitor_route] at received delivered
      change ((network.route packet).routeAll rest).monitor.received = _ ∧
        ((network.route packet).routeAll rest).monitor.deliveries = _
      rw [received, delivered, reportsIn, reportsIn, List.countP_cons]
      by_cases report : packet.dest = IdleMonitor.address
      · simp only [report, ↓reduceIte, IdleMonitor.receive, decide_true, and_true]
        omega
      · simp only [report, ↓reduceIte, decide_false, Bool.false_eq_true, Nat.add_zero, and_self]

theorem Passes.counts (passes : Passes network addresses moments failure last) :
    last.monitor.received = network.monitor.received + reportsIn (progressOf moments).sent ∧
      last.monitor.deliveries = network.monitor.deliveries := by
  induction passes with
  | nothing => exact ⟨rfl, rfl⟩
  | skipped _ _ ih => exact ih
  | @turn network mid last address addresses idle reads outputs packets moments failure happens
      rest ih =>
      obtain ⟨received, delivered⟩ := mid.counts_routeAll packets
      have kept : mid.monitor = network.monitor := by
        cases happens with
        | turn => rfl
      rw [ih.1, ih.2, received, delivered, kept, progressOf_turn, reportsIn, reportsIn, reportsIn,
        List.countP_append, Nat.add_assoc]
      exact ⟨rfl, rfl⟩
  | failed happens =>
      cases happens with
      | failed => exact ⟨rfl, rfl⟩

/-- A round adds its reports to the count of the monitor, and its delivery. It makes none when
something is sent, nor before the first report. -/
theorem RoundOf.counts (made : network.RoundOf moments (.ok round) next)
    (accounts : network.monitor.Accounts deliveries) :
    next.monitor.received = network.monitor.received + reportsIn round.sent ∧
      next.monitor.deliveries =
        network.monitor.deliveries + (if round.delivery.isSome then 1 else 0) ∧
      (round.delivery.isSome = true → round.sent = [] ∧ 0 < next.monitor.received) := by
  cases made with
  | ended passes finished =>
      obtain ⟨received, delivered⟩ := passes.counts
      cases closes_of_finishRound finished with
      | active => exact ⟨received, delivered, nofun⟩
      | unheard => exact ⟨received, delivered, nofun⟩
      | @delivered latest packet quiet silent heard readdressed =>
          have elsewhere : (0 : Word) ≠ IdleMonitor.address := by decide
          rw [monitor_route, readdressed, if_neg elsewhere]
          have known := (passes.accounts accounts).heard_iff.mpr (by rw [heard]; rfl)
          exact ⟨received, congrArg (· + 1) delivered, fun _ => ⟨silent, known⟩⟩

/-- Before the first report the monitor delivers nothing. -/
theorem Rounds.unheard (made : Rounds network rounds last)
    (accounts : network.monitor.Accounts deliveries) (unheard : network.monitor.received = 0)
    (undelivered : network.monitor.deliveries = 0)
    (silent : ∀ round ∈ rounds, reportsIn round.sent = 0) :
    last.monitor.received = 0 ∧ last.monitor.deliveries = 0 ∧
      ∃ deliveries, last.monitor.Accounts deliveries := by
  induction made generalizing deliveries with
  | nothing network => exact ⟨unheard, undelivered, deliveries, accounts⟩
  | andThen returned _ ih =>
      obtain ⟨moments, told⟩ := round_told returned
      obtain ⟨here, others⟩ := List.forall_mem_cons.mp silent
      obtain ⟨received, delivered, heard⟩ := told.counts accounts
      rw [unheard, here] at received
      refine ih (told.accounts accounts) received ?_ others
      rw [delivered, undelivered]
      split
      · rename_i some
        have known := (heard some).2
        omega
      · rfl

theorem reportsIn_eq_zero_of_unmet (unmet : StopCondition.firstMonitorPacket.Unmet round) :
    reportsIn round.sent = 0 := by
  have none := StopCondition.event?_eq_none_iff.mpr unmet
  rw [StopCondition.event?, Option.map_eq_none_iff, List.find?_eq_none] at none
  exact reportsIn_eq_zero_iff.mpr (by simpa using none)

/-- On a fresh network a run to the first report ends with the first packet ever sent to the
monitor, before the monitor delivers anything. -/
theorem first_of_met {program : Program} {config : NetworkConfig} {packet : Packet}
    (built : ofProgram program config = .ok fresh) (made : Rounds fresh rounds before)
    (unmet : ∀ earlier ∈ rounds, StopCondition.firstMonitorPacket.Unmet earlier)
    (returned : before.round fuel = some (.ok round, last))
    (first : packet.IsFirstReport round.sent) :
    packet.IsFirstReport ((rounds ++ [round]).flatMap (·.sent)) ∧ last.monitor.deliveries = 0 := by
  have silent : ∀ earlier ∈ rounds, reportsIn earlier.sent = 0 :=
    fun earlier among => reportsIn_eq_zero_of_unmet (unmet earlier among)
  have accounts := Reaches.here.accounts built
  have nothing : fresh.monitor.received = 0 ∧ fresh.monitor.deliveries = 0 := by
    unfold ofProgram at built
    split at built
    · cases built
    · cases built
      exact ⟨rfl, rfl⟩
  obtain ⟨_, undelivered, _, accountsBefore⟩ :=
    made.unheard accounts nothing.1 nothing.2 silent
  obtain ⟨moments, told⟩ := round_told returned
  obtain ⟨_, delivered, idle⟩ := told.counts accountsBefore
  obtain ⟨earlier, later, sent, addressed, others⟩ := first
  constructor
  · refine ⟨rounds.flatMap (·.sent) ++ earlier, later, ?_, addressed, ?_⟩
    · simp [sent]
    · refine List.forall_mem_append.mpr ⟨?_, others⟩
      intro other among
      obtain ⟨sender, before, inside⟩ := List.mem_flatMap.mp among
      exact reportsIn_eq_zero_iff.mp (silent sender before) other inside
  · rw [delivered, undelivered]
    split
    · rename_i some
      have empty := (idle some).1
      rw [sent] at empty
      simp at empty
    · rfl

/-! ## The first repetition -/

/-- A delivery repeats just when the delivery before had the same `y`. -/
theorem RoundOf.repeated_iff {packet : Packet} {repeated : Bool}
    (made : network.RoundOf moments (.ok round) next)
    (accounts : network.monitor.Accounts deliveries)
    (delivery : round.delivery = some (packet, repeated)) :
    repeated = true ↔ ∃ previous, deliveries.getLast? = some previous ∧ previous.y = packet.y := by
  cases made with
  | ended passes finished =>
      have accountsThere := passes.accounts accounts
      cases closes_of_finishRound finished with
      | active => cases delivery
      | unheard => cases delivery
      | delivered =>
          cases delivery
          rw [accountsThere.last_eq, decide_eq_true_iff, Option.map_eq_some_iff]

theorem deliveriesIn_concat (results : List (Except Error Round)) (round : Round) :
    deliveriesIn (results ++ [.ok round]) =
      deliveriesIn results ++ (round.delivery.map Prod.fst).toList := by
  rw [deliveriesIn, List.filterMap_append]
  cases delivery : round.delivery <;>
    simp [deliveriesIn, Except.toOption, delivery]

/-- As long as no delivery is reported to repeat, no two in a row have the same `y`. -/
theorem Reaches.isChain {program : Program} {config : NetworkConfig}
    (built : ofProgram program config = .ok fresh) (reached : Reaches fresh results network)
    (unmet : ∀ round, .ok round ∈ results → StopCondition.repeatedDelivery.Unmet round) :
    (deliveriesIn results).IsChain fun first second => first.y ≠ second.y := by
  induction reached with
  | here => exact .nil
  | @round results network next fuel result reached returned ih =>
      have before := ih fun round among => unmet round (List.mem_append_left _ among)
      cases result with
      | error error => simpa [deliveriesIn, Except.toOption] using before
      | ok round =>
          rw [deliveriesIn_concat]
          cases delivery : round.delivery with
          | none => simpa using before
          | some pair =>
              obtain ⟨packet, repeated⟩ := pair
              obtain ⟨moments, told⟩ := round_told returned
              have again := told.repeated_iff (reached.accounts built) delivery
              refine List.isChain_append.mpr ⟨before, .singleton _, ?_⟩
              intro previous newest second among same
              cases Option.mem_some_iff.mp among
              cases again.mpr ⟨previous, newest, same⟩
              exact unmet round (List.mem_append_right _ (List.mem_singleton_self _)) _
                (.repetition delivery)

/-- On a fresh network a run to a repetition ends with the second of the first two deliveries in a
row that have the same `y`. -/
theorem repetition_of_met {program : Program} {config : NetworkConfig} {packet : Packet}
    (built : ofProgram program config = .ok fresh) (made : Rounds fresh rounds before)
    (unmet : ∀ earlier ∈ rounds, StopCondition.repeatedDelivery.Unmet earlier)
    (returned : before.round fuel = some (.ok round, last))
    (repeated : round.delivery = some (packet, true)) :
    ∃ earlier previous,
      deliveriesIn ((rounds ++ [round]).map .ok) = earlier ++ [previous, packet] ∧
        previous.y = packet.y ∧
        (earlier ++ [previous]).IsChain fun first second => first.y ≠ second.y := by
  have reached : Reaches fresh _ before := Reaches.here.rounds made
  obtain ⟨moments, told⟩ := round_told returned
  obtain ⟨previous, newest, same⟩ :=
    (told.repeated_iff (reached.accounts built) repeated).mp rfl
  obtain ⟨earlier, deliveries⟩ := List.getLast?_eq_some_iff.mp newest
  have chain := reached.isChain built (by
    intro round among
    obtain ⟨other, inside, same⟩ := List.mem_map.mp among
    cases same
    exact unmet _ inside)
  rw [deliveries] at chain
  refine ⟨earlier, previous, ?_, same, chain⟩
  rw [List.map_append, List.map_singleton, deliveriesIn_concat, repeated]
  change deliveriesIn ([] ++ rounds.map .ok) ++ [packet] = _
  rw [deliveries, List.append_assoc]
  rfl

/-! ## Where runs end -/

theorem run_met_iff :
    (∃ fuel, network.run fuel stop = some (.ok event, last)) ↔
      ∃ rounds before fuel round, Rounds network rounds before ∧
        (∀ earlier ∈ rounds, stop.Unmet earlier) ∧
        before.rounds < network.config.maxRounds.toNat ∧
        before.round fuel = some (.ok round, last) ∧ StopCondition.Met round stop event := by
  rw [run_returns_iff]
  constructor
  · rintro ⟨_, run⟩
    cases run with
    | met made unmet allowed returned met =>
        rw [made.config_eq] at allowed
        exact ⟨_, _, _, _, made, unmet, allowed, returned, met⟩
  · rintro ⟨rounds, before, fuel, round, made, unmet, allowed, returned, met⟩
    rw [← made.config_eq] at allowed
    exact ⟨_, .met made unmet allowed returned met⟩

theorem run_exhausted_iff :
    (∃ fuel, network.run fuel stop = some (.error error, last)) ∧
        error.kind = .budgetExhausted ↔
      error = last.exhausted ∧ ∃ rounds, Rounds network rounds last ∧
        (∀ round ∈ rounds, stop.Unmet round) ∧
        (last.rounds = network.config.maxRounds.toNat ∨
          network.config.maxRounds.toNat ≤ network.rounds ∧ rounds = [] ∧ last = network) := by
  rw [run_returns_iff]
  constructor
  · rintro ⟨⟨rounds, run⟩, kind⟩
    cases run with
    | failed made unmet allowed returned =>
        rw [kind_of_round returned] at kind
        cases kind
    | spent made unmet spent =>
        refine ⟨rfl, rounds, made, unmet, ?_⟩
        rcases Nat.le_total network.config.maxRounds.toNat network.rounds with beyond | within
        · have none : rounds.length = 0 := by
            have completed := made.rounds_eq
            omega
          cases List.length_eq_zero_iff.mp none
          cases made
          exact .inr ⟨beyond, rfl, rfl⟩
        · exact .inl (by omega)
  · rintro ⟨rfl, rounds, made, unmet, all | ⟨beyond, rfl, rfl⟩⟩
    · have completed := made.rounds_eq
      exact ⟨⟨rounds, .spent made unmet (by omega)⟩, rfl⟩
    · exact ⟨⟨[], .spent made unmet (by omega)⟩, rfl⟩

/-- **Where runs end.** A run ends with an event just when it makes rounds that do not meet its
condition and then, while fewer rounds than allowed are completed, one that does, with that event.
Its budget is exhausted just when it makes rounds that do not meet its condition and none fails,
until all rounds that are allowed are completed; if they were from the start, it makes none. On a
fresh network the packet of the event is the first report of all packets sent, and nothing was
delivered till then, or it is the later of the first two deliveries in a row that have the same
`y`. -/
theorem runs_end_at_first_event (network : Network) (stop : StopCondition) :
    (∀ event last, (∃ fuel, network.run fuel stop = some (.ok event, last)) ↔
      ∃ rounds before fuel round, Rounds network rounds before ∧
        (∀ earlier ∈ rounds, stop.Unmet earlier) ∧
        before.rounds < network.config.maxRounds.toNat ∧
        before.round fuel = some (.ok round, last) ∧ StopCondition.Met round stop event) ∧
    (∀ error last,
      (∃ fuel, network.run fuel stop = some (.error error, last)) ∧
        error.kind = .budgetExhausted ↔
      error = last.exhausted ∧ ∃ rounds, Rounds network rounds last ∧
        (∀ round ∈ rounds, stop.Unmet round) ∧
        (last.rounds = network.config.maxRounds.toNat ∨
          network.config.maxRounds.toNat ≤ network.rounds ∧ rounds = [] ∧ last = network)) ∧
    ∀ program config fuel event last, ofProgram program config = .ok network →
      network.run fuel stop = some (.ok event, last) →
      ∃ rounds, Rounds network rounds last ∧
        match stop with
        | .firstMonitorPacket =>
            event.packet.IsFirstReport (rounds.flatMap (·.sent)) ∧ last.monitor.deliveries = 0
        | .repeatedDelivery =>
            ∃ earlier previous,
              deliveriesIn (rounds.map .ok) = earlier ++ [previous, event.packet] ∧
                previous.y = event.packet.y ∧
                (earlier ++ [previous]).IsChain fun first second => first.y ≠ second.y := by
  refine ⟨fun event last => run_met_iff, fun error last => run_exhausted_iff, ?_⟩
  intro program config fuel event last built returned
  obtain ⟨rounds, run⟩ := run_returns_iff.mp ⟨fuel, returned⟩
  cases run with
  | @met rounds before _ _ round _ made unmet allowed ended met =>
      refine ⟨rounds ++ [round], ?_, ?_⟩
      · exact made.append (.andThen ended (.nothing _))
      · cases met with
        | report first => exact first_of_met built made unmet ended first
        | repetition repeated => exact repetition_of_met built made unmet ended repeated

/-- A lone reporter with few rounds to make. -/
def hurriedHermit : NetworkConfig :=
  { hermit with maxRounds := 9 }

/-- The run of a lone reporter to a repetition ends with its fourth round, in which the delivery of
the second is repeated. -/
theorem reporter_runs_to_repetition :
    ∃ network last rounds earlier previous, ofProgram reporting hurriedHermit = .ok network ∧
      network.run 9 .repeatedDelivery = some (.ok (.repeatedDelivery ⟨0, 7, 8⟩), last) ∧
      last.rounds = 4 ∧ Rounds network rounds last ∧
      deliveriesIn (rounds.map .ok) = earlier ++ [previous, ⟨0, 7, 8⟩] ∧ previous.y = 8 := by
  have evaluated : ((ofProgram reporting hurriedHermit).toOption.bind
      (·.run 9 .repeatedDelivery)).map (fun went => (went.1.toOption, went.2.rounds)) =
        some (some (.repeatedDelivery ⟨0, 7, 8⟩), 4) := by decide +kernel
  obtain ⟨⟨answer, last⟩, ran, same⟩ := Option.map_eq_some_iff.mp evaluated
  obtain ⟨network, fresh, returned⟩ := Option.bind_eq_some_iff.mp ran
  obtain ⟨came, completed⟩ := Prod.mk.inj same
  cases answer with
  | error error => cases came
  | ok event =>
      cases came
      cases built : ofProgram reporting hurriedHermit with
      | error error =>
          rw [built] at fresh
          cases fresh
      | ok network =>
          rw [built] at fresh
          cases fresh
          obtain ⟨_, _, onFresh⟩ := runs_end_at_first_event network .repeatedDelivery
          obtain ⟨rounds, made, earlier, previous, deliveries, repeats, _⟩ :=
            onFresh _ _ _ _ _ built returned
          exact ⟨network, last, rounds, earlier, previous, rfl, returned, completed, made,
            deliveries, repeats⟩

end Network

end Intcode
