import Intcode.Proofs.RoundHistory

/-! # Idle rounds

Whether a round is idle is found out while the nodes are visited, one after the other. As long as no
node sends anything, a visit changes the node that is visited and nothing else, and leaves it halted
or waiting with an empty queue (`Network.QuietPass`). So a round is idle just when nothing was
queued for the nodes at its start and nothing was sent in it, and then all nodes that go on wait.

The monitor keeps account of what it heard and what it delivered (`IdleMonitor.Accounts`). Hence
what an idle round delivers, and whether that repeats the delivery before, is decided by the rounds
there were (`Network.idle_rounds_wake_monitor`). -/

namespace Intcode

namespace Machine

variable {m final : Machine} {reads outputs : List Word} {output : Option Word}

/-- The machine is paused at an input instruction and nothing is queued for it. -/
structure AwaitsInput (m : Machine) : Prop where
  paused : m.state = .paused
  planned : ∃ instruction address, m.plan = .ok (instruction, .input address)
  empty : m.bridge.input = []

theorem AwaitsInput.drained (awaits : m.AwaitsInput) : m.drainOutput.2.AwaitsInput :=
  ⟨awaits.paused, awaits.planned, awaits.empty⟩

theorem RunsToInput.awaits_or_halts (ran : m.RunsToInput reads outputs (.ok output) final) :
    final.AwaitsInput ∨ final.isHalted = true := by
  cases ran with
  | worked works ends =>
      cases ends with
      | output occasion ended => cases occasion
      | needsInput ended =>
          obtain ⟨rfl, empty, planned⟩ := execute_queue_waits_iff.mp ended
          exact .inl ⟨rfl, planned, empty⟩
      | halted ended => exact .inr rfl

end Machine

namespace IdleMonitor

variable {monitor : IdleMonitor} {deliveries : List Packet}

/-- The monitor's account of what it heard and of its deliveries is right. -/
structure Accounts (monitor : IdleMonitor) (deliveries : List Packet) : Prop where
  heard_iff : 0 < monitor.received ↔ monitor.latest.isSome = true
  last_eq : monitor.lastDelivered = deliveries.getLast?
  count_eq : monitor.deliveries = deliveries.length

theorem Accounts.receive (accounts : monitor.Accounts deliveries) (packet : Packet) :
    (monitor.receive packet).Accounts deliveries where
  heard_iff := iff_of_true (Nat.succ_pos _) rfl
  last_eq := accounts.last_eq
  count_eq := accounts.count_eq

theorem Accounts.deliver (accounts : monitor.Accounts deliveries) (packet : Packet) :
    { monitor with
      lastDelivered := some packet, deliveries := monitor.deliveries + 1 }.Accounts
        (deliveries ++ [packet]) where
  heard_iff := accounts.heard_iff
  last_eq := List.getLast?_concat.symm
  count_eq := by rw [List.length_append, accounts.count_eq, List.length_singleton]

end IdleMonitor

namespace Network

variable {network next last fresh : Network} {progress : Progress} {round : Round}
  {addresses : List Nat} {moments : List Moment} {failure : Option Error} {busy : Bool}
  {results : List (Except Error Round)} {deliveries packets : List Packet}

/-! ## Passes in which nothing is sent -/

/-- A pass over the nodes at some addresses in which nothing is sent, and whether something was
queued for one of them. -/
inductive QuietPass : Network → List Nat → Bool → Network → Prop
  | nothing {network : Network} : QuietPass network [] false network
  | skipped {network last : Network} {address : Nat} {addresses : List Nat} {busy : Bool}
      (halted : ∀ node, network.nodes[address]? = some node → node.machine.isHalted = true)
      (rest : QuietPass network addresses busy last) :
      QuietPass network (address :: addresses) busy last
  | turn {network last : Network} {address : Nat} {addresses : List Nat} {busy : Bool}
      {node after : Node} (there : network.nodes[address]? = some node)
      (live : node.machine.isHalted = false)
      (settled : after.machine.AwaitsInput ∨ after.machine.isHalted = true)
      (rest : QuietPass (network.put address after) addresses busy last) :
      QuietPass network (address :: addresses) (!node.isIdle || busy) last

theorem Passes.quiet (passes : Passes network addresses moments none last)
    (silent : (progressOf moments).sent = []) :
    QuietPass network addresses (progressOf moments).busy last := by
  generalize succeeded : none = failure at passes
  induction passes with
  | nothing => exact .nothing
  | skipped halted _ ih => exact .skipped halted (ih silent succeeded)
  | @turn network mid last address addresses idle reads outputs packets moments failure happens
      rest ih =>
      rw [progressOf_turn] at silent ⊢
      obtain ⟨rfl, silentThen⟩ := List.append_eq_nil_iff.mp silent
      cases happens with
      | @turn _ node _ _ left output final _ there live ran cut =>
          have settled : final.drainOutput.2.AwaitsInput ∨ final.drainOutput.2.isHalted = true :=
            ran.awaits_or_halts.imp_left Machine.AwaitsInput.drained
          exact .turn there live settled (ih silentThen succeeded)
  | failed => cases succeeded

namespace QuietPass

theorem monitor_eq (passes : QuietPass network addresses busy last) :
    last.monitor = network.monitor := by
  induction passes with
  | nothing => rfl
  | skipped _ _ ih => exact ih
  | turn _ _ _ _ ih => exact ih

/-- The nodes that are not visited stay as they are. -/
theorem getElem?_eq {address : Nat} (passes : QuietPass network addresses busy last)
    (unvisited : address ∉ addresses) : last.nodes[address]? = network.nodes[address]? := by
  induction passes with
  | nothing => rfl
  | skipped _ _ ih => exact ih (List.not_mem_of_not_mem_cons unvisited)
  | turn there _ _ _ ih =>
      have other := List.ne_of_not_mem_cons unvisited
      rw [ih (List.not_mem_of_not_mem_cons unvisited),
        getElem?_put _ _ _ _ (Array.getElem?_eq_some_iff.mp there).1, if_neg other.symm]

/-- Nothing was found queued just when nothing was queued before the pass. -/
theorem busy_eq_false_iff (passes : QuietPass network addresses busy last)
    (distinct : addresses.Nodup) :
    busy = false ↔ ∀ address ∈ addresses, ∀ node, network.nodes[address]? = some node →
      node.machine.isHalted = false → node.machine.bridge.input = [] := by
  induction passes with
  | nothing => simp
  | skipped halted _ ih =>
      obtain ⟨_, distinctThen⟩ := List.nodup_cons.mp distinct
      rw [ih distinctThen, List.forall_mem_cons]
      refine (and_iff_right ?_).symm
      intro node there live
      rw [halted node there] at live
      cases live
  | @turn network last address addresses busy node after there live _ _ ih =>
      obtain ⟨once, distinctThen⟩ := List.nodup_cons.mp distinct
      have elsewhere {other : Nat} (among : other ∈ addresses) :
          (network.put address after).nodes[other]? = network.nodes[other]? := by
        have different : address ≠ other := by
          rintro rfl
          exact once among
        rw [getElem?_put _ _ _ _ (Array.getElem?_eq_some_iff.mp there).1, if_neg different]
      have here : (∀ found, network.nodes[address]? = some found →
          found.machine.isHalted = false → found.machine.bridge.input = []) ↔
          node.machine.bridge.input = [] := by
        simp only [there, Option.some.injEq, forall_eq', live, forall_const]
      rw [Bool.or_eq_false_iff, ih distinctThen, List.forall_mem_cons, here, Bool.not_eq_false',
        Node.isIdle, List.isEmpty_iff]
      refine and_congr_right' (forall₂_congr ?_)
      intro other among
      rw [elsewhere among]

/-- Behind a pass all nodes that were visited and are not halted wait. -/
theorem awaits {address : Nat} {node : Node} (passes : QuietPass network addresses busy last)
    (distinct : addresses.Nodup) (visited : address ∈ addresses)
    (there : last.nodes[address]? = some node) (live : node.machine.isHalted = false) :
    node.machine.AwaitsInput := by
  induction passes with
  | nothing => cases visited
  | @skipped network last passed addresses busy halted rest ih =>
      obtain ⟨once, distinctThen⟩ := List.nodup_cons.mp distinct
      rcases List.mem_cons.mp visited with rfl | later
      · rw [rest.getElem?_eq once] at there
        rw [halted node there] at live
        cases live
      · exact ih distinctThen later there
  | @turn network last passed addresses busy before after thereThen _ settled rest ih =>
      obtain ⟨once, distinctThen⟩ := List.nodup_cons.mp distinct
      rcases List.mem_cons.mp visited with rfl | later
      · rw [rest.getElem?_eq once,
          getElem?_put _ _ _ _ (Array.getElem?_eq_some_iff.mp thereThen).1, if_pos rfl] at there
        cases there
        rcases settled with awaits | halted
        · exact awaits
        · rw [halted] at live
          cases live
      · exact ih distinctThen later there

end QuietPass

/-! ## The monitor's account -/

theorem monitor_route (network : Network) (packet : Packet) :
    (network.route packet).monitor =
      if packet.dest = IdleMonitor.address then network.monitor.receive packet
      else network.monitor := by
  unfold route
  split
  · rfl
  · split <;> rfl

/-- The deliveries of the monitor in some rounds. -/
def deliveriesIn (results : List (Except Error Round)) : List Packet :=
  results.filterMap fun result => result.toOption.bind fun round => round.delivery.map Prod.fst

theorem accounts_route (accounts : network.monitor.Accounts deliveries) (packet : Packet) :
    (network.route packet).monitor.Accounts deliveries := by
  rw [monitor_route]
  split
  · exact accounts.receive packet
  · exact accounts

theorem accounts_routeAll (accounts : network.monitor.Accounts deliveries) :
    (network.routeAll packets).monitor.Accounts deliveries := by
  induction packets generalizing network with
  | nil => exact accounts
  | cons packet rest ih => exact ih (accounts_route accounts packet)

theorem Passes.accounts (passes : Passes network addresses moments failure last)
    (accounts : network.monitor.Accounts deliveries) : last.monitor.Accounts deliveries := by
  induction passes with
  | nothing => exact accounts
  | skipped _ _ ih => exact ih accounts
  | turn happens _ ih =>
      cases happens with
      | turn there live ran cut => exact ih (accounts_routeAll accounts)
  | failed happens =>
      cases happens with
      | failed there live ran => exact accounts

/-- A round adds what the monitor delivers in it, if it does, to the account. -/
theorem RoundOf.accounts {result : Except Error Round} (made : network.RoundOf moments result next)
    (accounts : network.monitor.Accounts deliveries) :
    next.monitor.Accounts (deliveries ++ deliveriesIn [result]) := by
  cases made with
  | failed passes =>
      exact (List.append_nil deliveries).symm ▸ passes.accounts accounts
  | ended passes finished =>
      have accountsThere := passes.accounts accounts
      cases closes_of_finishRound finished with
      | active active => exact (List.append_nil deliveries).symm ▸ accountsThere
      | unheard quiet silent nothing => exact (List.append_nil deliveries).symm ▸ accountsThere
      | delivered quiet silent heard readdressed =>
          have elsewhere : (0 : Word) ≠ IdleMonitor.address := by decide
          rw [monitor_route, readdressed, if_neg elsewhere]
          exact accountsThere.deliver _

theorem monitor_of_fresh {program : Program} {config : NetworkConfig}
    (built : ofProgram program config = .ok fresh) : fresh.monitor = {} := by
  unfold ofProgram at built
  split at built
  · cases built
  · cases built
    rfl

theorem Reaches.accounts {program : Program} {config : NetworkConfig}
    (built : ofProgram program config = .ok fresh) (reached : Reaches fresh results network) :
    network.monitor.Accounts (deliveriesIn results) := by
  induction reached with
  | here =>
      rw [monitor_of_fresh built]
      exact ⟨by simp, rfl, rfl⟩
  | round reached returned ih =>
      obtain ⟨moments, made⟩ := round_told returned
      have added := made.accounts ih
      rwa [deliveriesIn, deliveriesIn, ← List.filterMap_append] at added

/-! ## Idle rounds -/

/-- Nothing is queued for any node that is not halted. -/
def Unfed (network : Network) : Prop :=
  ∀ (address : Nat) (node : Node), network.nodes[address]? = some node →
    node.machine.isHalted = false → node.machine.bridge.input = []

theorem QuietPass.unfed_iff
    (passes : QuietPass network (List.range network.nodes.size) busy last) :
    busy = false ↔ network.Unfed := by
  rw [passes.busy_eq_false_iff List.nodup_range]
  constructor
  · intro unfed address node there
    exact unfed address (List.mem_range.mpr (Array.getElem?_eq_some_iff.mp there).1) node there
  · intro unfed address _ node there
    exact unfed address node there

theorem idle_iff_of_closes (closes : network.Closes progress round next) :
    round.sent = progress.sent ∧
      (round.idle = true ↔ progress.busy = false ∧ progress.sent = []) := by
  cases closes with
  | active active => exact ⟨rfl, iff_of_false nofun active⟩
  | unheard quiet silent nothing => exact ⟨rfl, iff_of_true rfl ⟨quiet, silent⟩⟩
  | delivered quiet silent heard readdressed => exact ⟨rfl, iff_of_true rfl ⟨quiet, silent⟩⟩

theorem QuietPass.awaits_all {address : Nat} {node : Node}
    (passes : QuietPass network (List.range network.nodes.size) busy last)
    (size : last.nodes.size = network.nodes.size) (there : last.nodes[address]? = some node)
    (live : node.machine.isHalted = false) : node.machine.AwaitsInput := by
  have inside := (Array.getElem?_eq_some_iff.mp there).1
  rw [size] at inside
  exact passes.awaits List.nodup_range (List.mem_range.mpr inside) there live

/-- Where all nodes that are not halted wait, a packet for node zero is put into its empty queue. -/
theorem awaits_route {packet : Packet} {address : Nat} {node : Node} (zero : packet.dest = 0)
    (waiting : ∀ {node : Node}, network.nodes[address]? = some node →
      node.machine.isHalted = false → node.machine.AwaitsInput)
    (there : (network.route packet).nodes[address]? = some node)
    (live : node.machine.isHalted = false) :
    node.machine.state = .paused ∧
      (∃ instruction target, node.machine.plan = .ok (instruction, .input target)) ∧
      node.machine.bridge.input = if address = 0 then [packet.x, packet.y] else [] := by
  have addressed : packet.isFor address = true ↔ address = 0 := by
    have elsewhere : (0 : Word) ≠ IdleMonitor.address := by decide
    have value : (0 : Word).toInt = 0 := rfl
    rw [Packet.isFor_iff, zero, value, and_iff_right elsewhere]
    omega
  rw [getElem?_route] at there
  obtain ⟨before, thereBefore, rfl⟩ := Option.map_eq_some_iff.mp there
  by_cases here : address = 0
  · rw [if_pos (addressed.mpr here)] at live ⊢
    unfold Node.receive at live ⊢
    cases halted : before.machine.isHalted with
    | true =>
        rw [halted] at live
        cases halted.symm.trans live
    | false =>
        have awaits := waiting thereBefore halted
        rw [if_pos here]
        exact ⟨awaits.paused, awaits.planned, congrArg (· ++ [packet.x, packet.y]) awaits.empty⟩
  · rw [if_neg (mt addressed.mp here)] at live ⊢
    have awaits := waiting thereBefore live
    rw [if_neg here]
    exact ⟨awaits.paused, awaits.planned, awaits.empty⟩

/-- **Idle rounds.** Let a network be reached from a fresh one by some rounds, and let a round on it
return. The round is idle just when nothing was queued for the nodes that were not halted at its
start and nothing was sent. The monitor delivers just when the round is idle and the monitor has
received a packet. What it delivers is the newest packet it received, addressed to node zero, and
repeats just when the delivery before had the same `y`. It counts the delivery; and every node that
is not halted is left waiting at an input instruction, with the delivery queued for node zero and
nothing for the others. -/
theorem idle_rounds_wake_monitor {program : Program} {config : NetworkConfig} {fuel : Nat}
    (built : ofProgram program config = .ok fresh) (reached : Reaches fresh results network)
    (returned : network.round fuel = some (.ok round, next)) :
    (round.idle = true ↔ network.Unfed ∧ round.sent = []) ∧
    (round.delivery.isSome = true ↔ round.idle = true ∧ 0 < network.monitor.received) ∧
    ∀ packet repeated, round.delivery = some (packet, repeated) →
      (∃ latest, network.monitor.latest = some latest ∧ packet = { latest with dest := 0 }) ∧
      (repeated = true ↔
        ∃ previous, (deliveriesIn results).getLast? = some previous ∧ previous.y = packet.y) ∧
      next.monitor.deliveries = network.monitor.deliveries + 1 ∧
      ∀ (address : Nat) (node : Node), next.nodes[address]? = some node →
        node.machine.isHalted = false → node.machine.state = .paused ∧
        (∃ instruction target, node.machine.plan = .ok (instruction, .input target)) ∧
        node.machine.bridge.input = if address = 0 then [packet.x, packet.y] else [] := by
  obtain ⟨moments, made⟩ := round_told returned
  have accounts := reached.accounts built
  cases made with
  | @ended moments round mid next passes finished =>
      have closes := closes_of_finishRound finished
      obtain ⟨sent, idle⟩ := idle_iff_of_closes closes
      refine ⟨?_, ?_, ?_⟩
      · rw [idle, sent]
        refine and_congr_left ?_
        intro silent
        exact (passes.quiet silent).unfed_iff
      · cases closes with
        | active active => exact iff_of_false nofun nofun
        | unheard quiet silent nothing =>
            rw [(passes.quiet silent).monitor_eq] at nothing
            rw [accounts.heard_iff, nothing]
            exact iff_of_false nofun nofun
        | delivered quiet silent heard readdressed =>
            rw [(passes.quiet silent).monitor_eq] at heard
            rw [accounts.heard_iff, heard]
            exact iff_of_true rfl ⟨rfl, rfl⟩
      · intro packet repeated delivery
        cases closes with
        | active active => cases delivery
        | unheard quiet silent nothing => cases delivery
        | @delivered latest _ quiet silent heard readdressed =>
            cases delivery
            have pass := passes.quiet silent
            rw [pass.monitor_eq] at heard ⊢
            refine ⟨⟨latest, heard, readdressed⟩, ?_, ?_, ?_⟩
            · rw [accounts.last_eq, decide_eq_true_iff, Option.map_eq_some_iff]
            · have elsewhere : packet.dest ≠ IdleMonitor.address := by
                rw [readdressed]
                exact (by decide : (0 : Word) ≠ IdleMonitor.address)
              rw [monitor_route, if_neg elsewhere]
            · intro address node there live
              refine awaits_route (congrArg Packet.dest readdressed) ?_ there live
              intro before thereBefore liveBefore
              exact pass.awaits_all passes.unfolds.size_eq.2 thereBefore liveBefore

/-- A program that sends a packet to the monitor and then reads whatever comes. -/
def reporting : Program :=
  ⟨[104, 255, 104, 7, 104, 8, 3, 0, 1105, 1, 6]⟩

/-- One node alone. -/
def hermit : NetworkConfig :=
  { nodes := 1, scratchCells := 0 }

/-- The fourth round of a lone reporter is idle, as its second was, and repeats the delivery. -/
theorem reporter_idles :
    ∃ fresh results network round next packet, ofProgram reporting hermit = .ok fresh ∧
      Reaches fresh results network ∧ results.length = 3 ∧
      network.round 9 = some (.ok round, next) ∧ network.Unfed ∧ 0 < network.monitor.received ∧
      round.delivery = some (packet, true) ∧
      (∃ previous, (deliveriesIn results).getLast? = some previous ∧ previous.y = packet.y) ∧
      next.monitor.deliveries = network.monitor.deliveries + 1 := by
  have evaluated :
      ((ofProgram reporting hermit).toOption.bind (·.makeRounds 9 3)).bind
          (fun went => (went.2.round 9).map fun last =>
            (went.1.length, last.1.toOption.map fun round => (round.idle, round.delivery))) =
        some (3, some (true, some (⟨0, 7, 8⟩, true))) := by decide +kernel
  obtain ⟨⟨rounds, network⟩, made, evaluated⟩ := Option.bind_eq_some_iff.mp evaluated
  obtain ⟨⟨result, next⟩, returned, same⟩ := Option.map_eq_some_iff.mp evaluated
  obtain ⟨three, came⟩ := Prod.mk.inj same
  cases result with
  | error error => cases came
  | ok round =>
      obtain ⟨idle, delivery⟩ := Prod.mk.inj (Option.some.inj came)
      obtain ⟨fresh, built, rounds⟩ := exists_fresh_of_makeRounds made
      have reached := Reaches.here.rounds rounds
      obtain ⟨unfed, woken, delivers⟩ := idle_rounds_wake_monitor built reached returned
      obtain ⟨_, again, counted, _⟩ := delivers _ _ delivery
      have heard := (woken.mp (by rw [delivery]; rfl)).2
      exact ⟨fresh, _, network, round, next, _, built, reached, by simpa using three, returned,
        (unfed.mp idle).1, heard, delivery, again.mp rfl, counted⟩

end Network

end Intcode
