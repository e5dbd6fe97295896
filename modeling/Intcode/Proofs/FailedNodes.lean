import Intcode.Proofs.MonitorHistory
import Intcode.Proofs.NetworkRuns

/-! # Failed nodes

A round fails at the first node whose machine fails, and that node is not passed over later as a
halted one is: it is visited again in every round, and its machine refuses to run. A visit changes
the state of no other machine (`Network.visit_elsewhere`), so a failed node stays failed whatever
the other nodes do, and ends every later round (`Network.Broken.round`). Hence no call succeeds any
more, no round is completed and nothing is delivered (`Network.failed_node_aborts_for_good`). -/

namespace Intcode

theorem Node.state_receive (node : Node) (packet : Packet) :
    (node.receive packet).machine.state = node.machine.state := by
  unfold Node.receive
  split <;> rfl

theorem Node.state_opened (idleInput : Word) (node : Node) :
    (node.opened idleInput).state = node.machine.state := by
  unfold Node.opened
  split <;> rfl

/-- A machine that waits or has halted has not failed. -/
theorem Machine.RunsToInput.sound {m final : Machine} {reads outputs : List Word}
    {output : Option Word} (ran : m.RunsToInput reads outputs (.ok output) final) :
    final.state ≠ .failed := by
  rcases ran.awaits_or_halts with awaits | halted
  · rw [awaits.paused]
    decide
  · have halted : final.state = .halted := of_decide_eq_true halted
    rw [halted]
    decide

namespace Network

variable {network mid next last : Network} {fuel address other : Nat} {addresses : List Nat}
  {progress : Progress} {outcome : Except Error Progress} {error : Error} {node : Node}
  {result : Except Error Round} {stop : StopCondition} {call : NetworkCall}
  {calls : List NetworkCall} {answers : List (Except Error NetworkAnswer)}

/-- The state of the machine at an address. -/
def stateAt (network : Network) (address : Nat) : Option State :=
  network.nodes[address]?.map (·.machine.state)

theorem stateAt_of_node (there : network.nodes[address]? = some node) :
    network.stateAt address = some node.machine.state := by
  rw [stateAt, there, Option.map_some]

theorem stateAt_route (network : Network) (packet : Packet) (address : Nat) :
    (network.route packet).stateAt address = network.stateAt address := by
  rw [stateAt, getElem?_route, Option.map_map, stateAt]
  congr 1
  funext node
  simp only [Function.comp_apply]
  split
  · exact node.state_receive packet
  · rfl

theorem stateAt_routeAll (network : Network) (packets : List Packet) (address : Nat) :
    (network.routeAll packets).stateAt address = network.stateAt address := by
  induction packets generalizing network with
  | nil => rfl
  | cons packet rest ih => exact (ih _).trans (network.stateAt_route packet address)

theorem stateAt_put (there : network.nodes[address]? = some node) (after : Node) :
    (network.put address after).stateAt address = some after.machine.state := by
  have inside := (Array.getElem?_eq_some_iff.mp there).1
  rw [stateAt, getElem?_put _ _ _ _ inside, if_pos rfl, Option.map_some]

theorem stateAt_put_elsewhere (there : network.nodes[address]? = some node) (after : Node)
    (elsewhere : other ≠ address) :
    (network.put address after).stateAt other = network.stateAt other := by
  have inside := (Array.getElem?_eq_some_iff.mp there).1
  rw [stateAt, getElem?_put _ _ _ _ inside, if_neg elsewhere.symm, stateAt]

/-! ## Visits -/

/-- What the visit of an address comes to: it is passed over, the machine there comes to wait or
halts, or it fails. -/
inductive Visits (fuel : Nat) (network : Network) (address : Nat) :
    Except Error Progress → Network → Prop
  | passed {progress : Progress}
      (passed : ∀ node, network.nodes[address]? = some node → node.machine.isHalted = true) :
      Visits fuel network address (.ok progress) network
  | worked {progress : Progress} {node after : Node} {packets : List Packet}
      (there : network.nodes[address]? = some node)
      (sound : node.machine.state ≠ .failed) (soundThen : after.machine.state ≠ .failed) :
      Visits fuel network address (.ok progress) ((network.put address after).routeAll packets)
  | failed {node : Node} {cause : Error} {final : Machine}
      (there : network.nodes[address]? = some node)
      (ran : (node.opened network.config.idleInput).runUntilInput fuel [] =
        some (.error cause, final))
      (failed : final.state = .failed) :
      Visits fuel network address (.error (Node.failure address cause))
        (network.put address { node with machine := final })

theorem visits_of_visit (returned : network.visit fuel address progress = some (outcome, next)) :
    Visits fuel network address outcome next := by
  rcases network.passed_or_live address with passed | ⟨node, there, live⟩
  · rw [visit_of_passed passed] at returned
    cases returned
    exact .passed passed
  · rw [visit_of_live there live] at returned
    obtain ⟨⟨result, final⟩, ran, came⟩ := Option.map_eq_some_iff.mp returned
    obtain ⟨reads, outputs, runs⟩ :=
      Machine.exists_runsToInput ((Node.isHalted_opened _ _).trans live) ran
    cases result with
    | error cause =>
        cases came
        exact .failed there ran runs.failed
    | ok output =>
        cases came
        refine .worked there ?_ runs.sound
        -- A machine that has failed refuses to run.
        intro failed
        rw [← Node.state_opened network.config.idleInput] at failed
        rw [Machine.runUntilInput, Machine.run_of_failed failed] at ran
        cases ran

theorem visit_elsewhere (returned : network.visit fuel address progress = some (outcome, next))
    (elsewhere : other ≠ address) : next.stateAt other = network.stateAt other := by
  cases visits_of_visit returned with
  | passed passed => rfl
  | worked there sound soundThen =>
      rw [stateAt_routeAll]
      exact stateAt_put_elsewhere there _ elsewhere
  | failed there ran failed => exact stateAt_put_elsewhere there _ elsewhere

/-- A visit succeeds only where no machine has failed. -/
theorem sound_of_visit {further : Progress}
    (returned : network.visit fuel address progress = some (.ok further, next)) :
    network.stateAt address ≠ some .failed ∧ next.stateAt address ≠ some .failed := by
  cases visits_of_visit returned with
  | passed passed =>
      rw [and_self]
      intro failed
      obtain ⟨node, there, state⟩ := Option.map_eq_some_iff.mp failed
      have halted : node.machine.state = .halted := of_decide_eq_true (passed node there)
      rw [state] at halted
      cases halted
  | worked there sound soundThen =>
      rw [stateAt_routeAll, stateAt_put there, stateAt_of_node there]
      exact ⟨mt Option.some.inj sound, mt Option.some.inj soundThen⟩

/-! ## Passes -/

theorem visitAll_elsewhere
    (returned : visitAll fuel addresses network progress = some (outcome, next))
    (elsewhere : other ∉ addresses) : next.stateAt other = network.stateAt other := by
  induction addresses generalizing network progress with
  | nil =>
      cases returned
      rfl
  | cons address rest ih =>
      have here := List.ne_of_not_mem_cons elsewhere
      unfold visitAll at returned
      split at returned
      · cases returned
      · rename_i visited
        cases returned
        exact visit_elsewhere visited here
      · rename_i visited
        rw [ih returned (List.not_mem_of_not_mem_cons elsewhere), visit_elsewhere visited here]

/-- A pass succeeds only over machines that have not failed. -/
theorem sound_of_visitAll {further : Progress}
    (returned : visitAll fuel addresses network progress = some (.ok further, next))
    (once : addresses.Nodup) :
    ∀ address ∈ addresses,
      network.stateAt address ≠ some .failed ∧ next.stateAt address ≠ some .failed := by
  induction addresses generalizing network progress with
  | nil => exact fun address among => nomatch among
  | cons address rest ih =>
      obtain ⟨unvisited, onceThen⟩ := List.nodup_cons.mp once
      unfold visitAll at returned
      split at returned
      · cases returned
      · cases returned
      · rename_i visited
        have others := ih returned onceThen
        obtain ⟨sound, soundThen⟩ := sound_of_visit visited
        refine List.forall_mem_cons.mpr ⟨⟨sound, ?_⟩, ?_⟩
        · rwa [visitAll_elsewhere returned unvisited]
        · intro other among
          have different : other ≠ address := fun same => unvisited (same ▸ among)
          rw [← visit_elsewhere visited different]
          exact others other among

/-- A pass that fails does so at one address, behind others that were passed. -/
theorem exists_visit_of_visitAll
    (returned : visitAll fuel addresses network progress = some (.error error, next)) :
    ∃ earlier address later before further, addresses = earlier ++ address :: later ∧
      visitAll fuel earlier network progress = some (.ok further, before) ∧
      before.visit fuel address further = some (.error error, next) := by
  induction addresses generalizing network progress with
  | nil => cases returned
  | cons address rest ih =>
      unfold visitAll at returned
      split at returned
      · cases returned
      · rename_i visited
        cases returned
        exact ⟨[], address, rest, network, progress, rfl, rfl, visited⟩
      · rename_i visited
        obtain ⟨earlier, failing, later, before, further, rfl, passed, failed⟩ := ih returned
        refine ⟨address :: earlier, failing, later, before, further, rfl, ?_, failed⟩
        rw [visitAll, visited]
        exact passed

/-! ## Rounds -/

/-- A round breaks at an address with an error, which the error of the node there is behind. -/
structure Breaks (fuel : Nat) (network : Network) (address : Nat) (error : Error)
    (next : Network) : Prop where
  kind_eq : error.kind = .machineFailed
  node_eq : error.contextValue? "node" = some (Text.natText address)
  /-- The nodes before have had their turns when the machine of the node fails, and its error is the
  cause of the one reported. -/
  source : ∃ before progress node cause final,
    visitAll fuel (List.range address) network {} = some (.ok progress, before) ∧
      before.nodes[address]? = some node ∧
      (node.opened before.config.idleInput).runUntilInput fuel [] = some (.error cause, final) ∧
      error.causes = .error cause.toDiagnosis :: cause.causes
  failed : next.stateAt address = some .failed
  lowest : ∀ other < address, next.stateAt other ≠ some .failed
  unvisited : ∀ other, address < other → next.stateAt other = network.stateAt other

/-- In the row of all addresses those before an address are the lower ones. -/
theorem earlier_eq_range {size : Nat} {earlier later : List Nat}
    (row : List.range size = earlier ++ address :: later) : earlier = List.range address := by
  rw [List.range_eq_range'] at row ⊢
  obtain ⟨count, _, rfl, behind⟩ := List.range'_eq_append_iff.mp row
  obtain ⟨here, _⟩ := List.range'_eq_cons_iff.mp behind.symm
  rw [← here, Nat.zero_add, Nat.mul_one]

theorem exists_breaks (failed : network.round fuel = some (.error error, next)) :
    ∃ address, Breaks fuel network address error next := by
  unfold Network.round at failed
  split at failed
  · cases failed
  · rename_i visited
    cases failed
    obtain ⟨earlier, address, later, before, progress, row, passed, broke⟩ :=
      exists_visit_of_visitAll visited
    cases earlier_eq_range row
    have elsewhere {other : Nat} (different : other ≠ address) :
        next.stateAt other = before.stateAt other := visit_elsewhere broke different
    refine ⟨address, ?_⟩
    cases visits_of_visit broke with
    | @failed node cause final there ran failed =>
        exact
          { kind_eq := rfl
            node_eq := List.lookup_cons_self
            source := ⟨before, progress, node, cause, final, passed, there, ran, rfl⟩
            failed := (stateAt_put there _).trans (congrArg some failed)
            lowest := by
              intro other below
              rw [elsewhere below.ne]
              exact (sound_of_visitAll passed List.nodup_range other
                (List.mem_range.mpr below)).2
            unvisited := by
              intro other above
              rw [elsewhere above.ne', visitAll_elsewhere passed]
              exact fun among => absurd (List.mem_range.mp among) above.not_gt }
  · cases failed

/-- The machine of some node has failed. -/
def Broken (network : Network) : Prop :=
  ∃ address, network.stateAt address = some .failed

/-- **A failed node ends every round.** -/
theorem Broken.round_fails (broken : network.Broken)
    (returned : network.round fuel = some (result, next)) : ∃ error, result = .error error := by
  obtain ⟨address, failed⟩ := broken
  obtain ⟨node, there, _⟩ := Option.map_eq_some_iff.mp failed
  have inside := (Array.getElem?_eq_some_iff.mp there).1
  unfold Network.round at returned
  split at returned
  · cases returned
  · cases returned
    exact ⟨_, rfl⟩
  · rename_i visited
    exact absurd failed
      (sound_of_visitAll visited List.nodup_range address (List.mem_range.mpr inside)).1

/-- From one network to another no round is completed and nothing is delivered. -/
structure Stalls (network next : Network) : Prop where
  rounds_eq : next.rounds = network.rounds
  deliveries_eq : next.monitor.deliveries = network.monitor.deliveries
  lastDelivered_eq : next.monitor.lastDelivered = network.monitor.lastDelivered

theorem Stalls.refl (network : Network) : network.Stalls network :=
  ⟨rfl, rfl, rfl⟩

theorem Stalls.trans (first : network.Stalls mid) (second : mid.Stalls last) :
    network.Stalls last where
  rounds_eq := second.rounds_eq.trans first.rounds_eq
  deliveries_eq := second.deliveries_eq.trans first.deliveries_eq
  lastDelivered_eq := second.lastDelivered_eq.trans first.lastDelivered_eq

theorem stalls_of_round (failed : network.round fuel = some (.error error, next)) :
    network.Stalls next := by
  obtain ⟨moments, made⟩ := round_told failed
  have undelivered := made.deliveries_eq
  have monitor := made.unfolds.monitor_eq
  rw [undelivered] at monitor
  cases made with
  | failed passes => exact ⟨passes.rounds_eq, by rw [monitor]; rfl, by rw [monitor]; rfl⟩

theorem Broken.round (broken : network.Broken)
    (returned : network.round fuel = some (result, next)) :
    (∃ error, result = .error error) ∧ next.Broken ∧ network.Stalls next := by
  obtain ⟨error, rfl⟩ := broken.round_fails returned
  obtain ⟨address, breaks⟩ := exists_breaks returned
  exact ⟨⟨error, rfl⟩, ⟨address, breaks.failed⟩, stalls_of_round returned⟩

/-! ## Calls -/

theorem Broken.run {answer : Except Error NetworkEvent} (broken : network.Broken)
    (returned : network.run fuel stop = some (answer, next)) :
    (∃ error, answer = .error error) ∧ next.Broken ∧ network.Stalls next := by
  unfold Network.run at returned
  cases allowance : network.config.maxRounds.toNat - network.rounds with
  | zero =>
      rw [allowance] at returned
      cases returned
      exact ⟨⟨_, rfl⟩, broken, .refl network⟩
  | succ remaining =>
      rw [allowance, runRounds] at returned
      split at returned
      · cases returned
      · rename_i made
        cases returned
        obtain ⟨_, brokenThen, stalls⟩ := broken.round made
        exact ⟨⟨_, rfl⟩, brokenThen, stalls⟩
      · rename_i made
        obtain ⟨_, absurd⟩ := broken.round_fails made
        cases absurd

theorem Broken.serve {answer : Except Error NetworkAnswer} (broken : network.Broken)
    (returned : network.serve fuel call = some (answer, next)) :
    (∃ error, answer = .error error) ∧ next.Broken ∧ network.Stalls next := by
  cases call with
  | round =>
      obtain ⟨⟨result, last⟩, made, same⟩ := Option.map_eq_some_iff.mp returned
      cases same
      obtain ⟨⟨error, rfl⟩, others⟩ := broken.round made
      exact ⟨⟨error, rfl⟩, others⟩
  | run stop =>
      obtain ⟨⟨result, last⟩, ran, same⟩ := Option.map_eq_some_iff.mp returned
      cases same
      obtain ⟨⟨error, rfl⟩, others⟩ := broken.run ran
      exact ⟨⟨error, rfl⟩, others⟩

theorem Broken.serveAll (broken : network.Broken)
    (returned : network.serveAll fuel calls = some (answers, last)) :
    (∀ answer ∈ answers, ∃ error, answer = .error error) ∧ network.Stalls last := by
  induction calls generalizing network answers with
  | nil =>
      cases returned
      exact ⟨fun answer among => (nomatch among), .refl _⟩
  | cons call rest ih =>
      obtain ⟨answer, next, others, first, later, rfl⟩ := serveAll_cons_eq_some_iff.mp returned
      obtain ⟨failed, brokenThen, stalls⟩ := broken.serve first
      obtain ⟨allFailed, stallsThen⟩ := ih brokenThen later
      exact ⟨List.forall_mem_cons.mpr ⟨failed, allFailed⟩, stalls.trans stallsThen⟩

/-- **A failed node aborts its network for good.** A round that fails breaks at the first node whose
machine fails, with that machine's error behind the one reported. It is not completed and nothing is
delivered in it. From then on every call fails, no round is completed and nothing is delivered. -/
theorem failed_node_aborts_for_good (failed : network.round fuel = some (.error error, next)) :
    (∃ address, Breaks fuel network address error next) ∧ network.Stalls next ∧
    ∀ turns calls answers last, next.serveAll turns calls = some (answers, last) →
      (∀ answer ∈ answers, ∃ error, answer = .error error) ∧ next.Stalls last := by
  obtain ⟨address, breaks⟩ := exists_breaks failed
  refine ⟨⟨address, breaks⟩, stalls_of_round failed, ?_⟩
  intro turns calls answers last returned
  exact Broken.serveAll ⟨address, breaks.failed⟩ returned

/-- Behind the round in which the second node fails a further round and a run fail as well, and
nothing is delivered though the first node reported. -/
theorem tattlers_abort_for_good :
    ∃ network error next answers last, ofProgram tattling tattlers = .ok network ∧
      network.round 9 = some (.error error, next) ∧
      (∃ address, Breaks 9 network address error next) ∧ network.Stalls next ∧
      next.serveAll 9 [.round, .run .firstMonitorPacket] = some (answers, last) ∧
      answers.length = 2 ∧ (∀ answer ∈ answers, ∃ error, answer = .error error) ∧
      next.Stalls last ∧ last.monitor.received = 1 := by
  have evaluated :
      ((ofProgram tattling tattlers).toOption.bind (·.round 9)).bind
        (fun broke => (broke.2.serveAll 9 [.round, .run .firstMonitorPacket]).map fun went =>
          (broke.1.toOption, went.1.length, went.2.monitor.received)) =
        some (none, 2, 1) := by decide +kernel
  obtain ⟨⟨result, next⟩, came, evaluated⟩ := Option.bind_eq_some_iff.mp evaluated
  obtain ⟨⟨answers, last⟩, served, same⟩ := Option.map_eq_some_iff.mp evaluated
  obtain ⟨network, built, failed⟩ := exists_fresh came
  simp only [Prod.mk.injEq] at same
  obtain ⟨unanswered, two, received⟩ := same
  cases result with
  | ok round => cases unanswered
  | error error =>
      obtain ⟨breaks, stalls, sticks⟩ := failed_node_aborts_for_good failed
      obtain ⟨allFailed, stallsThen⟩ := sticks 9 _ answers last served
      exact ⟨network, error, next, answers, last, built, failed, breaks, stalls, served, two,
        allFailed, stallsThen, received⟩

end Network

end Intcode
