import Intcode.Proofs.RoundHistory
import Mathlib.Data.List.Basic

/-! # The framing of packets

Words are cut into packets in one way only (`Packet.cut_eq_iff`). A node is visited with an empty
outbox and fewer than three words kept from before, and is left so unless its machine fails; the
words not sent before and the words put out at its turn are the words of the packets it completes
and the words not sent then (`Node.Undergoes.unsent_eq`). Over any rounds it follows that a node's
packets and the words kept are what its output is cut into, wherever its machine was suspended on
the way, and that the packets of a round stand in the order of the nodes' addresses
(`Network.framing_loses_nothing`). -/

namespace Intcode

namespace Packet

variable {values left : List Word} {packets : List Packet}

theorem cut_of_short (short : left.length < 3) : cut left = ([], left) := by
  unfold cut
  split
  · simp only [List.length_cons] at short
    omega
  · rfl

/-- **Cutting.** Words are cut into packets and fewer than three words left over in one way. -/
theorem cut_eq_iff :
    cut values = (packets, left) ↔ values = packets.flatMap words ++ left ∧ left.length < 3 := by
  constructor
  · intro same
    induction values using cut.induct generalizing packets left with
    | case1 dest x y rest others remaining behind ih =>
        simp only [cut, behind] at same
        cases same
        obtain ⟨whole, short⟩ := ih behind
        refine ⟨?_, short⟩
        rw [whole]
        rfl
    | case2 remaining few =>
        have short : remaining.length < 3 := by
          rcases remaining with _ | ⟨dest, _ | ⟨x, _ | ⟨y, rest⟩⟩⟩
          · exact Nat.zero_lt_succ _
          · exact Nat.lt_of_sub_eq_succ rfl
          · exact Nat.lt_of_sub_eq_succ rfl
          · exact absurd rfl (few dest x y rest)
        rw [cut_of_short short] at same
        cases same
        exact ⟨rfl, short⟩
  · rintro ⟨rfl, short⟩
    induction packets with
    | nil => exact cut_of_short short
    | cons packet rest ih =>
        change cut (packet.dest :: packet.x :: packet.y :: (rest.flatMap words ++ left)) = _
        simp only [cut, ih]

end Packet

namespace Event

/-- The words that the node at an address puts out. -/
def outputs (address : Nat) : Event → List Word
  | .turn other _ _ outputs _ | .failed other _ _ outputs _ =>
      if other = address then outputs else []
  | _ => []

/-- The packets that the node at an address completes and sends. -/
def contributed (address : Nat) : Event → List Packet
  | .turn other _ _ _ packets => if other = address then packets else []
  | _ => []

variable {address : Nat} {event : Event} {packet : Packet}

theorem silent_of_elsewhere (elsewhere : event.isTurnOf address = false) :
    event.outputs address = [] ∧ event.contributed address = [] := by
  cases event with
  | turn other | failed other =>
      have different : ¬other = address := of_decide_eq_false elsewhere
      simp only [outputs, contributed, different, ↓reduceIte, and_self]
  | sent | ended => exact ⟨rfl, rfl⟩

theorem elsewhere_of_handed (handed : event.handed? = some packet) (address : Nat) :
    event.isTurnOf address = false := by
  cases event with
  | turn | failed => cases handed
  | sent | ended => rfl

end Event

namespace Node

variable {idleInput : Word} {address : Nat} {node after : Node} {event : Event} {packet : Packet}

/-- A node between its turns: nobody but the network takes its output, all of it was taken, and the
words kept make no packet. -/
structure Settled (node : Node) : Prop where
  unheard : node.machine.bridge.sink = none
  emptied : node.machine.bridge.outbox = #[]
  short : node.partialPacket.length < 3

theorem settled_boot (program : Program) (config : Config) (address : Nat) :
    (boot program config address).Settled :=
  ⟨rfl, rfl, Nat.zero_lt_succ _⟩

theorem partialPacket_receive (node : Node) (packet : Packet) :
    (node.receive packet).partialPacket = node.partialPacket := by
  unfold Node.receive
  split <;> rfl

/-- What a node has put out and not sent: the words kept that make no packet yet, and what its
machine put out at a turn that failed. -/
def unsent (node : Node) : List Word :=
  node.partialPacket ++ node.machine.bridge.outbox.toList

/-- The output of a node is in order: nobody but the network takes it, the words kept make no
packet, and all of it was taken, unless the machine failed. -/
structure InOrder (node : Node) : Prop where
  unheard : node.machine.bridge.sink = none
  short : node.partialPacket.length < 3
  taken : node.machine.bridge.outbox = #[] ∨ node.machine.state = .failed

theorem Settled.inOrder (settled : node.Settled) : node.InOrder :=
  ⟨settled.unheard, settled.short, .inl settled.emptied⟩

theorem InOrder.unsent_short (order : node.InOrder) (sound : node.machine.state ≠ .failed) :
    node.unsent.length < 3 := by
  have emptied := order.taken.resolve_right sound
  rw [unsent, emptied, List.append_nil]
  exact order.short

/-- What a turn adds to the outbox is what was put out in it. -/
theorem outbox_of_turn {reads outputs : List Word} {result : Machine.RunResult} {final : Machine}
    (unheard : node.machine.bridge.sink = none)
    (ran : (node.opened idleInput).RunsToInput reads outputs result final) :
    final.bridge.sink = none ∧
      final.bridge.outbox.toList = node.machine.bridge.outbox.toList ++ outputs := by
  have unheardThere : (node.opened idleInput).bridge.sink = none := by
    unfold opened
    split <;> exact unheard
  have outbox : (node.opened idleInput).bridge.outbox = node.machine.bridge.outbox := by
    unfold opened
    split <;> rfl
  have unheardThen := ran.unheard unheardThere
  have delivered := ran.delivered_eq
  simp only [Bridge.delivered, unheardThere, unheardThen, outbox] at delivered
  exact ⟨unheardThen, delivered⟩

/-- **One event at one node.** What was not sent and what is put out are the words of the packets
that are sent and what is not sent then. -/
theorem Undergoes.unsent_eq (undergoes : node.Undergoes idleInput address event after)
    (order : node.InOrder) :
    after.InOrder ∧
      node.unsent ++ event.outputs address =
        (event.contributed address).flatMap Packet.words ++ after.unsent := by
  cases undergoes with
  | @turn reads outputs left output final packets live ran cut =>
      obtain ⟨unheard, outbox⟩ := outbox_of_turn order.unheard ran
      obtain ⟨whole, short⟩ := Packet.cut_eq_iff.mp cut
      refine ⟨⟨unheard, short, .inl rfl⟩, ?_⟩
      have drained : final.drainOutput.1 = node.machine.bridge.outbox.toList ++ outputs := outbox
      rw [drained, ← List.append_assoc] at whole
      simp only [Event.outputs, Event.contributed, ↓reduceIte]
      exact whole.trans (congrArg _ (List.append_nil left).symm)
  | @failed reads outputs cause error final live ran =>
      obtain ⟨unheard, outbox⟩ := outbox_of_turn order.unheard ran
      refine ⟨⟨unheard, order.short, .inr ran.failed⟩, ?_⟩
      simp only [Event.outputs, Event.contributed, ↓reduceIte, unsent, outbox, List.append_assoc]
      rfl
  | @handed event packet handed addressed =>
      obtain ⟨silent, nothing⟩ :=
        Event.silent_of_elsewhere (Event.elsewhere_of_handed handed address)
      rw [silent, nothing, List.append_nil, unsent, unsent, partialPacket_receive]
      unfold Node.receive
      split
      · exact ⟨order, rfl⟩
      · exact ⟨⟨order.unheard, order.short, order.taken⟩, rfl⟩
  | nothing elsewhere unaddressed =>
      obtain ⟨silent, nothing⟩ := Event.silent_of_elsewhere elsewhere
      rw [silent, nothing]
      exact ⟨order, List.append_nil _⟩

/-- A turn that succeeds empties the outbox, and nothing but a turn fills it. -/
theorem Undergoes.emptied (undergoes : node.Undergoes idleInput address event after)
    (emptied : node.machine.bridge.outbox = #[]) (succeeds : event.isFailure = false) :
    after.machine.bridge.outbox = #[] := by
  cases undergoes with
  | turn live ran cut => rfl
  | failed live ran => cases succeeds
  | handed handed addressed =>
      unfold Node.receive
      split <;> exact emptied
  | nothing elsewhere unaddressed => exact emptied

theorem Undergoes.settled (undergoes : node.Undergoes idleInput address event after)
    (settled : node.Settled) (succeeds : event.isFailure = false) : after.Settled := by
  obtain ⟨order, _⟩ := undergoes.unsent_eq settled.inOrder
  exact ⟨order.unheard, undergoes.emptied settled.emptied succeeds, order.short⟩

end Node

namespace Network

variable {network next last fresh : Network} {event : Event} {moments : List Moment}
  {addresses : List Nat} {failure : Option Error} {round : Round} {address : Nat} {node : Node}
  {history : List (Round × List Moment)}

/-- The words kept for the node at an address that make no packet yet. -/
def kept (network : Network) (address : Nat) : List Word :=
  ((network.nodes[address]?).map (·.partialPacket)).getD []

def Settled (network : Network) : Prop :=
  ∀ (address : Nat) (node : Node), network.nodes[address]? = some node → node.Settled

theorem Happens.settled (happens : network.Happens event next) (succeeds : event.isFailure = false)
    (settled : network.Settled) : next.Settled := by
  intro address node there
  obtain ⟨before, found, undergoes⟩ := happens.exists_node there
  exact undergoes.settled (settled address before found) succeeds

theorem settled_of_fresh {program : Program} {config : NetworkConfig}
    (built : ofProgram program config = .ok fresh) : fresh.Settled := by
  intro address node there
  rw [(fresh_of_ofProgram built).2 there]
  exact Node.settled_boot _ _ _

/-- What the node at an address has put out and not sent. -/
def unsent (network : Network) (address : Nat) : List Word :=
  ((network.nodes[address]?).map (·.unsent)).getD []

/-- The output of every node is in order. -/
def InOrder (network : Network) : Prop :=
  ∀ (address : Nat) (node : Node), network.nodes[address]? = some node → node.InOrder

theorem Settled.inOrder (settled : network.Settled) : network.InOrder :=
  fun address node there => (settled address node there).inOrder

theorem kept_of_node (there : network.nodes[address]? = some node) :
    network.kept address = node.partialPacket := by
  simp only [kept, there, Option.map_some, Option.getD_some]

theorem unsent_of_node (there : network.nodes[address]? = some node) :
    network.unsent address = node.unsent := by
  simp only [unsent, there, Option.map_some, Option.getD_some]

/-- Between the turns of nodes that do not fail nothing is unsent but the words kept. -/
theorem Settled.unsent_eq_kept (settled : network.Settled) (address : Nat) :
    network.unsent address = network.kept address := by
  cases there : network.nodes[address]? with
  | none => simp only [unsent, kept, there, Option.map_none]
  | some node =>
      rw [unsent_of_node there, kept_of_node there, Node.unsent,
        (settled address node there).emptied]
      exact List.append_nil _

theorem kept_of_fresh {program : Program} {config : NetworkConfig}
    (built : ofProgram program config = .ok fresh) : fresh.kept address = [] := by
  cases there : fresh.nodes[address]? with
  | none => simp only [kept, there, Option.map_none, Option.getD_none]
  | some node =>
      rw [kept_of_node there, (fresh_of_ofProgram built).2 there]
      rfl

theorem unsent_of_fresh {program : Program} {config : NetworkConfig}
    (built : ofProgram program config = .ok fresh) : fresh.unsent address = [] :=
  ((settled_of_fresh built).unsent_eq_kept address).trans (kept_of_fresh built)

theorem Happens.inOrder (happens : network.Happens event next) (order : network.InOrder) :
    next.InOrder := by
  intro address node there
  obtain ⟨before, found, undergoes⟩ := happens.exists_node there
  exact (undergoes.unsent_eq (order address before found)).1

/-! ## Rounds -/

theorem contributed_handovers (network : Network) (packets : List Packet) (address : Nat) :
    (network.handovers packets).flatMap (·.event.contributed address) = [] := by
  have contributed := congrArg (List.flatMap (Event.contributed address))
    (network.events_handovers packets)
  rw [List.flatMap_map, List.flatMap_map] at contributed
  exact contributed.trans (List.flatMap_eq_nil_iff.mpr fun _ _ => rfl)

/-- A node that is not visited in a pass contributes nothing to it. -/
theorem Passes.contributed_eq_nil (passes : Passes network addresses moments failure last)
    (unvisited : address ∉ addresses) : moments.flatMap (·.event.contributed address) = [] := by
  induction passes with
  | nothing => rfl
  | skipped _ _ ih => exact ih (List.not_mem_of_not_mem_cons unvisited)
  | turn _ _ ih =>
      have other := List.ne_of_not_mem_cons unvisited
      rw [List.flatMap_cons, List.flatMap_append, contributed_handovers,
        ih (List.not_mem_of_not_mem_cons unvisited)]
      simp only [Event.contributed, Ne.symm other, ↓reduceIte, List.append_nil]
  | failed => rfl

/-- What a pass sends are the packets of the nodes, in the order in which they are visited. -/
theorem Passes.sent_eq (passes : Passes network addresses moments failure last)
    (once : addresses.Nodup) :
    (progressOf moments).sent =
      addresses.flatMap fun address => moments.flatMap (·.event.contributed address) := by
  induction passes with
  | nothing => rfl
  | @skipped network last address addresses moments failure _ rest ih =>
      obtain ⟨unvisited, onceThen⟩ := List.nodup_cons.mp once
      rw [ih onceThen, List.flatMap_cons, rest.contributed_eq_nil unvisited]
      rfl
  | @turn network mid last address addresses idle reads outputs packets moments _ _ rest ih =>
      obtain ⟨unvisited, onceThen⟩ := List.nodup_cons.mp once
      -- Each node contributes to its own turn and to the rest of the pass.
      have parted (other : Nat) :
          (⟨network, .turn address idle reads outputs packets, mid⟩ ::
              (mid.handovers packets ++ moments)).flatMap (·.event.contributed other) =
            (if address = other then packets else []) ++
              moments.flatMap (·.event.contributed other) := by
        rw [List.flatMap_cons, List.flatMap_append, contributed_handovers, List.nil_append]
        rfl
      simp only [progressOf_turn, parted, List.flatMap_cons, ↓reduceIte,
        rest.contributed_eq_nil unvisited, List.append_nil, ih onceThen]
      congr 1
      refine List.flatMap_congr ?_
      intro other among
      have different : address ≠ other := fun same => unvisited (same ▸ among)
      simp only [different, ↓reduceIte, List.nil_append]
  | failed =>
      refine (List.flatMap_eq_nil_iff.mpr ?_).symm
      exact fun _ _ => rfl

/-- What is sent in a round, failed or not, are the packets of the nodes, in the order of their
addresses. -/
theorem RoundOf.routed_eq {result : Except Error Round}
    (made : network.RoundOf moments result last) :
    moments.filterMap (·.event.sent?) =
      (List.range network.nodes.size).flatMap fun address =>
        moments.flatMap (·.event.contributed address) := by
  cases made with
  | failed passes => exact passes.sent_eq List.nodup_range
  | ended passes finished =>
      rw [List.filterMap_append]
      refine (List.append_nil _).trans ((passes.sent_eq List.nodup_range).trans ?_)
      refine List.flatMap_congr ?_
      intro address _
      rw [List.flatMap_append]
      exact (List.append_nil _).symm

theorem RoundOf.sent_eq_routed (made : network.RoundOf moments (.ok round) last) :
    round.sent = moments.filterMap (·.event.sent?) := by
  cases made with
  | ended passes finished =>
      obtain ⟨_, sent, _⟩ := finishRound_eq finished
      rw [sent, List.filterMap_append]
      exact (List.append_nil _).symm

/-- What a round sent are the packets of its nodes, in the order of their addresses. -/
theorem RoundOf.sent_eq (made : network.RoundOf moments (.ok round) last) :
    round.sent = (List.range network.nodes.size).flatMap fun address =>
      moments.flatMap (·.event.contributed address) :=
  made.sent_eq_routed.trans made.routed_eq

/-! ## Output -/

/-- The output of a node is framed: it is the words of the packets that the node sent and fewer than
three words kept, and nothing is left in the outbox. -/
structure FramedOutput (address : Nat) (moments : List Moment) (node : Node) : Prop where
  outputs_eq : moments.flatMap (·.event.outputs address) =
    (moments.flatMap (·.event.contributed address)).flatMap Packet.words ++ node.partialPacket
  short : node.partialPacket.length < 3
  emptied : node.machine.bridge.outbox = #[]
  /-- What the node puts out decides its packets, wherever its machine was suspended on the way. -/
  cut_eq : Packet.cut (moments.flatMap (·.event.outputs address)) =
    (moments.flatMap (·.event.contributed address), node.partialPacket)

/-- What a node put out are the words of the packets it sent and what it has not sent. -/
theorem Unfolds.outputs_eq (unfolds : Unfolds fresh moments last) (order : fresh.InOrder)
    (sent : fresh.unsent address = []) (there : last.nodes[address]? = some node) :
    node.InOrder ∧
      moments.flatMap (·.event.outputs address) =
        (moments.flatMap (·.event.contributed address)).flatMap Packet.words ++ node.unsent := by
  obtain ⟨orderBefore, orderThen⟩ := unfolds.preserves (P := InOrder)
    (fun moment among => (unfolds.happens moment among).inOrder) order
  have inside : address < fresh.nodes.size := by
    rw [← unfolds.size_eq.2]
    exact (Array.getElem?_eq_some_iff.mp there).1
  have balanced : ∀ moment ∈ moments,
      moment.before.unsent address ++ moment.event.outputs address =
        (moment.event.contributed address).flatMap Packet.words ++
          moment.after.unsent address := by
    intro moment among
    rw [← unfolds.size_eq.1 moment among] at inside
    have found := Array.getElem?_eq_getElem inside
    obtain ⟨after, foundThen, undergoes⟩ := (unfolds.happens moment among).undergoes found
    rw [unsent_of_node found, unsent_of_node foundThen]
    exact (undergoes.unsent_eq (orderBefore moment among address _ found)).2
  have flow := unfolds.flow (·.unsent address) _ _ balanced
  rw [sent, unsent_of_node there, List.nil_append, ← List.flatMap_assoc] at flow
  exact ⟨orderThen address node there, flow⟩

theorem Unfolds.framedOutput (unfolds : Unfolds fresh moments last)
    (succeeds : ∀ moment ∈ moments, moment.event.isFailure = false) (settled : fresh.Settled)
    (unkept : fresh.kept address = []) (there : last.nodes[address]? = some node) :
    FramedOutput address moments node := by
  obtain ⟨order, outputs⟩ := unfolds.outputs_eq settled.inOrder
    ((settled.unsent_eq_kept address).trans unkept) there
  have settledThen := (unfolds.preserves (P := Settled)
    (fun moment among => (unfolds.happens moment among).settled (succeeds moment among))
    settled).2 address node there
  rw [Node.unsent, settledThen.emptied, List.append_nil] at outputs
  exact ⟨outputs, order.short, settledThen.emptied,
    Packet.cut_eq_iff.mpr ⟨outputs, order.short⟩⟩

/-- **Framing loses nothing.** Rounds made on a fresh network have a history. In any history of them
what each round sent are the packets of its nodes, in the order of their addresses, and the output
of every node is framed. -/
theorem framing_loses_nothing {program : Program} {config : NetworkConfig} {rounds : List Round}
    (built : ofProgram program config = .ok fresh) (made : Rounds fresh rounds network) :
    (∃ history, history.map Prod.fst = rounds ∧ Recounts fresh history network) ∧
    ∀ history, Recounts fresh history network →
      (∀ round moments, (round, moments) ∈ history →
        round.sent = (List.range network.nodes.size).flatMap fun address =>
          moments.flatMap (·.event.contributed address)) ∧
      ∀ address node, network.nodes[address]? = some node →
        FramedOutput address (history.flatMap Prod.snd) node := by
  refine ⟨made.told, ?_⟩
  intro history recounts
  have unfolds := recounts.unfolds
  refine ⟨?_, ?_⟩
  · intro round moments among
    obtain ⟨_, before, _, earlier, roundOf⟩ := recounts.roundOf among
    rw [unfolds.size_eq.2, ← earlier.size_eq.2]
    exact roundOf.sent_eq
  · intro address node there
    exact unfolds.framedOutput recounts.unfailing (settled_of_fresh built) (kept_of_fresh built)
      there

/-- A program that reads a word before each of the three words of a packet to node one, and halts
with one word of another packet put out. -/
def hesitant : Program :=
  ⟨[3, 15, 104, 1, 3, 15, 104, 7, 3, 15, 104, 8, 104, 9, 99]⟩

/-- Two nodes that hesitate. -/
def hesitants : NetworkConfig :=
  { nodes := 2, scratchCells := 1 }

/-- What they do in three rounds: the packets are complete in the third only. -/
def hesitations : List Round :=
  [{ sent := [], idle := false, delivery := none },
    { sent := [], idle := true, delivery := none },
    { sent := [⟨1, 7, 8⟩, ⟨1, 7, 8⟩], idle := false, delivery := none }]

theorem hesitants_framing_loses_nothing :
    ∃ fresh network history, ofProgram hesitant hesitants = .ok fresh ∧
      Rounds fresh hesitations network ∧ network.kept 0 = [9] ∧
      Recounts fresh history network ∧
      ∀ address node, network.nodes[address]? = some node →
        FramedOutput address (history.flatMap Prod.snd) node := by
  have evaluated :
      ((ofProgram hesitant hesitants).toOption.bind (·.makeRounds 9 3)).map
          (fun went => (went.1, went.2.kept 0)) =
        some (hesitations, [9]) := by decide +kernel
  obtain ⟨⟨rounds, network⟩, returned, same⟩ := Option.map_eq_some_iff.mp evaluated
  obtain ⟨fresh, built, made⟩ := exists_fresh_of_makeRounds returned
  simp only [Prod.mk.injEq] at same
  obtain ⟨rfl, kept⟩ := same
  obtain ⟨⟨history, _, recounts⟩, told⟩ := framing_loses_nothing built made
  exact ⟨fresh, network, history, built, made, kept, recounts, (told history recounts).2⟩

end Network

end Intcode
