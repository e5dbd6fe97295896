import Intcode.Proofs.RoundHistory
import Mathlib.Data.List.Basic

/-! # The input streams of nodes

All that is ever put into a node's queue is a stream of blocks behind the node's address: the idle
value, or the two words of one packet (`Block`). An event puts in the idle value when the node has
its turn with nothing queued, and a packet when it is handed over, addressed to the node, and the
node is not halted; no event puts in anything else (`Network.Happens.queue_eq`). What a node has
read and what is queued for it still are together its stream, so no packet is lost, doubled or torn
(`Network.streams_are_intact`). -/

namespace Intcode

/-- What is put into a queue at a time. -/
inductive Block
  | idle
  /-- The two words of a packet. -/
  | pair (packet : Packet)
  deriving DecidableEq, Repr

namespace Block

def words (idleInput : Word) : Block → List Word
  | .idle => [idleInput]
  | .pair packet => [packet.x, packet.y]

def packet? : Block → Option Packet
  | .idle => none
  | .pair packet => some packet

end Block

namespace Event

/-- The words that the node at an address reads. -/
def reads (address : Nat) : Event → List Word
  | .turn other _ reads _ _ | .failed other _ reads _ _ => if other = address then reads else []
  | _ => []

/-- Whether the node at an address is given the idle value. -/
def givesIdle (address : Nat) : Event → Bool
  | .turn other idle _ _ _ | .failed other idle _ _ _ => other = address && idle
  | _ => false

/-- The packet that the node at an address takes in, if that node is live. -/
def received? (address : Nat) (live : Bool) (event : Event) : Option Packet :=
  event.handed?.filter fun packet => live && packet.isFor address

/-- The block that is put into the queue of the node at an address, if that node is live. -/
def block? (address : Nat) (live : Bool) (event : Event) : Option Block :=
  if event.givesIdle address then some .idle else (event.received? address live).map .pair

variable {address : Nat} {live : Bool} {event : Event} {packet : Packet}

/-- The packet that is put into a queue is the one that is taken in. -/
theorem packet?_of_block? (address : Nat) (live : Bool) (event : Event) :
    (event.block? address live).bind Block.packet? = event.received? address live := by
  unfold block?
  split
  · rename_i given
    cases event with
    | turn | failed => rfl
    | sent | ended => cases given
  · cases event.received? address live <;> rfl

theorem block?_eq_idle_iff : event.block? address live = some .idle ↔ event.givesIdle address := by
  unfold block?
  split
  · rename_i given
    exact iff_of_true rfl given
  · rename_i withheld
    refine iff_of_false ?_ withheld
    cases event.received? address live with
    | none => exact fun absurd => nomatch absurd
    | some packet => exact fun absurd => nomatch absurd

theorem block?_of_handed (handed : event.handed? = some packet) :
    event.block? address live =
      if live && packet.isFor address then some (.pair packet) else none := by
  have withheld : event.givesIdle address = false := by
    cases event with
    | turn | failed => cases handed
    | sent | ended => rfl
  simp only [block?, received?, withheld, handed, Bool.false_eq_true, ↓reduceIte,
    Option.filter_some]
  split <;> rfl

theorem reads_of_handed (handed : event.handed? = some packet) : event.reads address = [] := by
  cases event with
  | turn | failed => cases handed
  | sent | ended => rfl

/-- An event that is not about a node puts nothing into its queue and takes nothing from it. -/
theorem block?_of_nothing (elsewhere : event.isTurnOf address = false)
    (untaken : ∀ packet, event.handed? = some packet →
      (live && packet.isFor address) = false) :
    event.block? address live = none ∧ event.reads address = [] := by
  cases handed : event.handed? with
  | some packet =>
      refine ⟨?_, reads_of_handed handed⟩
      rw [block?_of_handed handed, untaken packet handed]
      rfl
  | none =>
      cases event with
      | turn other | failed other =>
          have different : ¬other = address := of_decide_eq_false elsewhere
          simp only [block?, received?, givesIdle, handed?, reads, different, decide_false,
            Bool.false_and, Bool.false_eq_true, ↓reduceIte, Option.filter_none, Option.map_none,
            and_self]
      | sent packet => cases handed
      | ended round =>
          refine ⟨?_, rfl⟩
          simp only [block?, received?, givesIdle, handed, Bool.false_eq_true, ↓reduceIte,
            Option.map_none, Option.filter_none]

end Event

namespace Node

variable {idleInput : Word} {address : Nat} {node after : Node} {event : Event}

theorem queue_opened (idleInput : Word) (node : Node) :
    (node.opened idleInput).bridge.input =
      node.machine.bridge.input ++ if node.isIdle then [idleInput] else [] := by
  unfold opened
  split
  · rfl
  · exact (List.append_nil _).symm

theorem queue_receive (packet : Packet) (node : Node) :
    (node.receive packet).machine.bridge.input =
      node.machine.bridge.input ++
        if !node.machine.isHalted then [packet.x, packet.y] else [] := by
  unfold receive
  cases node.machine.isHalted with
  | true => exact (List.append_nil _).symm
  | false => rfl

/-- **One event at one node.** What was queued and the block that is put in are what the node reads
and what is queued then. -/
theorem Undergoes.queue_eq (undergoes : node.Undergoes idleInput address event after) :
    node.machine.bridge.input ++
        (event.block? address (!node.machine.isHalted)).toList.flatMap (Block.words idleInput) =
      event.reads address ++ after.machine.bridge.input := by
  cases undergoes with
  | turn live ran cut =>
      have read := ran.queue_eq
      rw [queue_opened] at read
      simp only [Event.block?, Event.received?, Event.givesIdle, Event.handed?, Event.reads,
        decide_true, Bool.true_and, ↓reduceIte, Option.filter_none, Option.map_none]
      refine Eq.trans ?_ read
      cases node.isIdle <;> rfl
  | failed live ran =>
      have read := ran.queue_eq
      rw [queue_opened] at read
      simp only [Event.block?, Event.received?, Event.givesIdle, Event.handed?, Event.reads,
        decide_true, Bool.true_and, ↓reduceIte, Option.filter_none, Option.map_none]
      refine Eq.trans ?_ read
      cases node.isIdle <;> rfl
  | handed handed addressed =>
      rw [Event.block?_of_handed handed, addressed, Event.reads_of_handed handed, queue_receive,
        Bool.and_true]
      cases node.machine.isHalted <;> rfl
  | nothing elsewhere unaddressed =>
      have untaken : ∀ packet, event.handed? = some packet →
          (!node.machine.isHalted && packet.isFor address) = false := by
        intro packet handed
        rw [unaddressed packet handed, Bool.and_false]
      obtain ⟨nothing, unread⟩ := Event.block?_of_nothing elsewhere untaken
      rw [nothing, unread]
      exact List.append_nil _

end Node

namespace Network

/-- What is queued for the node at an address. -/
def queue (network : Network) (address : Nat) : List Word :=
  ((network.nodes[address]?).map (·.machine.bridge.input)).getD []

/-- Whether there is a node at an address that is not halted. -/
def isLive (network : Network) (address : Nat) : Bool :=
  (network.nodes[address]?).any (!·.machine.isHalted)

variable {network next : Network} {event : Event} {address : Nat} {node : Node}

theorem queue_of_node (there : network.nodes[address]? = some node) :
    network.queue address = node.machine.bridge.input := by
  simp only [queue, there, Option.map_some, Option.getD_some]

theorem isLive_of_node (there : network.nodes[address]? = some node) :
    network.isLive address = !node.machine.isHalted := by
  simp only [isLive, there, Option.any_some]

/-- A node whose turn it is is there, and it is given the idle value if nothing is queued for it. -/
theorem Happens.of_turn (happens : network.Happens event next)
    (turn : event.isTurnOf address = true) :
    ∃ node, network.nodes[address]? = some node ∧ event.givesIdle address = node.isIdle := by
  cases happens with
  | @turn other node reads outputs left output final packets there live ran cut =>
      have here : other = address := of_decide_eq_true turn
      subst here
      refine ⟨node, there, ?_⟩
      simp only [Event.givesIdle, decide_true, Bool.true_and]
  | @failed other node reads outputs cause final there live ran =>
      have here : other = address := of_decide_eq_true turn
      subst here
      refine ⟨node, there, ?_⟩
      simp only [Event.givesIdle, decide_true, Bool.true_and]
  | sent packet => cases turn
  | ended finished => cases turn

/-- **One event at one queue.** What was queued and the block that is put in are what is read and
what is queued then. -/
theorem Happens.queue_eq (happens : network.Happens event next) (address : Nat) :
    network.queue address ++
        (event.block? address (network.isLive address)).toList.flatMap
          (Block.words network.config.idleInput) =
      event.reads address ++ next.queue address := by
  cases there : network.nodes[address]? with
  | some node =>
      obtain ⟨after, thereThen, undergoes⟩ := happens.undergoes there
      rw [queue_of_node there, isLive_of_node there, queue_of_node thereThen]
      exact undergoes.queue_eq
  | none =>
      -- Where no node is, nobody has a turn and nothing is taken in.
      have absent : network.isLive address = false := by
        simp only [isLive, there, Option.any_none]
      have elsewhere : event.isTurnOf address = false := by
        cases turn : event.isTurnOf address with
        | false => rfl
        | true =>
            obtain ⟨node, found, _⟩ := happens.of_turn turn
            rw [there] at found
            cases found
      have untaken : ∀ packet, event.handed? = some packet →
          (network.isLive address && packet.isFor address) = false := by
        intro packet _
        rw [absent, Bool.false_and]
      obtain ⟨nothing, unread⟩ := Event.block?_of_nothing elsewhere untaken
      simp only [queue, there, happens.absent there, nothing, unread, Option.map_none, Option.getD_none,
        Option.toList_none, List.flatMap_nil, List.append_nil]

/-- The idle value is put into the queue of a node whose turn it is and for which nothing is
queued. -/
theorem Happens.idle_iff (happens : network.Happens event next) (address : Nat) :
    event.block? address (network.isLive address) = some .idle ↔
      event.isTurnOf address = true ∧ network.queue address = [] := by
  rw [Event.block?_eq_idle_iff]
  cases turn : event.isTurnOf address with
  | true =>
      obtain ⟨node, there, given⟩ := happens.of_turn turn
      rw [given, queue_of_node there, Node.isIdle, List.isEmpty_iff]
      simp only [true_and]
  | false =>
      refine iff_of_false ?_ ?_
      · cases event with
        | turn other | failed other =>
            have different : ¬other = address := of_decide_eq_false turn
            simp only [Event.givesIdle, different, decide_false, Bool.false_and,
              Bool.false_eq_true, not_false_eq_true]
        | sent | ended => exact fun absurd => nomatch absurd
      · exact fun absurd => nomatch absurd.1

/-- A packet that no live node takes in changes no queue. -/
theorem Happens.queue_eq_of_dropped {packet : Packet} (happens : network.Happens event next)
    (handed : event.handed? = some packet)
    (dropped : ∀ address, packet.isFor address = true → network.isLive address = false)
    (address : Nat) : next.queue address = network.queue address := by
  have untaken : (network.isLive address && packet.isFor address) = false := by
    cases addressed : packet.isFor address with
    | true => rw [dropped address addressed, Bool.false_and]
    | false => exact Bool.and_false _
  have balance := happens.queue_eq address
  rw [Event.block?_of_handed handed, Event.reads_of_handed handed, untaken] at balance
  exact balance.symm.trans (List.append_nil _)

end Network

/-! ## Streams -/

namespace Moment

/-- The words that are put into the queue of the node at an address: what is behind the words
queued before in the words read and the words queued after. -/
def entered (address : Nat) (moment : Moment) : List Word :=
  (moment.event.reads address ++ moment.after.queue address).drop
    (moment.before.queue address).length

/-- The block that is put into the queue of the node at an address. -/
def block? (address : Nat) (moment : Moment) : Option Block :=
  moment.event.block? address (moment.before.isLive address)

/-- The packet handed over, if it is addressed to the node at an address and that node is not
halted. -/
def received? (address : Nat) (moment : Moment) : Option Packet :=
  moment.event.received? address (moment.before.isLive address)

end Moment

namespace Network

variable {fresh network last : Network} {moments : List Moment} {address : Nat}

/-- All that was ever put into the queue of the node at an address: what was queued at first, and
what was put in at each moment. -/
def stream (fresh : Network) (address : Nat) (moments : List Moment) : List Word :=
  fresh.queue address ++ moments.flatMap (·.entered address)

theorem Unfolds.entered_eq (unfolds : Unfolds fresh moments last) {moment : Moment}
    (among : moment ∈ moments) (address : Nat) :
    moment.entered address =
      (moment.block? address).toList.flatMap (Block.words fresh.config.idleInput) := by
  have balance := (unfolds.happens moment among).queue_eq address
  rw [unfolds.config_eq.1 moment among] at balance
  unfold Moment.entered
  rw [← balance]
  exact List.drop_left

/-- What was read and what is queued still are the stream. -/
theorem Unfolds.read_eq (unfolds : Unfolds fresh moments last) (address : Nat) :
    moments.flatMap (·.event.reads address) ++ last.queue address =
      fresh.stream address moments := by
  refine (unfolds.flow (·.queue address) _ _ ?_).symm
  intro moment among
  rw [unfolds.entered_eq among, Moment.block?, ← unfolds.config_eq.1 moment among]
  exact (unfolds.happens moment among).queue_eq address

/-- The stream of a node is intact: behind its address it is made up of blocks, each the idle value
or the words of one packet. -/
structure IntactStream (fresh : Network) (address : Nat) (moments : List Moment)
    (last : Network) : Prop where
  /-- Behind the address the stream is made up of blocks. -/
  blocks_eq : fresh.stream address moments =
    Int64.ofNat address :: (moments.filterMap (·.block? address)).flatMap
      (Block.words fresh.config.idleInput)
  /-- The packets among the blocks are those that were handed over, addressed to the node, while it
  was not halted. -/
  packets_eq : (moments.filterMap (·.block? address)).filterMap Block.packet? =
    moments.filterMap (·.received? address)
  /-- The idle value is put in just when the node has its turn with nothing queued. -/
  idle_iff : ∀ moment ∈ moments, moment.block? address = some .idle ↔
    moment.event.isTurnOf address = true ∧ moment.before.queue address = []
  read_eq : moments.flatMap (·.event.reads address) ++ last.queue address =
    fresh.stream address moments

theorem Unfolds.intactStream (unfolds : Unfolds fresh moments last)
    (opened : fresh.queue address = [Int64.ofNat address]) :
    IntactStream fresh address moments last where
  blocks_eq := by
    have entered : moments.flatMap (·.entered address) =
        moments.flatMap fun moment =>
          (moment.block? address).toList.flatMap (Block.words fresh.config.idleInput) :=
      List.flatMap_congr fun moment among => unfolds.entered_eq among address
    rw [stream, opened, entered, List.filterMap_eq_flatMap_toList, List.flatMap_assoc]
    rfl
  packets_eq := by
    rw [List.filterMap_filterMap]
    refine List.filterMap_congr ?_
    intro moment _
    exact Event.packet?_of_block? address _ moment.event
  idle_iff := fun moment among => (unfolds.happens moment among).idle_iff address
  read_eq := unfolds.read_eq address

theorem queue_of_fresh {program : Program} {config : NetworkConfig}
    (built : ofProgram program config = .ok fresh) (inside : address < fresh.nodes.size) :
    fresh.queue address = [Int64.ofNat address] := by
  have there : fresh.nodes[address]? = some fresh.nodes[address] :=
    Array.getElem?_eq_getElem inside
  rw [queue_of_node there, (fresh_of_ofProgram built).2 there]
  rfl

/-- **Streams are intact.** Rounds made on a fresh network have a history. In any history of them
each round hands over what it sent and then what the monitor delivers to node zero; a packet for
the monitor, for an address nobody has or for a halted node changes no queue; and the stream of
every node is intact. -/
theorem streams_are_intact {program : Program} {config : NetworkConfig} {rounds : List Round}
    (built : ofProgram program config = .ok fresh) (made : Rounds fresh rounds network) :
    (∃ history, history.map Prod.fst = rounds ∧ Recounts fresh history network) ∧
    ∀ history, Recounts fresh history network →
      (∀ round moments, (round, moments) ∈ history →
        moments.filterMap (·.event.handed?) =
            round.sent ++ (round.delivery.map Prod.fst).toList ∧
          ∀ delivered, round.delivery = some delivered → delivered.1.dest = 0) ∧
      (∀ moment ∈ history.flatMap Prod.snd, ∀ packet, moment.event.handed? = some packet →
        (packet.dest = IdleMonitor.address ∨
          ∀ address : Nat, packet.dest.toInt = address → moment.before.isLive address = false) →
        ∀ address, moment.after.queue address = moment.before.queue address) ∧
      ∀ address < network.nodes.size,
        IntactStream fresh address (history.flatMap Prod.snd) network := by
  refine ⟨made.told, ?_⟩
  intro history recounts
  have unfolds := recounts.unfolds
  refine ⟨?_, ?_, ?_⟩
  · intro round moments among
    obtain ⟨_, _, _, _, roundOf⟩ := recounts.roundOf among
    exact ⟨roundOf.handed_eq, fun delivered => roundOf.dest_eq_zero⟩
  · intro moment among packet handed dropped
    refine (unfolds.happens moment among).queue_eq_of_dropped handed ?_
    intro address addressed
    obtain ⟨listened, same⟩ := Packet.isFor_iff.mp addressed
    rcases dropped with monitored | dead
    · exact absurd monitored listened
    · exact dead address same
  · intro address inside
    rw [unfolds.size_eq.2] at inside
    exact unfolds.intactStream (queue_of_fresh built inside)

/-- A program that sends a packet to node one when it is booted and halts at the fourth word it
reads. -/
def greeting : Program :=
  ⟨[3, 15, 104, 1, 104, 7, 104, 8, 3, 15, 3, 15, 3, 15, 99]⟩

/-- Two nodes that greet node one. -/
def greeters : NetworkConfig :=
  { nodes := 2, scratchCells := 1 }

/-- What the greeters do in two rounds. In the first both greet node one; in the second node one
halts, with half of a packet read. -/
def greetings : List Round :=
  [{ sent := [⟨1, 7, 8⟩, ⟨1, 7, 8⟩], idle := false, delivery := none },
    { sent := [], idle := false, delivery := none }]

theorem greeters_streams_are_intact :
    ∃ fresh network history, ofProgram greeting greeters = .ok fresh ∧
      Rounds fresh greetings network ∧ network.nodes.size = 2 ∧ network.queue 1 = [8] ∧
      Recounts fresh history network ∧
      ∀ address < network.nodes.size,
        IntactStream fresh address (history.flatMap Prod.snd) network := by
  have evaluated :
      ((ofProgram greeting greeters).toOption.bind (·.makeRounds 9 2)).map
          (fun went => (went.1, went.2.nodes.size, went.2.queue 1)) =
        some (greetings, 2, [8]) := by decide +kernel
  obtain ⟨⟨rounds, network⟩, returned, same⟩ := Option.map_eq_some_iff.mp evaluated
  obtain ⟨fresh, built, made⟩ := exists_fresh_of_makeRounds returned
  simp only [Prod.mk.injEq] at same
  obtain ⟨rfl, size, queued⟩ := same
  obtain ⟨⟨history, _, recounts⟩, told⟩ := streams_are_intact built made
  exact ⟨fresh, network, history, built, made, size, queued, recounts,
    (told history recounts).2.2⟩

end Network

end Intcode
