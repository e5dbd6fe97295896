import Intcode.Proofs.RoundHistory

/-! # Counts of nodes and addresses

The number of nodes is compared as a word, so the check tells a number that is too large from a
small one only if it is a word. The others are read as words below zero, and pass
(`NetworkConfig.check_eq_ok_iff`). No table has that many entries, so every network that is booted
has one node at least and 254 at most (`Network.exists_boot?_iff`).

A packet is for a node, for the monitor or for nobody, and its destination tells for whom
(`Network.Means`). It can be read in one way only as long as no node has the monitor's address
(`Network.means_one_iff`). No event adds a node, so this is as it is in a fresh network at every
moment of its history. -/

namespace Intcode

namespace NetworkConfig

variable {config : NetworkConfig} {error : Error}

/-- The number of nodes as the check reads it. -/
theorem toInt_nodes (config : NetworkConfig) :
    config.nodes.toInt64.toInt =
      if config.nodes.toNat < Network.tableLimit then (config.nodes.toNat : Int)
      else config.nodes.toNat - 2 * Network.tableLimit := by
  have limit : Network.tableLimit = 2 ^ 63 := rfl
  have bits : config.nodes.toInt64.toInt = config.nodes.toBitVec.toInt := rfl
  have number : config.nodes.toBitVec.toNat = config.nodes.toNat := rfl
  rw [bits, BitVec.toInt_eq_toNat_cond, number]
  split <;> split <;> omega

theorem address_le_nodes_iff (config : NetworkConfig) :
    IdleMonitor.address ≤ config.nodes.toInt64 ↔
      254 < config.nodes.toNat ∧ config.nodes.toNat < Network.tableLimit := by
  have limit : Network.tableLimit = 2 ^ 63 := rfl
  have monitor : IdleMonitor.address.toInt = 255 := rfl
  have bounded : config.nodes.toNat < 2 ^ 64 := config.nodes.toNat_lt
  rw [Int64.le_iff_toInt_le, monitor, toInt_nodes]
  split <;> omega

theorem check_eq_ok_iff (config : NetworkConfig) :
    config.check = .ok () ↔
      (1 ≤ config.nodes.toNat ∧ config.nodes.toNat ≤ 254) ∨
        Network.tableLimit ≤ config.nodes.toNat := by
  have limit : Network.tableLimit = 2 ^ 63 := rfl
  have noNode : config.nodes = 0 ↔ config.nodes.toNat = 0 := UInt64.toNat_inj.symm
  have tooMany := config.address_le_nodes_iff
  unfold check
  split
  · rename_i zero
    have zero := noNode.mp zero
    exact ⟨nofun, fun _ => by omega⟩
  · rename_i nonzero
    have nonzero := mt noNode.mpr nonzero
    split
    · rename_i many
      have many := tooMany.mp many
      exact ⟨nofun, fun _ => by omega⟩
    · rename_i few
      have few := mt tooMany.mpr few
      exact ⟨fun _ => by omega, fun _ => rfl⟩

theorem kind_of_check (refused : config.check = .error error) : error.kind = .configInvalid := by
  unfold check at refused
  split at refused
  · cases refused
    rfl
  · split at refused
    · cases refused
      rfl
    · cases refused

end NetworkConfig

/-- Whom a packet is for. -/
inductive Recipient
  | node (address : Nat)
  | monitor
  | nobody

namespace Network

variable {network : Network} {program : Program} {config : NetworkConfig} {error : Error}
  {dest : Word} {packet : Packet} {recipient other : Recipient}

/-- For whom packets with a destination are. Each case stands for itself; none is left to what the
others leave. -/
inductive Means (network : Network) (dest : Word) : Recipient → Prop
  | node {address : Nat} (there : address < network.nodes.size) (same : dest.toInt = address) :
      Means network dest (.node address)
  | monitor (same : dest = IdleMonitor.address) : Means network dest .monitor
  | nobody (noNode : ∀ address < network.nodes.size, dest.toInt ≠ (address : Int))
      (elsewhere : dest ≠ IdleMonitor.address) : Means network dest .nobody

/-- The network when somebody was given a packet. -/
def give (network : Network) (packet : Packet) : Recipient → Network
  | .node address => { network with nodes := network.nodes.modify address (·.receive packet) }
  | .monitor => { network with monitor := network.monitor.receive packet }
  | .nobody => network

/-! ## The networks that are booted -/

theorem boot?_of_refused (refused : config.check = .error error) (program : Program) :
    boot? program config = some (.error (error.inOperation "network::new")) := by
  simp only [boot?, ofProgram, refused]

theorem boot?_of_word (passed : config.check = .ok ())
    (word : config.nodes.toNat < tableLimit) (program : Program) :
    ∃ network, boot? program config = some (.ok network) ∧
      network.nodes.size = config.nodes.toNat := by
  simp only [boot?, ofProgram, passed, if_pos word]
  refine ⟨_, rfl, ?_⟩
  simp only [List.size_toArray, List.length_map, List.length_range]

theorem boot?_of_no_word (passed : config.check = .ok ())
    (noWord : tableLimit ≤ config.nodes.toNat) (program : Program) :
    boot? program config = none := by
  simp only [boot?, passed, if_neg (Nat.not_lt.mpr noWord)]

/-- What comes of booting a network: one with as many nodes as there should be, the error of the
check, or nothing. -/
theorem boot?_cases (config : NetworkConfig) :
    ((1 ≤ config.nodes.toNat ∧ config.nodes.toNat ≤ 254) ∧
      ∀ program, ∃ network, boot? program config = some (.ok network) ∧
        network.nodes.size = config.nodes.toNat) ∨
    ((config.nodes.toNat = 0 ∨ (254 < config.nodes.toNat ∧ config.nodes.toNat < tableLimit)) ∧
      ∃ error : Error, error.kind = .configInvalid ∧
        ∀ program, boot? program config = some (.error error)) ∨
    (tableLimit ≤ config.nodes.toNat ∧ ∀ program, boot? program config = none) := by
  have limit : tableLimit = 2 ^ 63 := rfl
  have passes := config.check_eq_ok_iff
  cases checked : config.check with
  | error error =>
      rw [checked] at passes
      have outside := mt passes.mpr nofun
      have kind := NetworkConfig.kind_of_check checked
      exact .inr (.inl ⟨by omega, error.inOperation "network::new", kind, boot?_of_refused checked⟩)
  | ok =>
      rcases passes.mp checked with few | noWord
      · exact .inl ⟨few, boot?_of_word checked (by omega)⟩
      · exact .inr (.inr ⟨noWord, boot?_of_no_word checked noWord⟩)

/-- A network that is booted has as many nodes as there should be. -/
theorem counted_of_boot? (booted : boot? program config = some (.ok network)) :
    (1 ≤ config.nodes.toNat ∧ config.nodes.toNat ≤ 254) ∧
      network.nodes.size = config.nodes.toNat := by
  rcases boot?_cases config with ⟨few, boots⟩ | ⟨_, error, _, refuses⟩ | ⟨_, nothing⟩
  · obtain ⟨other, alsoBooted, size⟩ := boots program
    rw [booted] at alsoBooted
    cases alsoBooted
    exact ⟨few, size⟩
  · rw [refuses] at booted
    cases booted
  · rw [nothing] at booted
    cases booted

theorem exists_boot?_iff : (∃ network, boot? program config = some (.ok network)) ↔
    1 ≤ config.nodes.toNat ∧ config.nodes.toNat ≤ 254 := by
  have limit : tableLimit = 2 ^ 63 := rfl
  constructor
  · rintro ⟨network, booted⟩
    exact (counted_of_boot? booted).1
  · intro few
    have passed := config.check_eq_ok_iff.mpr (.inl few)
    obtain ⟨network, booted, _⟩ := boot?_of_word passed (by omega) program
    exact ⟨network, booted⟩

theorem refuses_iff : (∃ error : Error, error.kind = .configInvalid ∧
      ∀ program, boot? program config = some (.error error)) ↔
    config.nodes.toNat = 0 ∨ (254 < config.nodes.toNat ∧ config.nodes.toNat < tableLimit) := by
  have limit : tableLimit = 2 ^ 63 := rfl
  rcases boot?_cases config with ⟨few, boots⟩ | ⟨outside, refuses⟩ | ⟨noWord, nothing⟩
  · refine ⟨fun ⟨error, _, refused⟩ => ?_, fun _ => by omega⟩
    obtain ⟨network, booted, _⟩ := boots ⟨[]⟩
    rw [refused] at booted
    cases booted
  · exact ⟨fun _ => outside, fun _ => refuses⟩
  · refine ⟨fun ⟨error, _, refused⟩ => ?_, fun _ => by omega⟩
    have absurd := refused ⟨[]⟩
    rw [nothing] at absurd
    cases absurd

theorem boot?_eq_none_iff :
    boot? program config = none ↔ tableLimit ≤ config.nodes.toNat := by
  have limit : tableLimit = 2 ^ 63 := rfl
  rcases boot?_cases config with ⟨few, boots⟩ | ⟨outside, error, _, refuses⟩ | ⟨noWord, nothing⟩
  · obtain ⟨network, booted, _⟩ := boots program
    rw [booted]
    exact ⟨nofun, fun _ => by omega⟩
  · rw [refuses]
    exact ⟨nofun, fun _ => by omega⟩
  · exact ⟨fun _ => noWord, fun _ => nothing program⟩

/-! ## For whom a packet is -/

theorem ne_address_of_node {address : Nat} (few : network.nodes.size ≤ 255)
    (there : address < network.nodes.size) (same : dest.toInt = address) :
    dest ≠ IdleMonitor.address := by
  have monitor : IdleMonitor.address.toInt = 255 := rfl
  intro monitored
  rw [monitored, monitor] at same
  omega

theorem modify_of_size_le {nodes : Array Node} {position : Nat} {change : Node → Node}
    (outside : nodes.size ≤ position) : nodes.modify position change = nodes := by
  refine Array.ext_getElem? fun index => ?_
  rw [Array.getElem?_modify]
  split
  · rename_i here
    rw [← here, Array.getElem?_eq_none outside]
    rfl
  · rfl

/-- As long as no node has the monitor's address, a packet is routed to whom it is for. -/
theorem Means.route_eq (means : network.Means packet.dest recipient)
    (few : network.nodes.size ≤ 255) :
    network.route packet = network.give packet recipient := by
  unfold route
  cases means with
  | @node position there same =>
      rw [if_neg (ne_address_of_node few there same), position?_eq_some_iff.mpr same]
      rfl
  | monitor same =>
      rw [if_pos same]
      rfl
  | nobody noNode elsewhere =>
      rw [if_neg elsewhere]
      cases found : position? packet.dest with
      | none => rfl
      | some position =>
          have outside : network.nodes.size ≤ position :=
            Nat.not_lt.mp fun inside => noNode position inside (position?_eq_some_iff.mp found)
          simp only [modify_of_size_le outside]
          rfl

theorem Means.unique (means : network.Means dest recipient) (also : network.Means dest other)
    (few : network.nodes.size ≤ 255) : recipient = other := by
  cases means with
  | node there same =>
      cases also with
      | node alsoThere alsoSame =>
          rw [same] at alsoSame
          rw [Int.ofNat.inj alsoSame]
      | monitor monitored => exact absurd monitored (ne_address_of_node few there same)
      | nobody noNode _ => exact absurd same (noNode _ there)
  | monitor monitored =>
      cases also with
      | node there same => exact absurd monitored (ne_address_of_node few there same)
      | monitor => rfl
      | nobody _ elsewhere => exact absurd monitored elsewhere
  | nobody noNode elsewhere =>
      cases also with
      | node there same => exact absurd same (noNode _ there)
      | monitor monitored => exact absurd monitored elsewhere
      | nobody => rfl

theorem exists_means (network : Network) (dest : Word) :
    ∃ recipient, network.Means dest recipient := by
  by_cases monitored : dest = IdleMonitor.address
  · exact ⟨_, .monitor monitored⟩
  · by_cases there : ∃ address < network.nodes.size, dest.toInt = (address : Int)
    · obtain ⟨address, there, same⟩ := there
      exact ⟨_, .node there same⟩
    · exact ⟨_, .nobody (fun address inside same => there ⟨address, inside, same⟩) monitored⟩

/-- A destination can be read in one way only just when no node has the monitor's address. -/
theorem means_one_iff :
    (∀ dest, ∃ recipient, ∀ other, network.Means dest other ↔ other = recipient) ↔
      network.nodes.size ≤ 255 := by
  constructor
  · intro one
    obtain ⟨recipient, exact⟩ := one IdleMonitor.address
    have monitor := (exact _).mp (.monitor rfl)
    refine Nat.not_lt.mp fun many => ?_
    have node := (exact _).mp (.node many rfl)
    rw [← monitor] at node
    cases node
  · intro few dest
    obtain ⟨recipient, means⟩ := network.exists_means dest
    refine ⟨recipient, fun other => ⟨fun also => also.unique means few, ?_⟩⟩
    rintro rfl
    exact means

/-- **Counts and addresses.** The check passes for one node up to 254, and for every number of nodes
that is no word. A network is booted in the first case only, and nothing comes of the second; every
other number is refused as an invalid setting, whatever the program. In a network that was booted,
and at every later moment of its history, each address is a word that is not the monitor's, and
every packet is for just one of a node, the monitor and nobody, to whom it is routed. -/
theorem counts_keep_addresses_apart (program : Program) (config : NetworkConfig) :
    (config.check = .ok () ↔
      (1 ≤ config.nodes.toNat ∧ config.nodes.toNat ≤ 254) ∨ tableLimit ≤ config.nodes.toNat) ∧
    ((∃ network, boot? program config = some (.ok network)) ↔
      1 ≤ config.nodes.toNat ∧ config.nodes.toNat ≤ 254) ∧
    ((∃ error : Error, error.kind = .configInvalid ∧
        ∀ program, boot? program config = some (.error error)) ↔
      config.nodes.toNat = 0 ∨ (254 < config.nodes.toNat ∧ config.nodes.toNat < tableLimit)) ∧
    (boot? program config = none ↔ tableLimit ≤ config.nodes.toNat) ∧
    ∀ network, boot? program config = some (.ok network) →
      ∀ moments during, Unfolds network moments during →
        during.nodes.size = config.nodes.toNat ∧
        (∀ address < during.nodes.size,
          (Int64.ofNat address).toInt = address ∧ Int64.ofNat address ≠ IdleMonitor.address) ∧
        ∀ packet, ∃ recipient, (∀ other, during.Means packet.dest other ↔ other = recipient) ∧
          during.route packet = during.give packet recipient := by
  refine ⟨config.check_eq_ok_iff, exists_boot?_iff, refuses_iff, boot?_eq_none_iff, ?_⟩
  intro network booted moments during unfolds
  obtain ⟨counted, booted⟩ := counted_of_boot? booted
  have size := unfolds.size_eq.2.trans booted
  have few : during.nodes.size ≤ 255 := by omega
  refine ⟨size, fun address there => ?_, fun packet => ?_⟩
  · have same : (Int64.ofNat address).toInt = address := Int64.toInt_ofNat_of_lt (by omega)
    exact ⟨same, ne_address_of_node few there same⟩
  · obtain ⟨recipient, exact⟩ := means_one_iff.mpr few packet.dest
    exact ⟨recipient, exact, ((exact _).mpr rfl).route_eq few⟩

/-- Fifty nodes over a program that halts at once. -/
theorem fifty_addresses_are_apart : ∃ network, boot? ⟨[99]⟩ {} = some (.ok network) ∧
    network.nodes.size = 50 ∧ ∀ packet, ∃ recipient,
      (∀ other, network.Means packet.dest other ↔ other = recipient) ∧
        network.route packet = network.give packet recipient := by
  obtain ⟨_, boots, _, _, apart⟩ := counts_keep_addresses_apart ⟨[99]⟩ {}
  obtain ⟨network, booted⟩ := boots.mpr (by decide)
  obtain ⟨size, _, routed⟩ := apart network booted [] network (.nothing network)
  exact ⟨network, booted, size, routed⟩

/-- The first number of nodes that is no word passes the check, though it is far above the monitor's
address, and no network comes of it. -/
theorem count_beyond_words_passes :
    254 < ({ nodes := 9223372036854775808 } : NetworkConfig).nodes.toNat ∧
      ({ nodes := 9223372036854775808 } : NetworkConfig).check = .ok () ∧
      boot? ⟨[99]⟩ { nodes := 9223372036854775808 } = none := by
  refine ⟨by decide, ?_, ?_⟩
  · exact (NetworkConfig.check_eq_ok_iff _).mpr (.inr (by decide))
  · exact boot?_eq_none_iff.mpr (by decide)

end Network

end Intcode
