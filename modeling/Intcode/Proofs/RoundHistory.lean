import Intcode.Proofs.NetworkEvents

/-! # Histories of networks

A moment is an event between the networks before and after it, and a round is a row of moments
(`Network.RoundOf`): the turns of the nodes that are not halted, in the order of their addresses,
with the packets of each handed over right behind its turn, and the end of the round. Each round
that returns is such a row (`Network.round_told`), and so are rounds made one after the other
(`Network.Rounds.told`).

A fact about a whole history is a fact about its moments. What every event keeps holds all along a
history (`Network.Unfolds.preserves`), and what each moment adds and takes adds up along it
(`Network.Unfolds.flow`). -/

namespace Intcode

/-- An event between the networks before and after it. -/
structure Moment where
  before : Network
  event : Event
  after : Network

namespace Network

variable {network mid next last : Network} {event : Event} {moments others : List Moment}
  {packets : List Packet} {addresses : List Nat} {failure : Option Error} {round : Round}

/-- Moments one after the other, each of which happens. -/
inductive Unfolds : Network → List Moment → Network → Prop
  | nothing (network : Network) : Unfolds network [] network
  | moment {network mid last : Network} {event : Event} {moments : List Moment}
      (happens : network.Happens event mid) (rest : Unfolds mid moments last) :
      Unfolds network (⟨network, event, mid⟩ :: moments) last

/-- The moments at which packets are handed over. -/
def handovers : Network → List Packet → List Moment
  | _, [] => []
  | network, packet :: rest =>
      ⟨network, .sent packet, network.route packet⟩ :: (network.route packet).handovers rest

/-- The moments of a pass over the nodes at some addresses. A failure ends the pass. -/
inductive Passes : Network → List Nat → List Moment → Option Error → Network → Prop
  | nothing {network : Network} : Passes network [] [] none network
  | skipped {network last : Network} {address : Nat} {addresses : List Nat} {moments : List Moment}
      {failure : Option Error}
      (halted : ∀ node, network.nodes[address]? = some node → node.machine.isHalted = true)
      (rest : Passes network addresses moments failure last) :
      Passes network (address :: addresses) moments failure last
  | turn {network mid last : Network} {address : Nat} {addresses : List Nat} {idle : Bool}
      {reads outputs : List Word} {packets : List Packet} {moments : List Moment}
      {failure : Option Error}
      (happens : network.Happens (.turn address idle reads outputs packets) mid)
      (rest : Passes (mid.routeAll packets) addresses moments failure last) :
      Passes network (address :: addresses)
        (⟨network, .turn address idle reads outputs packets, mid⟩ ::
          (mid.handovers packets ++ moments)) failure last
  | failed {network next : Network} {address : Nat} {addresses : List Nat} {idle : Bool}
      {reads outputs : List Word} {error : Error}
      (happens : network.Happens (.failed address idle reads outputs error) next) :
      Passes network (address :: addresses)
        [⟨network, .failed address idle reads outputs error, next⟩] (some error) next

/-- How far some moments bring a round. -/
def progressOf (moments : List Moment) : Progress where
  busy := moments.any (·.event.isBusy)
  sent := moments.filterMap (·.event.sent?)

/-- The moments of a round, with its result and the network it leaves. -/
inductive RoundOf (network : Network) : List Moment → Except Error Round → Network → Prop
  | failed {moments : List Moment} {error : Error} {next : Network}
      (passes : Passes network (List.range network.nodes.size) moments (some error) next) :
      RoundOf network moments (.error error) next
  | ended {moments : List Moment} {round : Round} {mid next : Network}
      (passes : Passes network (List.range network.nodes.size) moments none mid)
      (finished : mid.finishRound (progressOf moments) = (round, next)) :
      RoundOf network (moments ++ [⟨mid, .ended round, next⟩]) (.ok round) next

/-! ## Rounds are rows of moments -/

theorem events_handovers (network : Network) (packets : List Packet) :
    (network.handovers packets).map (·.event) = packets.map .sent := by
  induction packets generalizing network with
  | nil => rfl
  | cons packet rest ih => exact congrArg (.sent packet :: ·) (ih _)

theorem sent_handovers (network : Network) (packets : List Packet) :
    (network.handovers packets).filterMap (·.event.sent?) = packets := by
  have sent := congrArg (List.filterMap Event.sent?) (network.events_handovers packets)
  rw [List.filterMap_map, List.filterMap_map] at sent
  exact sent.trans List.filterMap_some

theorem handed_handovers (network : Network) (packets : List Packet) :
    (network.handovers packets).filterMap (·.event.handed?) = packets := by
  have handed := congrArg (List.filterMap Event.handed?) (network.events_handovers packets)
  rw [List.filterMap_map, List.filterMap_map] at handed
  exact handed.trans List.filterMap_some

theorem busy_handovers (network : Network) (packets : List Packet) :
    (network.handovers packets).any (·.event.isBusy) = false := by
  have busy := congrArg (List.any · Event.isBusy) (network.events_handovers packets)
  rw [List.any_map, List.any_map] at busy
  exact busy.trans (List.any_eq_false.mpr fun _ _ => Bool.false_ne_true)

theorem unfailing_handovers (network : Network) (packets : List Packet) :
    ∀ moment ∈ network.handovers packets, moment.event.isFailure = false := by
  intro moment among
  have listed := List.mem_map_of_mem (f := (·.event)) among
  rw [events_handovers] at listed
  obtain ⟨packet, _, same⟩ := List.mem_map.mp listed
  rw [← same]
  rfl

theorem progressOf_turn {address : Nat} {idle : Bool} {reads outputs : List Word} :
    progressOf (⟨network, .turn address idle reads outputs packets, mid⟩ ::
        (mid.handovers packets ++ moments)) =
      { busy := !idle || (progressOf moments).busy
        sent := packets ++ (progressOf moments).sent } := by
  simp only [progressOf, List.any_cons, List.any_append, busy_handovers, Bool.false_or,
    List.filterMap_cons, List.filterMap_append, sent_handovers]
  rfl

/-- A pass that returns is a row of moments. -/
theorem passes_of_visitAll {fuel : Nat} {progress : Progress} {outcome : Except Error Progress}
    (returned : visitAll fuel addresses network progress = some (outcome, next)) :
    ∃ moments,
      (∃ error, outcome = .error error ∧ Passes network addresses moments (some error) next) ∨
      outcome = .ok { busy := progress.busy || (progressOf moments).busy
                      sent := progress.sent ++ (progressOf moments).sent } ∧
        Passes network addresses moments none next := by
  induction addresses generalizing network progress with
  | nil =>
      cases returned
      refine ⟨[], .inr ⟨?_, .nothing⟩⟩
      simp only [progressOf, List.any_nil, Bool.or_false, List.filterMap_nil, List.append_nil]
  | cons address rest ih =>
      unfold visitAll at returned
      split at returned
      · cases returned
      · rename_i visited
        cases returned
        rcases visit_cases visited with
          ⟨absurd, _⟩ | ⟨_, _, _, _, _, _, _, absurd⟩ | ⟨_, _, _, _, happens, same⟩
        · cases absurd
        · cases absurd
        · cases same
          exact ⟨_, .inl ⟨_, rfl, .failed happens⟩⟩
      · rename_i visited
        rcases visit_cases visited with
          ⟨same, rfl, halted⟩ | ⟨mid, _, _, _, packets, happens, rfl, same⟩ | ⟨_, _, _, _, _, absurd⟩
        · cases same
          obtain ⟨moments, ⟨error, failed, passes⟩ | ⟨went, passes⟩⟩ := ih returned
          · exact ⟨moments, .inl ⟨error, failed, .skipped halted passes⟩⟩
          · exact ⟨moments, .inr ⟨went, .skipped halted passes⟩⟩
        · cases same
          obtain ⟨moments, ⟨error, failed, passes⟩ | ⟨went, passes⟩⟩ := ih returned
          · exact ⟨_, .inl ⟨error, failed, .turn happens passes⟩⟩
          · refine ⟨_, .inr ⟨?_, .turn happens passes⟩⟩
            rw [went, progressOf_turn]
            simp only [Bool.or_assoc, List.append_assoc]
        · cases absurd

/-- **Rounds are rows of moments.** -/
theorem round_told {fuel : Nat} {result : Except Error Round}
    (returned : network.round fuel = some (result, next)) :
    ∃ moments, network.RoundOf moments result next := by
  unfold Network.round at returned
  split at returned
  · cases returned
  · rename_i visited
    cases returned
    obtain ⟨moments, ⟨error, same, passes⟩ | ⟨absurd, _⟩⟩ := passes_of_visitAll visited
    · cases same
      exact ⟨moments, .failed passes⟩
    · cases absurd
  · rename_i progress mid visited
    obtain ⟨moments, ⟨error, absurd, _⟩ | ⟨went, passes⟩⟩ := passes_of_visitAll visited
    · cases absurd
    · have reached : progress = progressOf moments := Except.ok.inj went
      cases finished : mid.finishRound progress with
      | mk round after =>
          simp only [finished] at returned
          cases returned
          rw [reached] at finished
          exact ⟨_, .ended passes finished⟩

/-- Rounds that returned, made one after the other. -/
inductive Rounds : Network → List Round → Network → Prop
  | nothing (network : Network) : Rounds network [] network
  | andThen {fuel : Nat} {network next last : Network} {round : Round} {rounds : List Round}
      (returned : network.round fuel = some (.ok round, next)) (rest : Rounds next rounds last) :
      Rounds network (round :: rounds) last

/-- Makes some rounds, if none of them fails. -/
def makeRounds (fuel : Nat) : Nat → Network → Option (List Round × Network)
  | 0, network => some ([], network)
  | count + 1, network =>
      match network.round fuel with
      | some (.ok round, next) =>
          (makeRounds fuel count next).map fun (rounds, last) => (round :: rounds, last)
      | _ => none

theorem rounds_of_makeRounds {fuel count : Nat} {rounds : List Round}
    (made : network.makeRounds fuel count = some (rounds, last)) :
    Rounds network rounds last := by
  induction count generalizing network rounds with
  | zero =>
      cases made
      exact .nothing _
  | succ count ih =>
      unfold makeRounds at made
      split at made
      · rename_i returned
        obtain ⟨⟨others, final⟩, behind, same⟩ := Option.map_eq_some_iff.mp made
        cases same
        exact .andThen returned (ih behind)
      · cases made

/-- What a fresh network comes to, it comes to only if it can be built. -/
theorem exists_fresh {α : Type} {program : Program} {config : NetworkConfig}
    {use : Network → Option α} {came : α}
    (used : (ofProgram program config).toOption.bind use = some came) :
    ∃ fresh, ofProgram program config = .ok fresh ∧ use fresh = some came := by
  cases built : ofProgram program config with
  | error error =>
      rw [built] at used
      cases used
  | ok fresh =>
      rw [built] at used
      exact ⟨fresh, rfl, used⟩

theorem exists_fresh_of_makeRounds {program : Program} {config : NetworkConfig} {fuel count : Nat}
    {rounds : List Round}
    (made : (ofProgram program config).toOption.bind (·.makeRounds fuel count) =
      some (rounds, last)) :
    ∃ fresh, ofProgram program config = .ok fresh ∧ Rounds fresh rounds last := by
  obtain ⟨fresh, built, returned⟩ := exists_fresh made
  exact ⟨fresh, built, rounds_of_makeRounds returned⟩

/-- From a network rounds lead to another, each with its result. A round that fails counts, too. -/
inductive Reaches (fresh : Network) : List (Except Error Round) → Network → Prop
  | here : Reaches fresh [] fresh
  | round {results : List (Except Error Round)} {network next : Network} {fuel : Nat}
      {result : Except Error Round} (reached : Reaches fresh results network)
      (returned : network.round fuel = some (result, next)) :
      Reaches fresh (results ++ [result]) next

variable {fresh : Network} {results : List (Except Error Round)}

theorem Reaches.rounds {rounds : List Round} (reached : Reaches fresh results network)
    (made : Rounds network rounds last) : Reaches fresh (results ++ rounds.map .ok) last := by
  induction made generalizing results with
  | nothing network => rwa [List.map_nil, List.append_nil]
  | andThen returned _ ih =>
      have further := ih (reached.round returned)
      rwa [List.append_assoc] at further

/-- A run of a network leads from round to round. -/
theorem Reaches.run {fuel : Nat} {stop : StopCondition} {answer : Except Error NetworkEvent}
    (reached : Reaches fresh results network)
    (returned : network.run fuel stop = some (answer, last)) :
    ∃ more, Reaches fresh (results ++ more) last := by
  unfold Network.run at returned
  -- By induction on the rounds that the run is allowed still.
  generalize network.config.maxRounds.toNat - network.rounds = remaining at returned
  induction remaining generalizing network results with
  | zero =>
      cases returned
      exact ⟨[], by rwa [List.append_nil]⟩
  | succ remaining ih =>
      unfold runRounds at returned
      split at returned
      · cases returned
      · rename_i error mid failed
        cases returned
        exact ⟨[_], reached.round failed⟩
      · rename_i round mid passed
        have further := reached.round passed
        split at returned
        · cases returned
          exact ⟨[_], further⟩
        · obtain ⟨more, there⟩ := ih further returned
          exact ⟨.ok round :: more, by rwa [List.append_assoc] at there⟩

/-- Rounds with the moments of each. -/
inductive Recounts : Network → List (Round × List Moment) → Network → Prop
  | nothing (network : Network) : Recounts network [] network
  | andThen {network next last : Network} {round : Round} {moments : List Moment}
      {history : List (Round × List Moment)} (made : network.RoundOf moments (.ok round) next)
      (rest : Recounts next history last) : Recounts network ((round, moments) :: history) last

variable {rounds : List Round} {history : List (Round × List Moment)}

theorem Rounds.told (made : Rounds network rounds last) :
    ∃ history, history.map Prod.fst = rounds ∧ Recounts network history last := by
  induction made with
  | nothing network => exact ⟨[], rfl, .nothing network⟩
  | andThen returned _ ih =>
      obtain ⟨moments, told⟩ := round_told returned
      obtain ⟨history, same, recounts⟩ := ih
      exact ⟨(_, moments) :: history, congrArg _ same, .andThen told recounts⟩

/-! ## Histories -/

theorem Unfolds.append (first : Unfolds network moments mid) (second : Unfolds mid others last) :
    Unfolds network (moments ++ others) last := by
  induction first with
  | nothing network => exact second
  | moment happens _ ih => exact .moment happens (ih second)

theorem unfolds_handovers (network : Network) (packets : List Packet) :
    Unfolds network (network.handovers packets) (network.routeAll packets) := by
  induction packets generalizing network with
  | nil => exact .nothing network
  | cons packet rest ih => exact .moment (.sent packet) (ih _)

theorem Passes.unfolds (passes : Passes network addresses moments failure last) :
    Unfolds network moments last := by
  induction passes with
  | nothing => exact .nothing _
  | skipped _ _ ih => exact ih
  | turn happens _ ih => exact .moment happens ((unfolds_handovers _ _).append ih)
  | failed happens => exact .moment happens (.nothing _)

theorem RoundOf.unfolds {result : Except Error Round}
    (made : network.RoundOf moments result last) : Unfolds network moments last := by
  cases made with
  | failed passes => exact passes.unfolds
  | ended passes finished => exact passes.unfolds.append (.moment (.ended finished) (.nothing _))

theorem Recounts.unfolds (recounts : Recounts network history last) :
    Unfolds network (history.flatMap Prod.snd) last := by
  induction recounts with
  | nothing network => exact .nothing network
  | andThen made _ ih => exact made.unfolds.append ih

/-- A round of a history is made on a network that the history comes to. -/
theorem Recounts.roundOf (recounts : Recounts network history last)
    (among : (round, moments) ∈ history) :
    ∃ earlier before after, Unfolds network earlier before ∧
      RoundOf before moments (.ok round) after := by
  induction recounts with
  | nothing network => cases among
  | andThen made _ ih =>
      rcases List.mem_cons.mp among with same | later
      · cases same
        exact ⟨[], _, _, .nothing _, made⟩
      · obtain ⟨earlier, before, after, unfolds, roundOf⟩ := ih later
        exact ⟨_, before, after, made.unfolds.append unfolds, roundOf⟩

theorem Unfolds.happens (unfolds : Unfolds network moments last) :
    ∀ moment ∈ moments, moment.before.Happens moment.event moment.after := by
  induction unfolds with
  | nothing network => exact fun moment among => nomatch among
  | moment happens _ ih => exact List.forall_mem_cons.mpr ⟨happens, ih⟩

/-- What every moment of a history keeps holds all along the history. -/
theorem Unfolds.preserves {P : Network → Prop} (unfolds : Unfolds network moments last)
    (kept : ∀ moment ∈ moments, P moment.before → P moment.after) (holds : P network) :
    (∀ moment ∈ moments, P moment.before) ∧ P last := by
  induction unfolds with
  | nothing network => exact ⟨fun moment among => (nomatch among), holds⟩
  | moment happens _ ih =>
      obtain ⟨here, others⟩ := List.forall_mem_cons.mp kept
      obtain ⟨later, atLast⟩ := ih others (here holds)
      exact ⟨List.forall_mem_cons.mpr ⟨holds, later⟩, atLast⟩

theorem Unfolds.config_eq (unfolds : Unfolds network moments last) :
    (∀ moment ∈ moments, moment.before.config = network.config) ∧ last.config = network.config :=
  unfolds.preserves (P := fun mid => mid.config = network.config)
    (fun moment among same => (unfolds.happens moment among).config_eq.trans same) rfl

theorem Unfolds.size_eq (unfolds : Unfolds network moments last) :
    (∀ moment ∈ moments, moment.before.nodes.size = network.nodes.size) ∧
      last.nodes.size = network.nodes.size :=
  unfolds.preserves (P := fun mid => mid.nodes.size = network.nodes.size)
    (fun moment among same => (unfolds.happens moment among).size_eq.trans same) rfl

/-- **Flow.** Let something be held by a network, and let every moment of a history add something
behind it and take something from its front. Then what was held at first and what was added is what
was taken and what is held at last. -/
theorem Unfolds.flow {α : Type} (unfolds : Unfolds network moments last)
    (held : Network → List α) (added taken : Moment → List α)
    (balanced : ∀ moment ∈ moments,
      held moment.before ++ added moment = taken moment ++ held moment.after) :
    held network ++ moments.flatMap added = moments.flatMap taken ++ held last := by
  induction unfolds with
  | nothing network => exact List.append_nil _
  | moment happens _ ih =>
      obtain ⟨here, others⟩ := List.forall_mem_cons.mp balanced
      rw [List.flatMap_cons, List.flatMap_cons, ← List.append_assoc, here, List.append_assoc,
        ih others, List.append_assoc]

/-! ## Failures -/

theorem Passes.unfailing (passes : Passes network addresses moments none last) :
    ∀ moment ∈ moments, moment.event.isFailure = false := by
  generalize succeeded : none = failure at passes
  induction passes with
  | nothing => exact fun moment among => nomatch among
  | skipped _ _ ih => exact ih succeeded
  | turn _ _ ih =>
      refine List.forall_mem_cons.mpr ⟨rfl, List.forall_mem_append.mpr ⟨?_, ih succeeded⟩⟩
      exact unfailing_handovers _ _
  | failed => cases succeeded

theorem RoundOf.unfailing (made : network.RoundOf moments (.ok round) last) :
    ∀ moment ∈ moments, moment.event.isFailure = false := by
  cases made with
  | ended passes finished =>
      exact List.forall_mem_append.mpr
        ⟨passes.unfailing, List.forall_mem_cons.mpr ⟨rfl, fun moment among => nomatch among⟩⟩

theorem Recounts.unfailing (recounts : Recounts network history last) :
    ∀ moment ∈ history.flatMap Prod.snd, moment.event.isFailure = false := by
  intro moment among
  obtain ⟨⟨round, moments⟩, told, inside⟩ := List.mem_flatMap.mp among
  obtain ⟨_, _, _, _, made⟩ := recounts.roundOf told
  exact made.unfailing moment inside

/-! ## What a round hands over -/

theorem Passes.handed_eq (passes : Passes network addresses moments failure last) :
    moments.filterMap (·.event.handed?) = (progressOf moments).sent := by
  induction passes with
  | nothing => rfl
  | skipped _ _ ih => exact ih
  | turn _ _ ih =>
      rw [progressOf_turn, List.filterMap_cons, List.filterMap_append, handed_handovers, ih]
      rfl
  | failed => rfl

/-- A round hands over what was sent, and then what the monitor delivers. -/
theorem RoundOf.handed_eq (made : network.RoundOf moments (.ok round) last) :
    moments.filterMap (·.event.handed?) = round.sent ++ (round.delivery.map Prod.fst).toList := by
  cases made with
  | ended passes finished =>
      obtain ⟨_, sent, _⟩ := finishRound_eq finished
      rw [List.filterMap_append, passes.handed_eq, sent]
      cases delivered : round.delivery <;>
        simp only [List.filterMap_cons, List.filterMap_nil, Event.handed?, delivered,
          Option.map_none, Option.map_some, Option.toList_none, Option.toList_some]

/-- The monitor delivers to node zero. -/
theorem RoundOf.dest_eq_zero {delivered : Packet × Bool}
    (made : network.RoundOf moments (.ok round) last) (delivery : round.delivery = some delivered) :
    delivered.1.dest = 0 := by
  cases made with
  | ended passes finished =>
      cases closes_of_finishRound finished with
      | active active => cases delivery
      | unheard quiet silent nothing => cases delivery
      | delivered quiet silent heard readdressed =>
          cases delivery
          rw [readdressed]

end Network

end Intcode
