import Intcode.Proofs.RoundHistory

/-! # Calls on networks

A caller makes single rounds on a network or lets it run, and goes on with whatever network a call
leaves, also when the call failed (`Network.serveAll`). A run is a row of rounds, so what the calls
made on a fresh network come to is reached by rounds (`Network.Reaches.serveAll`).

The rounds that were made, those that failed included, have their moments
(`Network.Chronicle`). A node that fails ends its round, but what the nodes before it sent was handed
over by then, so a chronicle tells more than the results of the rounds. -/

namespace Intcode

inductive NetworkCall
  | round
  | run (stop : StopCondition)
  deriving DecidableEq, Repr

/-- What a call answers when it does not fail. -/
inductive NetworkAnswer
  | round (round : Round)
  | event (event : NetworkEvent)
  deriving DecidableEq, Repr

namespace Network

/-- Serves a call, in which each machine may make `fuel` turns at a time. -/
def serve (fuel : Nat) (network : Network) :
    NetworkCall → Option (Except Error NetworkAnswer × Network)
  | .round => (network.round fuel).map fun (result, next) => (result.map .round, next)
  | .run stop => (network.run fuel stop).map fun (result, next) => (result.map .event, next)

/-- Serves calls one after the other. There is no result when one of them does not return. -/
def serveAll (fuel : Nat) :
    Network → List NetworkCall → Option (List (Except Error NetworkAnswer) × Network)
  | network, [] => some ([], network)
  | network, call :: rest =>
      match network.serve fuel call with
      | none => none
      | some (answer, next) =>
          (serveAll fuel next rest).map fun (answers, last) => (answer :: answers, last)

variable {fresh network next last : Network} {fuel : Nat} {call : NetworkCall}
  {calls : List NetworkCall} {answer : Except Error NetworkAnswer}
  {answers : List (Except Error NetworkAnswer)} {results : List (Except Error Round)}

theorem serveAll_cons_eq_some_iff :
    network.serveAll fuel (call :: calls) = some (answers, last) ↔
      ∃ answer next others, network.serve fuel call = some (answer, next) ∧
        next.serveAll fuel calls = some (others, last) ∧ answers = answer :: others := by
  rw [serveAll]
  cases network.serve fuel call with
  | none => simp
  | some pair =>
      obtain ⟨answer, next⟩ := pair
      simp only [Option.map_eq_some_iff, Prod.exists, Prod.mk.injEq, Option.some.injEq]
      constructor
      · rintro ⟨others, final, later, rfl, rfl⟩
        exact ⟨answer, next, others, ⟨rfl, rfl⟩, later, rfl⟩
      · rintro ⟨_, _, others, ⟨rfl, rfl⟩, later, rfl⟩
        exact ⟨others, last, later, rfl, rfl⟩

theorem Reaches.serve (reached : Reaches fresh results network)
    (returned : network.serve fuel call = some (answer, next)) :
    ∃ more, Reaches fresh (results ++ more) next := by
  cases call with
  | round =>
      obtain ⟨⟨result, last⟩, made, same⟩ := Option.map_eq_some_iff.mp returned
      cases same
      exact ⟨[result], reached.round made⟩
  | run stop =>
      obtain ⟨⟨result, last⟩, ran, same⟩ := Option.map_eq_some_iff.mp returned
      cases same
      exact reached.run ran

theorem Reaches.serveAll (reached : Reaches fresh results network)
    (returned : network.serveAll fuel calls = some (answers, last)) :
    ∃ more, Reaches fresh (results ++ more) last := by
  induction calls generalizing network results answers with
  | nil =>
      cases returned
      exact ⟨[], by rwa [List.append_nil]⟩
  | cons call rest ih =>
      obtain ⟨answer, next, others, first, later, _⟩ := serveAll_cons_eq_some_iff.mp returned
      obtain ⟨more, there⟩ := reached.serve first
      obtain ⟨further, reachedLast⟩ := ih there later
      exact ⟨more ++ further, by rwa [← List.append_assoc]⟩

/-! ## Chronicles -/

/-- Rounds with the result and the moments of each, whether they failed or not. -/
inductive Chronicle : Network → List (Except Error Round × List Moment) → Network → Prop
  | nothing (network : Network) : Chronicle network [] network
  | andThen {network next last : Network} {result : Except Error Round} {moments : List Moment}
      {history : List (Except Error Round × List Moment)}
      (made : network.RoundOf moments result next) (rest : Chronicle next history last) :
      Chronicle network ((result, moments) :: history) last

variable {history others : List (Except Error Round × List Moment)}

/-- All moments of some rounds. -/
def momentsOf (history : List (Except Error Round × List Moment)) : List Moment :=
  history.flatMap Prod.snd

theorem Chronicle.append (first : Chronicle fresh history network)
    (second : Chronicle network others last) : Chronicle fresh (history ++ others) last := by
  induction first with
  | nothing network => exact second
  | andThen made _ ih => exact .andThen made (ih second)

theorem Chronicle.unfolds (chronicle : Chronicle network history last) :
    Unfolds network (momentsOf history) last := by
  induction chronicle with
  | nothing network => exact .nothing network
  | andThen made _ ih => exact made.unfolds.append ih

/-- A round of a chronicle is made on a network that the chronicle comes to. -/
theorem Chronicle.roundOf {result : Except Error Round} {moments : List Moment}
    (chronicle : Chronicle network history last) (among : (result, moments) ∈ history) :
    ∃ earlier before after, Unfolds network earlier before ∧
      RoundOf before moments result after := by
  induction chronicle with
  | nothing network => cases among
  | andThen made _ ih =>
      rcases List.mem_cons.mp among with same | later
      · cases same
        exact ⟨[], _, _, .nothing _, made⟩
      · obtain ⟨earlier, before, after, unfolds, roundOf⟩ := ih later
        exact ⟨_, before, after, made.unfolds.append unfolds, roundOf⟩

/-- Rounds that were made have their moments. -/
theorem Reaches.told (reached : Reaches fresh results network) :
    ∃ history, history.map Prod.fst = results ∧ Chronicle fresh history network := by
  induction reached with
  | here => exact ⟨[], rfl, .nothing fresh⟩
  | @round results network next fuel result _ returned ih =>
      obtain ⟨history, same, chronicle⟩ := ih
      obtain ⟨moments, told⟩ := round_told returned
      refine ⟨history ++ [(result, moments)], ?_, chronicle.append (.andThen told (.nothing next))⟩
      rw [List.map_append, same]
      rfl

/-- The calls made on a fresh network have a chronicle. -/
theorem exists_chronicle (returned : fresh.serveAll fuel calls = some (answers, network)) :
    ∃ history, Reaches fresh (history.map Prod.fst) network ∧ Chronicle fresh history network := by
  obtain ⟨results, reached⟩ := Reaches.here.serveAll returned
  obtain ⟨history, same, chronicle⟩ := reached.told
  exact ⟨history, same ▸ reached, chronicle⟩

/-- A program that sends a packet to the monitor and then reads whatever comes, if its address is
zero, and that fails otherwise. -/
def tattling : Program :=
  ⟨[3, 17, 1005, 17, 16, 104, 255, 104, 7, 104, 8, 3, 17, 1105, 1, 11, 98, 0]⟩

/-- Two nodes, of which the second fails in the first round, behind the report of the first. -/
def tattlers : NetworkConfig :=
  { nodes := 2, scratchCells := 0 }

end Network

end Intcode
