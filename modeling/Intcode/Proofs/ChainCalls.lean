import Intcode.Proofs.Reseeding

/-! # Calls on chains

A caller sends signals through a chain, once or around, reseeds it and looks at its machines, and
goes on with whatever chain a call leaves, also when the call failed (`Chain.serveAll`). The machines
may then be in any mix of states: the pass of a signal may have ended at any of them, and signals
that nobody asked for may be queued.

None of this outlasts reseeding. A chain that was reseeded is the fresh chain over the new phase
settings, whatever calls it has served (`Chain.reseeding_forgets`). -/

namespace Intcode

inductive ChainCall
  | serial (input : Word)
  | feedback (input : Word)
  | reseed (phases : List Word)
  /-- Looks at the machines. -/
  | machines
  deriving DecidableEq, Repr

/-- What a call answers when it does not fail. -/
inductive ChainAnswer
  | signal (signal : Word)
  | reseeded
  | machines (machines : List Machine)
  deriving DecidableEq

namespace Chain

/-- Serves a call, in which each machine may make `fuel` turns at a time. A chain that refuses to be
reseeded stays as it is. -/
def serve (fuel : Nat) (chain : Chain) : ChainCall → Option (Except Error ChainAnswer × Chain)
  | .serial input =>
      (chain.runSerial fuel input).map fun (result, next) => (result.map .signal, next)
  | .feedback input =>
      (chain.runFeedback fuel input).map fun (result, next) => (result.map .signal, next)
  | .reseed phases =>
      match chain.reseed phases with
      | .error error => some (.error error, chain)
      | .ok next => some (.ok .reseeded, next)
  | .machines => some (.ok (.machines chain.machines), chain)

/-- Serves calls one after the other. There is no result when one of them does not return. -/
def serveAll (fuel : Nat) :
    Chain → List ChainCall → Option (List (Except Error ChainAnswer) × Chain)
  | chain, [] => some ([], chain)
  | chain, call :: rest =>
      match chain.serve fuel call with
      | none => none
      | some (answer, next) =>
          (serveAll fuel next rest).map fun (answers, last) => (answer :: answers, last)

variable {program : Program} {config : Config} {chain next last : Chain} {fuel size : Nat}
  {phases : List Word} {call : ChainCall} {calls : List ChainCall}
  {answer : Except Error ChainAnswer} {answers : List (Except Error ChainAnswer)}

theorem serveAll_cons_of_serve (served : chain.serve fuel call = some (answer, next))
    (later : List ChainCall) :
    chain.serveAll fuel (call :: later) =
      (next.serveAll fuel later).map fun went => (answer :: went.1, went.2) := by
  rw [serveAll, served]

theorem serveAll_cons_eq_some_iff :
    chain.serveAll fuel (call :: calls) = some (answers, last) ↔
      ∃ answer next others, chain.serve fuel call = some (answer, next) ∧
        next.serveAll fuel calls = some (others, last) ∧ answers = answer :: others := by
  constructor
  · intro returned
    cases served : chain.serve fuel call with
    | none =>
        rw [serveAll, served] at returned
        cases returned
    | some pair =>
        obtain ⟨answer, next⟩ := pair
        rw [serveAll_cons_of_serve served] at returned
        obtain ⟨⟨others, _⟩, later, same⟩ := Option.map_eq_some_iff.mp returned
        cases same
        exact ⟨answer, next, others, rfl, later, rfl⟩
  · rintro ⟨answer, next, others, served, later, rfl⟩
    rw [serveAll_cons_of_serve served, later]
    rfl

/-- A chain that is given another number of phase settings than it has machines refuses. -/
theorem reseed_of_length_ne (differ : phases.length ≠ chain.machines.length) :
    ∃ error, chain.reseed phases = .error error ∧ error.kind = .invalidArgument ∧
      error.operation = "chain::reseed" := by
  unfold reseed
  rw [if_neg differ]
  exact ⟨_, rfl, rfl, rfl⟩

/-- A call leaves a chain of as many machines over the same program, under the same settings. -/
theorem DescendsFrom.serve (descends : chain.DescendsFrom program config size)
    (positive : 0 < size) (served : chain.serve fuel call = some (answer, next)) :
    next.DescendsFrom program config size := by
  cases call with
  | serial input =>
      obtain ⟨⟨result, after⟩, returned, same⟩ := Option.map_eq_some_iff.mp served
      cases same
      exact descends.runSerial returned
  | feedback input =>
      obtain ⟨⟨result, after⟩, returned, same⟩ := Option.map_eq_some_iff.mp served
      cases same
      exact descends.runFeedback returned
  | reseed phases =>
      by_cases sized : phases.length = size
      · obtain ⟨fresh, _, reseeded, descendsFresh⟩ := descends.exists_fresh positive sized
        simp only [Chain.serve, reseeded] at served
        cases served
        exact descendsFresh
      · obtain ⟨error, refused, _⟩ := reseed_of_length_ne (descends.size_eq ▸ sized)
        simp only [Chain.serve, refused] at served
        cases served
        exact descends
  | machines =>
      cases served
      exact descends

theorem DescendsFrom.serveAll (descends : chain.DescendsFrom program config size)
    (positive : 0 < size) (served : chain.serveAll fuel calls = some (answers, last)) :
    last.DescendsFrom program config size := by
  induction calls generalizing chain answers with
  | nil =>
      cases served
      exact descends
  | cons call rest ih =>
      obtain ⟨answer, next, others, first, later, _⟩ := serveAll_cons_eq_some_iff.mp served
      exact ih (descends.serve positive first) later

/-- **Reseeding forgets everything.** Let a chain that was built over some phase settings serve any
calls, whether they succeed or fail, and then let it be reseeded. If there are as many new settings
as there were, it succeeds and leaves the fresh chain over the new settings, so all later calls
answer what they would answer on that one and leave the same chain, or do not return on either. If
there are not, it fails as an invalid argument and leaves every machine as it was. -/
theorem reseeding_forgets (built : ofPhases program phases config = .ok chain)
    (served : chain.serveAll fuel calls = some (answers, last)) (seeds : List Word) :
    (seeds.length = phases.length →
      ∃ fresh, ofPhases program seeds config = .ok fresh ∧
        (∀ turns, last.serve turns (.reseed seeds) = some (.ok .reseeded, fresh)) ∧
        ∀ turns later, last.serveAll turns (.reseed seeds :: later) =
          (fresh.serveAll turns later).map fun went => (.ok .reseeded :: went.1, went.2)) ∧
    (seeds.length ≠ phases.length →
      ∃ error, error.kind = .invalidArgument ∧ error.operation = "chain::reseed" ∧
        ∀ turns, last.serve turns (.reseed seeds) = some (.error error, last)) := by
  have positive : 0 < phases.length := by
    cases phases with
    | nil => cases built
    | cons phase rest => exact Nat.succ_pos _
  have descends := (descendsFrom_ofPhases built).serveAll positive served
  constructor
  · intro sized
    obtain ⟨fresh, builtFresh, reseeded, _⟩ := descends.exists_fresh positive sized
    have servedReseed : ∀ turns,
        last.serve turns (.reseed seeds) = some (.ok .reseeded, fresh) := fun turns => by
      simp only [serve, reseeded]
    exact ⟨fresh, builtFresh, servedReseed, fun turns later =>
      serveAll_cons_of_serve (servedReseed turns) later⟩
  · intro differ
    have unfit : seeds.length ≠ last.machines.length := descends.size_eq.symm ▸ differ
    obtain ⟨error, refused, kind, operation⟩ := reseed_of_length_ne unfit
    exact ⟨error, kind, operation, fun turns => by simp only [serve, refused]⟩

/-- A program that hands its input on if its phase setting is zero, and fails otherwise. -/
def moody : Program :=
  ⟨[3, 11, 1005, 11, 10, 3, 11, 4, 11, 99, 98, 0]⟩

/-- The settings of a machine that has no cells besides its program's. -/
def moodyConfig : Config :=
  { scratchCells := 0, underrun := .error }

/-- Calls of which the first fails at the second machine, and the last two fail too. -/
def moodyCalls : List ChainCall :=
  [.serial 7, .machines, .feedback 7, .reseed [0]]

/-- Two machines, one of which has halted and the other failed, are reseeded, after they refused a
single phase setting. -/
theorem moody_forgets : ∃ chain answers last fresh,
    ofPhases moody [0, 1] moodyConfig = .ok chain ∧
    chain.serveAll 5 moodyCalls = some (answers, last) ∧
    last.machines.map (·.state) = [.halted, .failed] ∧
    ofPhases moody [0, 0] moodyConfig = .ok fresh ∧
    last.serveAll 5 [.reseed [0, 0], .serial 4, .machines] =
      (fresh.serveAll 5 [.serial 4, .machines]).map
        (fun went => (.ok .reseeded :: went.1, went.2)) ∧
    ∃ error, error.kind = .invalidArgument ∧
      last.serve 5 (.reseed [0]) = some (.error error, last) := by
  have built : ofPhases moody [0, 1] moodyConfig =
      .ok ⟨[0, 1].map (amplifier moody moodyConfig)⟩ := rfl
  have came : ((⟨[0, 1].map (amplifier moody moodyConfig)⟩ : Chain).serveAll 5 moodyCalls).map
      (fun went => went.2.machines.map (·.state)) = some [.halted, .failed] := by decide +kernel
  obtain ⟨⟨answers, last⟩, served, states⟩ := Option.map_eq_some_iff.mp came
  obtain ⟨forgets, _⟩ := reseeding_forgets built served [0, 0]
  obtain ⟨_, refuses⟩ := reseeding_forgets built served [0]
  obtain ⟨fresh, rebuilt, _, later⟩ := forgets rfl
  obtain ⟨error, kind, _, refused⟩ := refuses (by decide)
  exact ⟨_, answers, last, fresh, built, served, states, rebuilt, later 5 _, error, kind,
    refused 5⟩

end Chain

end Intcode
