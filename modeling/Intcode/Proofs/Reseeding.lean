import Intcode.Proofs.ChainRuns

/-! # Resetting and reseeding forget

A machine keeps its program, the size of its memory and its settings through everything it does
(`Machine.DescendsFrom`), and that is all that resetting leaves of it. A machine that never had a
provider or a sink is therefore reset to the fresh machine over its program
(`Machine.DescendsFrom.reset_eq`), and a chain of such machines is reseeded to the fresh chain over
the new phase settings, whatever it went through before (`Chain.DescendsFrom.reseed_eq`). -/

namespace Intcode

namespace Bridge

theorem reset_emit {bridge : Bridge} (unheard : bridge.sink = none) (value : Word) :
    (bridge.emit value).reset = bridge.reset := by
  simp only [emit, reset, unheard]

theorem reset_pop (bridge : Bridge) : bridge.pop.2.reset = bridge.reset := by
  unfold pop
  split <;> rfl

end Bridge

namespace Memory

theorem reset_eq {memory : Memory} {scratch : Nat}
    (room : memory.capacity = memory.program.size + scratch) :
    memory.reset = ofProgram memory.program scratch := by
  unfold reset ofProgram
  simp only [room]

end Memory

namespace Machine

variable {program : Program} {config : Config} {m next final : Machine}

/-- A machine over a program under some settings that never had a provider or a sink. -/
structure DescendsFrom (program : Program) (config : Config) (m : Machine) : Prop where
  program_eq : m.program = program
  config_eq : m.config = config
  room : m.memory.capacity = program.size + config.scratchCells.toNat
  unattended : m.bridge.reset = {}

theorem descendsFrom_ofProgram (program : Program) (config : Config) :
    (ofProgram program config).DescendsFrom program config :=
  ⟨rfl, rfl, Memory.size_image (Nat.le_add_right _ _), rfl⟩

namespace DescendsFrom

variable (descends : m.DescendsFrom program config)

include descends

/-- **Resetting forgets.** All that is left is a fresh machine. -/
theorem reset_eq : m.reset = ofProgram program config := by
  obtain ⟨rfl, rfl, room, unattended⟩ := descends
  unfold reset ofProgram
  rw [unattended, Memory.reset_eq room]
  rfl

theorem sink_eq : m.bridge.sink = none :=
  congrArg Bridge.sink descends.unattended

theorem feed (values : List Word) : (m.feed values).DescendsFrom program config :=
  ⟨descends.program_eq, descends.config_eq, descends.room, descends.unattended⟩

theorem drained : m.drainOutput.2.DescendsFrom program config :=
  ⟨descends.program_eq, descends.config_eq, descends.room, descends.unattended⟩

theorem inState (state : State) : { m with state }.DescendsFrom program config :=
  ⟨descends.program_eq, descends.config_eq, descends.room, descends.unattended⟩

theorem executed {source : InputSource} {outcome : Except Error Step}
    (executed : Executes source m outcome next) : next.DescendsFrom program config := by
  refine ⟨executed.program_eq.trans descends.program_eq,
    executed.config_eq.trans descends.config_eq, executed.capacity_eq.trans descends.room, ?_⟩
  have supply {answer : Except Error (Option Word)} {bridge : Bridge}
      (supplied : m.nextInput source = (answer, { m with bridge })) : bridge.reset = {} := by
    have popped : m.bridge.pop.2.reset = {} := m.bridge.reset_pop.trans descends.unattended
    rcases bridge_of_nextInput supplied with same | same
    · exact (congrArg Bridge.reset same).trans popped
    · have alone : m.bridge.pop.2.provider = none := congrArg Bridge.provider popped
      rw [Bridge.ask_of_alone alone] at same
      exact (congrArg Bridge.reset same).trans popped
  cases executed with
  | emit planned => exact (Bridge.reset_emit descends.sink_eq _).trans descends.unattended
  | read planned supplied place => exact supply supplied
  | wait planned supplied => exact supply supplied
  | underrun planned supplied => exact supply supplied
  | _ => exact descends.unattended

theorem run {suspend : Suspend} {fuel : Nat} {input : List Word} {result : RunResult}
    (returned : m.run suspend fuel input = some (result, final)) :
    final.DescendsFrom program config :=
  run_preserves (P := (DescendsFrom program config ·)) (fun executed kept => kept.executed executed)
    (fun state kept => kept.inState state) returned descends (descends.feed input)

end DescendsFrom

end Machine

namespace Chain

variable {program : Program} {config : Config} {phases : List Word} {chain after : Chain}

/-- A chain of machines over a program under some settings, none of which ever had a provider or a
sink. -/
structure DescendsFrom (program : Program) (config : Config) (size : Nat) (chain : Chain) :
    Prop where
  size_eq : chain.machines.length = size
  machines : ∀ m ∈ chain.machines, m.DescendsFrom program config

theorem descendsFrom_ofPhases (built : ofPhases program phases config = .ok chain) :
    chain.DescendsFrom program config phases.length := by
  cases phases with
  | nil => cases built
  | cons phase rest =>
      cases built
      refine ⟨List.length_map _, ?_⟩
      intro m among
      obtain ⟨seed, _, rfl⟩ := List.mem_map.mp among
      exact (Machine.descendsFrom_ofProgram program config).feed [seed]

/-- **Reseeding forgets.** A chain is reseeded to the fresh chain over the new phase settings. -/
theorem DescendsFrom.reseed_eq (descends : chain.DescendsFrom program config phases.length)
    (nonempty : phases ≠ []) : chain.reseed phases = ofPhases program phases config := by
  have machines : List.zipWith (fun m phase => m.reset.feed [phase]) chain.machines phases =
      phases.map (amplifier program config) := by
    apply List.ext_getElem
    · rw [List.length_zipWith, List.length_map, descends.size_eq, Nat.min_self]
    · intro position first second
      rw [List.getElem_zipWith, List.getElem_map,
        (descends.machines _ (List.getElem_mem _)).reset_eq]
      rfl
  unfold reseed
  rw [if_pos descends.size_eq.symm, machines]
  cases phases with
  | nil => exact absurd rfl nonempty
  | cons phase rest => rfl

/-- Reseeding with as many phase settings as there are machines makes a fresh chain, which has as
many. -/
theorem DescendsFrom.exists_fresh {size : Nat} (descends : chain.DescendsFrom program config size)
    (positive : 0 < size) (sized : phases.length = size) :
    ∃ fresh, ofPhases program phases config = .ok fresh ∧ chain.reseed phases = .ok fresh ∧
      fresh.DescendsFrom program config size := by
  subst sized
  have nonempty : phases ≠ [] := List.length_pos_iff.mp positive
  rw [descends.reseed_eq nonempty]
  cases built : ofPhases program phases config with
  | ok fresh => exact ⟨fresh, rfl, rfl, descendsFrom_ofPhases built⟩
  | error error =>
      cases phases with
      | nil => exact absurd rfl nonempty
      | cons phase rest => cases built

/-- All of some machines descend alike. -/
def Descend (program : Program) (config : Config) (machines : List Machine) : Prop :=
  ∀ m ∈ machines, m.DescendsFrom program config

theorem descend_cons_iff {m : Machine} {rest : List Machine} :
    Descend program config (m :: rest) ↔ m.DescendsFrom program config ∧ Descend program config rest :=
  List.forall_mem_cons

theorem SerialPasses.descend {fuel index : Nat} {signal : Word} {machines left : List Machine}
    {result : Except Error Word} (passes : SerialPasses fuel index signal machines result left)
    (descend : Descend program config machines) :
    left.length = machines.length ∧ Descend program config left := by
  induction passes with
  | nothing => exact ⟨rfl, descend⟩
  | failed returned | silent returned =>
      obtain ⟨here, others⟩ := descend_cons_iff.mp descend
      exact ⟨rfl, descend_cons_iff.mpr ⟨here.run returned, others⟩⟩
  | onward returned _ ih =>
      obtain ⟨here, others⟩ := descend_cons_iff.mp descend
      obtain ⟨size, kept⟩ := ih others
      exact ⟨congrArg (· + 1) size, descend_cons_iff.mpr ⟨(here.run returned).drained, kept⟩⟩

theorem FeedbackPasses.descend {fuel index : Nat} {signal : Word} {machines left : List Machine}
    {turn : Turn Word (Except Error Word)}
    (passes : FeedbackPasses fuel index signal machines turn left)
    (descend : Descend program config machines) :
    left.length = machines.length ∧ Descend program config left := by
  induction passes with
  | nothing => exact ⟨rfl, descend⟩
  | failed returned =>
      obtain ⟨here, others⟩ := descend_cons_iff.mp descend
      exact ⟨rfl, descend_cons_iff.mpr ⟨here.run returned, others⟩⟩
  | settled returned _ _ | silent returned _ _ =>
      obtain ⟨here, others⟩ := descend_cons_iff.mp descend
      exact ⟨rfl, descend_cons_iff.mpr ⟨(here.run returned).drained, others⟩⟩
  | onward returned _ _ ih =>
      obtain ⟨here, others⟩ := descend_cons_iff.mp descend
      obtain ⟨size, kept⟩ := ih others
      exact ⟨congrArg (· + 1) size, descend_cons_iff.mpr ⟨(here.run returned).drained, kept⟩⟩

theorem DescendsFrom.runSerial {size fuel : Nat} {signal : Word} {result : Except Error Word}
    (descends : chain.DescendsFrom program config size)
    (returned : chain.runSerial fuel signal = some (result, after)) :
    after.DescendsFrom program config size := by
  obtain ⟨rfl, machines⟩ := descends
  unfold Chain.runSerial at returned
  split at returned
  · cases returned
  · rename_i passed
    cases returned
    obtain ⟨size, kept⟩ := (serialPass_iff.mp passed).descend machines
    exact ⟨size, kept⟩

theorem descends_feedback {fuel turns : Nat} {signal : Word} {machines : List Machine}
    {result : Except Error Word}
    (returned : iterate (feedbackTurn fuel) turns (signal, machines) = some (result, after))
    (descend : Descend program config machines) :
    after.DescendsFrom program config machines.length := by
  induction turns generalizing signal machines with
  | zero => cases returned
  | succ turns ih =>
      rcases feedback_cases returned with
        ⟨fewer, turn, left, same, passed, ⟨next, rfl, rest⟩ | ⟨rfl, rfl⟩⟩
      · cases same
        obtain ⟨size, kept⟩ := (feedbackPass_iff.mp passed).descend descend
        rw [← size]
        exact ih rest kept
      · obtain ⟨size, kept⟩ := (feedbackPass_iff.mp passed).descend descend
        exact ⟨size, kept⟩

theorem DescendsFrom.runFeedback {size fuel : Nat} {signal : Word} {result : Except Error Word}
    (descends : chain.DescendsFrom program config size)
    (returned : chain.runFeedback fuel signal = some (result, after)) :
    after.DescendsFrom program config size := by
  obtain ⟨rfl, machines⟩ := descends
  exact descends_feedback returned machines

theorem DescendsFrom.runFromZero {size fuel : Nat} {feedback : Bool} {result : Except Error Word}
    (descends : chain.DescendsFrom program config size)
    (returned : chain.runFromZero fuel feedback = some (result, after)) :
    after.DescendsFrom program config size := by
  cases feedback with
  | true => exact descends.runFeedback returned
  | false => exact descends.runSerial returned

end Chain

end Intcode
