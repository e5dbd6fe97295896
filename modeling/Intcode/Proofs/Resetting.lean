import Intcode.Proofs.Operations
import Intcode.Proofs.Reseeding

/-! # Resetting a machine that has callbacks

Whatever is done to a machine, it keeps the program and the settings it was built with and the size
of its memory (`Machine.BuiltFrom`). Nothing else stays when it is reset but the callbacks, each as
far as it has come, so what follows is what would follow on a fresh machine that carries those
callbacks (`Machine.reset_is_fresh`).

A machine that never had callbacks is reset to a fresh machine outright
(`Machine.DescendsFrom.reset_eq`). -/

namespace Intcode

namespace Machine

variable {program : Program} {config : Config} {m next final : Machine} {fuel : Nat}

/-- The machine with the callbacks of a bridge in place of its own, as far as they have come: the
answers the provider has left and the tapes of the sinks. -/
def carrying (m : Machine) (callbacks : Bridge) : Machine :=
  { m with
    bridge :=
      { m.bridge with
        provider := callbacks.provider
        asked := callbacks.asked
        sink := callbacks.sink
        oldTapes := callbacks.oldTapes } }

/-- A machine over a program under some settings, with memory of the size they ask for. -/
structure BuiltFrom (program : Program) (config : Config) (m : Machine) : Prop where
  program_eq : m.program = program
  config_eq : m.config = config
  room : m.memory.capacity = program.size + config.scratchCells.toNat

theorem builtFrom_ofProgram (program : Program) (config : Config) :
    (ofProgram program config).BuiltFrom program config :=
  ⟨rfl, rfl, Memory.size_image (Nat.le_add_right _ _)⟩

namespace BuiltFrom

theorem executed {source : InputSource} {outcome : Except Error Step}
    (executed : Executes source m outcome next) (built : m.BuiltFrom program config) :
    next.BuiltFrom program config :=
  ⟨executed.program_eq.trans built.program_eq, executed.config_eq.trans built.config_eq,
    executed.capacity_eq.trans built.room⟩

variable (built : m.BuiltFrom program config)

include built

theorem inState (state : State) : { m with state }.BuiltFrom program config :=
  ⟨built.program_eq, built.config_eq, built.room⟩

theorem bridged (bridge : Bridge) : { m with bridge }.BuiltFrom program config :=
  ⟨built.program_eq, built.config_eq, built.room⟩

theorem patched (index : Fin m.memory.cells.size) (value : Word) :
    { m with memory := m.memory.put index value }.BuiltFrom program config :=
  ⟨built.program_eq, built.config_eq, (Array.size_set index.isLt).trans built.room⟩

theorem reset : m.reset.BuiltFrom program config :=
  ⟨built.program_eq, built.config_eq, (Memory.size_image m.memory.program_fits).trans built.room⟩

/-- A machine is reset to a fresh one that carries its callbacks. -/
theorem reset_eq : m.reset = (ofProgram program config).carrying m.bridge := by
  obtain ⟨rfl, rfl, room⟩ := built
  unfold Machine.reset
  rw [Memory.reset_eq room]
  rfl

theorem perform {operation : Operation} {answer : Except Error Answer}
    (performed : m.perform fuel operation = some (answer, next)) :
    next.BuiltFrom program config :=
  perform_preserves (P := (BuiltFrom program config ·)) BuiltFrom.executed
    (fun state built => built.inState state) (fun bridge built => built.bridged bridge)
    (fun index value built => built.patched index value) (fun built => built.reset) performed built

theorem performAll {operations : List Operation} {answers : List (Except Error Answer)}
    (performed : m.performAll fuel operations = some (answers, final)) :
    final.BuiltFrom program config :=
  performAll_preserves (P := (BuiltFrom program config ·))
    (fun first built => built.perform first) performed built

end BuiltFrom

/-- **Resetting.** Let anything be done to a fresh machine, and then let it be reset. It is then the
fresh machine that carries the callbacks the machine had, as far as they had come. So everything
that is done further gives the same answers and leaves the same machine as on that one. The
program, the settings and the size of memory are those of construction, before and after. -/
theorem reset_is_fresh {operations : List Operation} {answers : List (Except Error Answer)}
    (performed : (ofProgram program config).performAll fuel operations = some (answers, m)) :
    m.reset = (ofProgram program config).carrying m.bridge ∧
    (∀ turns later, m.reset.performAll turns later =
      ((ofProgram program config).carrying m.bridge).performAll turns later) ∧
    (m.program = program ∧ m.config = config ∧
      m.memory.capacity = program.size + config.scratchCells.toNat) ∧
    m.reset.program = program ∧ m.reset.config = config ∧
      m.reset.memory.capacity = program.size + config.scratchCells.toNat := by
  have built := (builtFrom_ofProgram program config).performAll performed
  have fresh := built.reset
  refine ⟨built.reset_eq, ?_, ⟨built.program_eq, built.config_eq, built.room⟩,
    fresh.program_eq, fresh.config_eq, fresh.room⟩
  intro turns later
  rw [built.reset_eq]

/-- A program that reads a word over its first cell, puts it out and fails. -/
def faltering : Program :=
  ⟨[3, 0, 4, 0, 98]⟩

/-- A session in which a machine with callbacks is patched, runs and fails. -/
def falteringSession : List Operation :=
  [.setProvider [some 7, some 9], .setSink, .poke 5 1, .run .never []]

/-- When it is reset it goes on with the second answer of its provider. -/
theorem faltering_is_reset :
    ∃ answers m, (ofProgram faltering { scratchCells := 1 }).performAll 3 falteringSession =
        some (answers, m) ∧
      m.state = .failed ∧ m.bridge.provider = some [some 9] ∧ m.bridge.sink = some #[7] ∧
      m.reset = (ofProgram faltering { scratchCells := 1 }).carrying m.bridge ∧
      (m.reset.performAll 3 [.run .onOutput []]).map Prod.fst =
        some [.ok (.value (some 9))] := by
  have evaluated : ((ofProgram faltering { scratchCells := 1 }).performAll 3 falteringSession).map
      (fun went => (went.2.state, went.2.bridge.provider, went.2.bridge.sink)) =
        some (.failed, some [some 9], some #[7]) := by decide +kernel
  have goesOn : ((ofProgram faltering { scratchCells := 1 }).performAll 3 falteringSession).bind
      (fun went => (went.2.reset.performAll 3 [.run .onOutput []]).map Prod.fst) =
        some [.ok (.value (some 9))] := by decide +kernel
  obtain ⟨⟨answers, m⟩, performed, came⟩ := Option.map_eq_some_iff.mp evaluated
  simp only [Prod.mk.injEq] at came
  obtain ⟨failed, provider, sink⟩ := came
  rw [performed, Option.bind_some] at goesOn
  exact ⟨answers, m, performed, failed, provider, sink, (reset_is_fresh performed).1, goesOn⟩

end Machine

end Intcode
