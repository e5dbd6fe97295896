import Intcode.Proofs.Runs

/-! # Failing calls

An instruction fails as a whole: it leaves its machine as the instruction before left it, but for a
refusal of the provider that it may have asked in vain (`Machine.Executes.struck`). Whatever the
error is, it stops the machine and says where. So a call that fails leaves the machine of the last
instruction that succeeded (`Machine.failing_calls_are_atomic`). -/

namespace Intcode

namespace Machine

variable {m next final sound : Machine} {source : InputSource} {suspend : Suspend} {error : Error}
  {operation : String}

/-- A call of an operation ended with an error at an instruction that did not succeed. The machine
before that instruction was `sound`, the one that is handed back is `final`. -/
structure Struck (operation : String) (sound : Machine) (error : Error) (final : Machine) :
    Prop where
  /-- Memory, settings, registers and the count of instructions are what they were. -/
  untouched : final = { sound with state := .failed, bridge := final.bridge }
  input : final.bridge.input = sound.bridge.input
  outbox : final.bridge.outbox = sound.bridge.outbox
  sink : final.bridge.sink = sound.bridge.sink
  lastOutput : final.lastOutput = sound.lastOutput
  /-- No provided value is lost: the provider was not asked, or it had none to give. -/
  provider : final.bridge = sound.bridge ∨ sound.bridge.ask = (none, final.bridge)
  fatal : error.isFatal = true
  located : error.contextValue? "ip" = some final.ip.text
  named : error.operation = operation

theorem Struck.failed (struck : Struck operation sound error final) : final.state = .failed :=
  congrArg Machine.state struck.untouched

theorem Struck.delivered_eq (struck : Struck operation sound error final) :
    final.bridge.delivered = sound.bridge.delivered := by
  simp only [Bridge.delivered, struck.sink, struck.outbox]

/-- An input instruction fails only when nothing is queued and the provider has no value. -/
theorem refused_of_nextInput (failed : m.nextInput source = (.error error, next)) :
    m.bridge.input = [] ∧ m.bridge.ask = (none, next.bridge) := by
  cases queued : m.bridge.input with
  | cons value rest =>
      rw [nextInput_of_queued queued] at failed
      cases failed
  | nil =>
      refine ⟨rfl, ?_⟩
      simp only [nextInput, Bridge.pop, queued] at failed
      cases source with
      | queue | provider => cases failed
      | policy =>
          dsimp only at failed
          split at failed
          · cases failed
          · rename_i refused
            rw [refused]
            split at failed
            · cases failed
            · cases failed
              rfl

/-- **An instruction fails as a whole.** -/
theorem Executes.struck (executed : Executes source m (.error error) next) (operation : String) :
    Struck operation m (error.inOperation operation) { next with state := .failed } := by
  obtain ⟨fatal, located⟩ := executed.error_ip
  have named : (error.inOperation operation).contextValue? "ip" = some next.ip.text :=
    (error.contextValue?_inOperation operation (by decide)).trans located
  cases executed with
  | fault planned =>
      exact
        { untouched := rfl, input := rfl, outbox := rfl, sink := rfl, lastOutput := rfl
          provider := .inl rfl, fatal, located := named, named := rfl }
  | @underrun instruction address bridge error planned supplied =>
      obtain ⟨_, refused⟩ := refused_of_nextInput supplied
      have left : bridge = m.bridge.ask.2 := (congrArg Prod.snd refused).symm
      have kept : bridge.input = m.bridge.input ∧ bridge.outbox = m.bridge.outbox ∧
          bridge.sink = m.bridge.sink ∧ bridge.lastOutput = m.bridge.lastOutput := by
        rw [left]
        unfold Bridge.ask
        split <;> exact ⟨rfl, rfl, rfl, rfl⟩
      obtain ⟨input, outbox, sink, lastOutput⟩ := kept
      exact
        { untouched := rfl, input, outbox, sink, lastOutput, provider := .inr refused, fatal
          located := named, named := rfl }

theorem Ends.struck (ends : Ends suspend m (.error error) final) :
    Struck suspend.operation m error final ∧
      ∃ cause, (m.execute suspend.source).1 = .error cause := by
  cases ends with
  | @failed cause next ended =>
      exact ⟨(execute_eq_iff.mp ended).struck _, cause, congrArg Prod.fst ended⟩

theorem struck_of_step (live : m.state.isTerminal = false)
    (returned : m.step = (.error error, final)) : Struck "machine::step" m error final := by
  obtain ⟨outcome, next, executed, reported, rfl⟩ := exists_execute_of_step live returned
  cases outcome with
  | ok step => cases reported
  | error cause =>
      cases reported
      -- Being marked as running is all that `m` lacks of the machine that executed.
      exact { (execute_eq_iff.mp executed).struck "machine::step" with }

/-- **Failing calls are atomic.** Let a machine that is not terminal be called and the call fail.
A single step leaves the machine as it was. A run leaves it as the last instruction left it that
succeeded; what was queued before the call and what the call queued have been read in part by such
instructions, and the rest is queued still. In either case the machine has failed, and the error
says at which instruction and in which call. -/
theorem failing_calls_are_atomic (live : m.state.isTerminal = false) :
    (∀ error final, m.step = (.error error, final) → Struck "machine::step" m error final) ∧
    ∀ suspend fuel input error final, m.run suspend fuel input = some (.error error, final) →
      ∃ reads outputs sound cause, Works suspend.source (m.started input) reads outputs sound ∧
        (sound.execute suspend.source).1 = .error cause ∧
        Struck suspend.operation sound error final ∧
        m.bridge.input ++ input = reads ++ final.bridge.input ∧
        final.bridge.delivered = m.bridge.delivered ++ outputs := by
  constructor
  · intro error final returned
    exact struck_of_step live returned
  · intro suspend fuel input error final returned
    obtain ⟨outputs, sound, goesOn, ends⟩ := (run_returns_iff live).mp ⟨fuel, returned⟩
    obtain ⟨reads, works⟩ := goesOn.works
    obtain ⟨struck, cause, stopped⟩ := ends.struck
    have queue : m.bridge.input ++ input = reads ++ final.bridge.input := by
      rw [struck.input]
      exact works.queue_eq
    have delivered : final.bridge.delivered = m.bridge.delivered ++ outputs := by
      rw [struck.delivered_eq]
      exact works.delivered_eq
    exact ⟨reads, outputs, sound, cause, works, stopped, struck, queue, delivered⟩

/-- A machine that reads a word into its first cell and then meets no instruction. -/
def stumbling : Machine :=
  ofProgram ⟨[3, 0, 77]⟩ { scratchCells := 0 }

/-- A run that is given two words reads one and fails at the cell that is no instruction, and so
does a step that is made there. -/
theorem stumbling_fails :
    (∃ error final, stumbling.run .never 2 [5, 6] = some (.error error, final) ∧
      final.state = .failed ∧ final.ip = 2 ∧ final.steps = 1 ∧ final.bridge.input = [6] ∧
      error.operation = "machine::run_to_halt") ∧
    ∃ error final, { stumbling with ip := 2 }.step = (.error error, final) ∧
      final.memory = stumbling.memory ∧ final.ip = 2 ∧ error.operation = "machine::step" := by
  constructor
  · obtain ⟨error, final, returned⟩ :
        ∃ error final, stumbling.run .never 2 [5, 6] = some (.error error, final) := ⟨_, _, rfl⟩
    obtain ⟨reads, outputs, sound, cause, works, stopped, struck, queue, delivered⟩ :=
      (failing_calls_are_atomic rfl).2 _ _ _ _ _ returned
    cases returned
    exact ⟨_, _, rfl, struck.failed, rfl, rfl, rfl, struck.named⟩
  · obtain ⟨error, final, returned⟩ :
        ∃ error final, { stumbling with ip := 2 }.step = (.error error, final) := ⟨_, _, rfl⟩
    have struck := (failing_calls_are_atomic rfl).1 error final returned
    have memory := congrArg Machine.memory struck.untouched
    have ip := congrArg Machine.ip struck.untouched
    exact ⟨error, final, returned, memory, ip, struck.named⟩

end Machine

end Intcode
