import Intcode.CommandLine.Perform
import Intcode.Proofs.BudgetedRuns

/-! # Commands that run a program

A run command prepares a machine and succeeds just when that machine halts, within the budget if
there is one (`RunCommand.outcome_eq_ok_iff`). What it prints then is settled by the machine that is
left (`RunCommand.succeeds_iff`): the values that a sink heard on the way and the closing. Whatever
was put out went to the sink of an interactive machine, and to the outbox of any other
(`RunCommand.outputs_of_outcome`). -/

namespace Intcode

namespace Bridge

theorem outbox_pop (bridge : Bridge) : bridge.pop.2.outbox = bridge.outbox := by
  unfold pop
  split <;> rfl

theorem outbox_ask (bridge : Bridge) : bridge.ask.2.outbox = bridge.outbox := by
  unfold ask
  split <;> rfl

/-- All output goes to a sink, and went there before. -/
structure Heard (bridge : Bridge) : Prop where
  sink : bridge.sink.isSome = true
  outbox : bridge.outbox = #[]

theorem Heard.pop {bridge : Bridge} (heard : bridge.Heard) : bridge.pop.2.Heard where
  sink := bridge.sink_pop.symm ▸ heard.sink
  outbox := bridge.outbox_pop.trans heard.outbox

theorem Heard.ask {bridge : Bridge} (heard : bridge.Heard) : bridge.ask.2.Heard where
  sink := bridge.sink_ask.symm ▸ heard.sink
  outbox := bridge.outbox_ask.trans heard.outbox

theorem Heard.emit {bridge : Bridge} (heard : bridge.Heard) (value : Word) :
    (bridge.emit value).Heard := by
  obtain ⟨tape, sink⟩ := Option.isSome_iff_exists.mp heard.sink
  unfold Bridge.emit
  rw [sink]
  exact ⟨rfl, heard.outbox⟩

end Bridge

namespace Machine

variable {m next final : Machine} {source : InputSource} {outcome : Except Error Step}
  {result : RunResult} {fuel : Nat}

theorem Executes.heard (executed : Executes source m outcome next) (heard : m.bridge.Heard) :
    next.bridge.Heard := by
  have supply {answer : Except Error (Option Word)} {bridge : Bridge}
      (supplied : m.nextInput source = (answer, { m with bridge })) : bridge.Heard := by
    rcases bridge_of_nextInput supplied with same | same
    · exact (show bridge = m.bridge.pop.2 from same) ▸ heard.pop
    · exact (show bridge = m.bridge.pop.2.ask.2 from same) ▸ heard.pop.ask
  cases executed with
  | emit planned => exact heard.emit _
  | read planned supplied place => exact supply supplied
  | wait planned supplied => exact supply supplied
  | underrun planned supplied => exact supply supplied
  | _ => exact heard

theorem heard_of_runToHalt (returned : m.runToHalt fuel [] = some (result, final))
    (heard : m.bridge.Heard) : final.bridge.Heard :=
  run_preserves (P := fun m => m.bridge.Heard) Executes.heard (fun _ holds => holds) returned heard
    ⟨heard.sink, heard.outbox⟩

theorem unheard_of_runToHalt (returned : m.runToHalt fuel [] = some (result, final))
    (unheard : m.bridge.sink = none) : final.bridge.sink = none :=
  run_preserves (P := fun m => m.bridge.sink = none) Executes.unheard (fun _ holds => holds)
    returned unheard unheard

theorem Finishes.delivered_eq {emitted : List Word} (finishes : m.Finishes emitted result final) :
    final.bridge.delivered = m.bridge.delivered ++ emitted := by
  obtain ⟨mid, goesOn, ends⟩ := finishes
  rw [ends.delivered_eq, goesOn.delivered_eq]

end Machine

namespace RunCommand

variable {options : RunCommand} {program : Program} {m final : Machine} {fuel : Nat}
  {threshold : Level} {quiet : Bool} {input : List UInt8} {text : String}

/-! ## Success -/

/-- A run command succeeds if its machine halts, within the budget if there is one. -/
theorem outcome_eq_ok_iff (live : m.state.isTerminal = false) (fresh : m.steps = 0) :
    options.outcome fuel m = some (.ok (), final) ↔
      ∃ needed value, m.runToHalt needed [] = some (.ok value, final) ∧
        match options.maxSteps with
        | some limit => final.steps ≤ limit.toNat
        | none => needed = fuel := by
  unfold outcome
  cases options.maxSteps with
  | none =>
      constructor
      · intro ended
        obtain ⟨⟨result, last⟩, returned, same⟩ := Option.map_eq_some_iff.mp ended
        cases result with
        | error error => cases same
        | ok value =>
            cases same
            exact ⟨fuel, value, returned, rfl⟩
      · rintro ⟨needed, value, returned, rfl⟩
        rw [returned]
        rfl
  | some limit =>
      have unspent : m.steps ≤ limit.toNat := fresh ▸ Nat.zero_le _
      have spends := Machine.spends_runWithin live unspent
      constructor
      · intro ended
        have ended : m.runWithin limit.toNat = (.ok (), final) := Option.some.inj ended
        have inside := spends.steps_le
        rw [ended] at spends inside
        cases spends with
        | halted goesOn halted within =>
            obtain ⟨needed, returned⟩ :=
              (Machine.runToHalt_returns_iff live).mpr ⟨_, _, goesOn, .halted halted⟩
            exact ⟨needed, _, returned, inside⟩
      · rintro ⟨needed, value, returned, inside⟩
        obtain ⟨emitted, finishes⟩ := (Machine.runToHalt_returns_iff live).mp ⟨needed, returned⟩
        obtain ⟨halts, same⟩ := spends.of_halts finishes inside
        exact congrArg some (Prod.ext halts same)

/-- The machine that a command runs, given the bytes of standard input. -/
def prepared (options : RunCommand) (program : Program) (input : List UInt8) : Machine :=
  options.machine program
    (if options.interactive then StandardInput.readings options.ascii input else [])

/-- What a command prints that leaves a machine. -/
def printed (options : RunCommand) (quiet : Bool) (program : Program) (final : Machine) : String :=
  options.banner quiet program ++ valuesText options.ascii (echoed final) ++
    options.closing quiet final

/-- A command succeeds and prints a text. -/
def Succeeds (transcript : Option Transcript) (text : String) : Prop :=
  ∃ done, transcript = some done ∧ done.exitCode = 0 ∧ done.stdout = text

theorem succeeds_iff :
    Succeeds (options.perform fuel threshold quiet program input) text ↔
      ∃ final, options.outcome fuel (options.prepared program input) = some (.ok (), final) ∧
        text = options.printed quiet program final := by
  constructor
  · rintro ⟨done, performed, succeeded, rfl⟩
    obtain ⟨⟨result, final⟩, ended, same⟩ := Option.map_eq_some_iff.mp performed
    cases result with
    | error error => cases same; cases succeeded
    | ok value =>
        cases same
        exact ⟨final, ended, rfl⟩
  · rintro ⟨final, ended, rfl⟩
    refine ⟨_, congrArg (Option.map _) ended, rfl, rfl⟩

/-- An invocation of a run command succeeds if its file holds a program and the machine that is
prepared for it halts. -/
theorem invocation_succeeds_iff {verbosity : Nat} {file : FileRead} :
    Succeeds (Invocation.perform ⟨.run options, verbosity, quiet⟩ fuel file input) text ↔
      ∃ program final, Program.ofFile options.file file = .ok program ∧
        options.outcome fuel (options.prepared program input) = some (.ok (), final) ∧
          text = options.printed quiet program final := by
  unfold Invocation.perform
  simp only [Command.file]
  cases read : Program.ofFile options.file file with
  | error error =>
      constructor
      · rintro ⟨done, ⟨⟩, failed, _⟩
        cases failed
      · rintro ⟨program, final, ⟨⟩, _⟩
  | ok program =>
      refine succeeds_iff.trans ⟨?_, ?_⟩
      · exact fun ⟨final, ended⟩ => ⟨program, final, rfl, ended⟩
      · rintro ⟨program, final, ⟨⟩, ended⟩
        exact ⟨final, ended⟩

/-! ## The machine that is prepared -/

/-- The values queued before the run. -/
def queued (options : RunCommand) : List Word :=
  options.input ++
    match options.asciiIn with
    | some text => text.toUTF8.toList.map fun byte => Int64.ofNat byte.toNat
    | none => []

/-- The machine with its input and without surroundings. -/
def fed (options : RunCommand) (program : Program) : Machine :=
  (Machine.ofProgram program options.config).feed options.queued

theorem prepared_of_batch (batch : options.interactive = false) :
    options.prepared program input = options.fed program := by
  unfold prepared machine fed queued
  rw [batch]
  cases options.asciiIn with
  | none => rw [List.append_nil]; rfl
  | some text => simp [Machine.feed, Machine.feedText, Bridge.feed]

theorem prepared_of_interactive (interactive : options.interactive = true) :
    options.prepared program input =
      ((options.fed program).setProvider
        ((StandardInput.readings options.ascii input).map (·.value))).setSink := by
  unfold prepared machine fed queued
  rw [interactive]
  cases options.asciiIn with
  | none => rw [List.append_nil]; rfl
  | some text => simp [Machine.feed, Machine.feedText, Bridge.feed]

theorem prepared_fresh (options : RunCommand) (program : Program) (input : List UInt8) :
    (options.prepared program input).state = .standby ∧
      (options.prepared program input).steps = 0 ∧
        (options.prepared program input).bridge.delivered = [] := by
  cases interactive : options.interactive with
  | false => rw [prepared_of_batch interactive]; exact ⟨rfl, rfl, rfl⟩
  | true => rw [prepared_of_interactive interactive]; exact ⟨rfl, rfl, rfl⟩

theorem prepared_outcome_iff :
    options.outcome fuel (options.prepared program input) = some (.ok (), final) ↔
      ∃ needed value, (options.prepared program input).runToHalt needed [] =
          some (.ok value, final) ∧
        match options.maxSteps with
        | some limit => final.steps ≤ limit.toNat
        | none => needed = fuel := by
  obtain ⟨standby, fresh, _⟩ := options.prepared_fresh program input
  exact outcome_eq_ok_iff (by rw [standby]; rfl) fresh

/-! ## Where output goes -/

theorem outputs_of_heard (heard : final.bridge.Heard) :
    echoed final = final.bridge.delivered ∧ outputs final = final.bridge.delivered := by
  obtain ⟨tape, sink⟩ := Option.isSome_iff_exists.mp heard.sink
  simp only [outputs, echoed, Bridge.delivered, sink, heard.outbox, Option.map_some,
    Option.getD_some, List.append_nil, and_self]

theorem outputs_of_unheard (unheard : final.bridge.sink = none) :
    echoed final = [] ∧ outputs final = final.bridge.delivered := by
  simp only [outputs, echoed, Bridge.delivered, unheard, Option.map_none, Option.getD_none,
    List.nil_append, and_self]

/-- A command that succeeded has echoed everything that was put out, or nothing if it is not
interactive. -/
theorem outputs_of_outcome
    (ended : options.outcome fuel (options.prepared program input) = some (.ok (), final)) :
    echoed final = (if options.interactive then final.bridge.delivered else []) ∧
      outputs final = final.bridge.delivered := by
  obtain ⟨needed, value, returned, _⟩ := prepared_outcome_iff.mp ended
  cases interactive : options.interactive with
  | false =>
      rw [prepared_of_batch interactive] at returned
      exact outputs_of_unheard (Machine.unheard_of_runToHalt returned rfl)
  | true =>
      rw [prepared_of_interactive interactive] at returned
      exact outputs_of_heard (Machine.heard_of_runToHalt returned ⟨rfl, rfl⟩)

/-- What was put out in the end is what the instructions put out on the way. -/
theorem finishes_of_outcome
    (ended : options.outcome fuel (options.prepared program input) = some (.ok (), final)) :
    (options.prepared program input).resumed.Finishes final.bridge.delivered
      (.ok final.lastOutput) final := by
  obtain ⟨needed, value, returned, _⟩ := prepared_outcome_iff.mp ended
  obtain ⟨standby, _, nothing⟩ := options.prepared_fresh program input
  obtain ⟨emitted, finishes⟩ :=
    (Machine.runToHalt_returns_iff (by rw [standby]; rfl)).mp ⟨needed, returned⟩
  have delivered : final.bridge.delivered = emitted := by
    rw [finishes.delivered_eq]
    exact congrArg (· ++ emitted) nothing
  rw [delivered]
  obtain ⟨mid, goesOn, ends⟩ := finishes
  cases ends with
  | output occasion _ => cases occasion
  | needsInput waits => exact absurd waits (Machine.policy_never_waits _ _)
  | halted halts =>
      have ends := Machine.Ends.halted halts
      exact ⟨mid, goesOn, ends⟩

end RunCommand

end Intcode
