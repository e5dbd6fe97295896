import Intcode.Proofs.CommandRuns
import Intcode.Proofs.Erasure

/-! # Interactive runs and batch runs

A provider that has nothing to say is as good as none, and a sink hears what would else be put into
the outbox. So machines do the same that are the same once their output is gathered in the outbox
and an exhausted provider is dropped (`Machine.erasure_gathered`). An interactive command that finds
nothing on standard input therefore does what the same command does in a batch, and since values are
printed one after the other either way, it prints the same
(`RunCommand.interactive_agrees_with_batch`). -/

namespace Intcode

namespace Bridge

/-- The bridge with its output in the outbox, and without a provider that has nothing to say. -/
def gathered (bridge : Bridge) : Bridge :=
  { bridge with
    outbox := bridge.delivered.toArray
    provider := if bridge.provider = some [] then none else bridge.provider
    asked := 0
    sink := none
    oldTapes := [] }

theorem delivered_gathered (bridge : Bridge) : bridge.gathered.delivered = bridge.delivered := by
  simp only [gathered, delivered, List.toList_toArray]

theorem erasure_gathered : Erasure gathered where
  settled bridge := by
    by_cases exhausted : bridge.provider = some [] <;> simp [gathered, delivered, exhausted]
  lastOutput_eq _ := rfl
  feed _ _ := rfl
  pop bridge := by cases queued : bridge.input <;> simp [pop, gathered, queued, delivered]
  ask bridge := by
    cases registered : bridge.provider with
    | none => simp [ask, gathered, registered, delivered]
    | some answers => cases answers <;> simp [ask, gathered, registered, delivered]
  emit bridge value := by cases sink : bridge.sink <;> simp [emit, gathered, sink, delivered]

end Bridge

namespace Machine

/-- The machine with its output in the outbox, and without a provider that has nothing to say. -/
def gathered (m : Machine) : Machine :=
  { m with bridge := m.bridge.gathered }

/-- Where output is gathered, and whether a provider that has nothing to say is asked, has no part
in what a machine does. -/
theorem erasure_gathered : Erasure gathered :=
  Bridge.erasure_gathered.machine id (fun _ => rfl) fun _ => rfl

end Machine

namespace RunCommand

variable {options : RunCommand} {program : Program} {final : Machine} {fuel : Nat} {quiet : Bool}

/-! ## Printing -/

theorem valuesText_nil (ascii : Bool) : valuesText ascii [] = "" := by
  rw [valuesText, List.map_nil, String.join_nil]

theorem valuesText_append (ascii : Bool) (front back : List Word) :
    valuesText ascii (front ++ back) = valuesText ascii front ++ valuesText ascii back := by
  simp only [valuesText, List.map_append, String.join_append]

/-- Printing values one after the other, as they come, prints the row of them. -/
theorem foldl_valuesText (ascii : Bool) (text : String) (values : List Word) :
    values.foldl (fun printed value => printed ++ valuesText ascii [value]) text =
      text ++ valuesText ascii values := by
  induction values generalizing text with
  | nil => rw [List.foldl_nil, valuesText_nil, String.append_empty]
  | cons value rest ih =>
      rw [List.foldl_cons, ih, String.append_assoc, ← valuesText_append, List.singleton_append]

/-- A command without a report prints the values that were put out between its banner and its count
of steps, whether it is interactive or not. -/
theorem printed_of_plain {input : List UInt8} (plain : options.json = false)
    (ended : options.outcome fuel (options.prepared program input) = some (.ok (), final)) :
    options.printed quiet program final =
      options.banner quiet program ++ valuesText options.ascii final.bridge.delivered ++
        if quiet then "" else "\nHalted after " ++ Text.natText final.steps ++ " steps\n" := by
  obtain ⟨echo, put⟩ := outputs_of_outcome ended
  unfold printed closing
  rw [plain, echo, put]
  cases options.interactive with
  | false =>
      simp only [Bool.false_eq_true, ↓reduceIte, valuesText_nil, String.append_empty,
        String.append_assoc]
  | true => simp only [Bool.false_eq_true, ↓reduceIte, String.empty_append]

/-! ## Interactive commands -/

/-- The same command, interactive. -/
def interactively (options : RunCommand) : RunCommand :=
  { options with interactive := true }

/-- Without anything on standard input the machine of an interactive command is the one of the
batch, its output gathered. -/
theorem prepared_interactively (program : Program) (batch : options.interactive = false) :
    (options.interactively.prepared program []).gathered =
      (options.prepared program []).gathered := by
  have silent (ascii : Bool) : (StandardInput.readings ascii []).map (·.value) = [] := by
    cases ascii <;> rfl
  rw [prepared_of_batch batch, prepared_of_interactive rfl, silent]
  rfl

/-- If the command succeeds in a batch it succeeds interactively, and it leaves the same machine,
its output gathered. -/
theorem outcome_interactively (batch : options.interactive = false)
    (ended : options.outcome fuel (options.prepared program []) = some (.ok (), final)) :
    ∃ last, options.interactively.outcome fuel (options.interactively.prepared program []) =
        some (.ok (), last) ∧ last.gathered = final.gathered := by
  obtain ⟨needed, value, returned, inside⟩ := prepared_outcome_iff.mp ended
  have alike := Machine.erasure_gathered.run (prepared_interactively program batch)
    .never needed []
  rw [show (options.prepared program []).run .never needed [] = _ from returned] at alike
  obtain ⟨⟨result, last⟩, ran, same⟩ := Option.map_eq_some_iff.mp alike
  obtain ⟨rfl, left⟩ := Prod.mk.inj same
  have steps : last.steps = final.steps := (congrArg Machine.steps left :)
  refine ⟨last, prepared_outcome_iff.mpr ⟨needed, value, ran, ?_⟩, left⟩
  rw [steps]
  exact inside

/-- **Interactive runs agree with batch runs.** Let a command without a report succeed in a batch.
The same command succeeds interactively when there is nothing on standard input, and it prints the
very same. Printing values one at a time, as they come, is printing the row of them. -/
theorem interactive_agrees_with_batch {verbosity : Nat} {file : FileRead} {transcript : Transcript}
    (batch : options.interactive = false) (plain : options.json = false)
    (performed : Invocation.perform ⟨.run options, verbosity, quiet⟩ fuel file [] = some transcript)
    (succeeded : transcript.exitCode = 0) :
    (∃ other, Invocation.perform ⟨.run options.interactively, verbosity, quiet⟩ fuel file [] =
        some other ∧ other.exitCode = 0 ∧ other.stdout = transcript.stdout) ∧
      ∀ ascii values, values.foldl (fun printed value => printed ++ valuesText ascii [value]) "" =
        valuesText ascii values := by
  refine ⟨?_, fun ascii values => ?_⟩
  · obtain ⟨program, final, read, ended, printed⟩ :=
      invocation_succeeds_iff.mp ⟨transcript, performed, succeeded, rfl⟩
    obtain ⟨last, endedToo, same⟩ := outcome_interactively batch ended
    have delivered : last.bridge.delivered = final.bridge.delivered := by
      rw [← last.bridge.delivered_gathered, ← final.bridge.delivered_gathered]
      exact (congrArg (fun m : Machine => m.bridge.delivered) same :)
    have steps : last.steps = final.steps := (congrArg Machine.steps same :)
    refine invocation_succeeds_iff.mpr ⟨program, last, read, endedToo, ?_⟩
    rw [printed, printed_of_plain plain ended,
      printed_of_plain (show options.interactively.json = false from plain) endedToo, delivered,
      steps]
    rfl
  · rw [foldl_valuesText, String.empty_append]

/-- A command over a program that reads a word and puts out an H, the word and a thousand. -/
def greeter : RunCommand :=
  { file := "greeter", ascii := true, scratch := some 0, maxSteps := some 5 }

def greeterText : ByteArray :=
  "3,9,104,72,4,9,104,1000,99,0".toUTF8

/-- Five instructions are as many as are allowed; the word is a zero either way. -/
theorem greeter_agrees :
    greeter.interactive = false ∧ greeter.json = false ∧
      ∃ transcript, Invocation.perform ⟨.run greeter, 0, false⟩ 0 (.ok greeterText) [] =
          some transcript ∧
        transcript.exitCode = 0 ∧
        transcript.stdout =
          "Running greeter (10 cells)\n\nH\x001000\n\nHalted after 5 steps\n" ∧
        ∃ other, Invocation.perform ⟨.run greeter.interactively, 0, false⟩ 0 (.ok greeterText) [] =
            some other ∧
          other.exitCode = 0 ∧ other.stdout = transcript.stdout := by
  have ran : (Invocation.perform ⟨.run greeter, 0, false⟩ 0 (.ok greeterText) []).map
      (fun transcript => (transcript.exitCode, transcript.stdout)) =
        some (0, "Running greeter (10 cells)\n\nH\x001000\n\nHalted after 5 steps\n") := by
    decide +kernel
  obtain ⟨transcript, performed, same⟩ := Option.map_eq_some_iff.mp ran
  obtain ⟨succeeded, printed⟩ := Prod.mk.inj same
  exact ⟨rfl, rfl, transcript, performed, succeeded, printed,
    (interactive_agrees_with_batch rfl rfl performed succeeded).1⟩

end RunCommand

end Intcode
