import Intcode.Proofs.Runs

/-! # Pausing and resuming

A machine without a provider can be driven by any calls that queue nothing: single steps, runs to
the next output, runs to the next input, runs to the end. Each call is a stretch of the one run
that is never interrupted (`Machine.Returns.stretch`). So once the machine has stopped for good, it
is the machine that one run to the end would have left, with the same failure if it failed, and
running from output to output passes through that run one output at a time. -/

namespace Intcode

/-- The error of a result that failed. -/
def failure? {α : Type} : Except Error α → Option Error
  | .error error => some error
  | .ok _ => none

/-- What an error says whichever call reports it: kind, message and instruction pointer. -/
def Error.gist (error : Error) : ErrorKind × String × Option String :=
  (error.kind, error.message, error.contextValue? "ip")

theorem Error.gist_inOperation (error : Error) (operation : String) :
    (error.inOperation operation).gist = error.gist := by
  have kept : (error.inOperation operation).contextValue? "ip" = error.contextValue? "ip" :=
    error.contextValue?_inOperation operation (by decide)
  simp only [gist, kept]
  rfl

/-- A call that drives a machine without queueing anything. -/
inductive Call
  | step
  | run (suspend : Suspend)

/-- What a call reports when it does not fail. -/
inductive Report
  | step (step : Step)
  | value (value : Option Word)

namespace Machine

variable {m mid next final : Machine} {suspend : Suspend} {source : InputSource} {call : Call}
  {answer : Except Error Report} {result : RunResult} {outputs : List Word}
  {history : List (Call × Except Error Report)}

/-- A call returns an answer and leaves a machine. -/
inductive Returns (m : Machine) : Call → Except Error Report → Machine → Prop
  | ofStep : Returns m .step (m.step.1.map .step) m.step.2
  | ofRun {suspend : Suspend} {fuel : Nat} {result : RunResult} {next : Machine}
      (found : m.run suspend fuel [] = some (result, next)) :
      Returns m (.run suspend) (result.map .value) next

/-- Calls made one after the other, each with its answer. -/
inductive Calls : Machine → List (Call × Except Error Report) → Machine → Prop
  | nothing (m : Machine) : Calls m [] m
  | andThen {m next final : Machine} {call : Call} {answer : Except Error Report}
      {history : List (Call × Except Error Report)} (first : m.Returns call answer next)
      (rest : Calls next history final) : Calls m ((call, answer) :: history) final

/-- The error of the first call that failed. -/
def firstFailure? (history : List (Call × Except Error Report)) : Option Error :=
  history.findSome? fun (_, answer) => failure? answer

/-! ## Calls on a machine that has stopped -/

theorem Returns.of_halted (halted : m.state = .halted) (returned : m.Returns call answer next) :
    next = m ∧ failure? answer = none := by
  cases returned with
  | ofStep =>
      rw [step_of_halted halted]
      exact ⟨rfl, rfl⟩
  | ofRun found =>
      rw [run_of_halted halted] at found
      cases found
      exact ⟨rfl, rfl⟩

theorem Returns.of_failed (failed : m.state = .failed) (returned : m.Returns call answer next) :
    next = m := by
  cases returned with
  | ofStep => rw [step_of_failed failed]
  | ofRun found =>
      rw [run_of_failed failed] at found
      cases found
      rfl

theorem Calls.of_halted (calls : Calls m history final) (halted : m.state = .halted) :
    final = m ∧ firstFailure? history = none := by
  induction calls with
  | nothing m => exact ⟨rfl, rfl⟩
  | andThen first rest ih =>
      obtain ⟨rfl, fine⟩ := first.of_halted halted
      obtain ⟨same, others⟩ := ih halted
      refine ⟨same, ?_⟩
      simpa only [firstFailure?, List.findSome?_cons, fine] using others

theorem Calls.of_failed (calls : Calls m history final) (failed : m.state = .failed) :
    final = m := by
  induction calls with
  | nothing m => rfl
  | andThen first rest ih =>
      cases first.of_failed failed
      exact ih failed

/-! ## A call as a stretch of the uninterrupted run -/

theorem resumed_paused {state : State} (running : m.state = .running) :
    { m with state }.resumed = m := by
  unfold resumed
  rw [← running]

/-- The uninterrupted run, from a machine inside it, ends with a result and a machine. -/
def Finishes (m : Machine) (outputs : List Word) (result : RunResult) (final : Machine) : Prop :=
  ∃ mid, GoesOn .never m outputs mid ∧ Ends .never mid result final

theorem runToHalt_returns_iff (live : m.state.isTerminal = false) :
    (∃ fuel, m.runToHalt fuel [] = some (result, final)) ↔
      ∃ outputs, m.resumed.Finishes outputs result final := by
  rw [← started_nil]
  exact run_returns_iff live

/-- Without a provider an instruction executed under any source is one of the uninterrupted run,
unless it was left waiting. -/
theorem execute_policy_of_execute {outcome : Except Error Step}
    (alone : m.bridge.provider = none) (executed : m.execute source = (outcome, next)) :
    m.execute .policy = (outcome, next) ∨ outcome = .ok .needsInput ∧ next = m := by
  rcases execute_eq_policy_or_waits alone source with same | waits
  · exact .inl (same.symm.trans executed)
  · rw [waits] at executed
    cases executed
    exact .inr ⟨rfl, rfl⟩

theorem GoesOn.toNever (goesOn : GoesOn suspend m outputs mid)
    (alone : m.bridge.provider = none) : GoesOn .never m outputs mid := by
  induction goesOn with
  | here m => exact .here m
  | executed first _ ih =>
      rcases execute_policy_of_execute alone first with same | ⟨absurd, _⟩
      · exact .executed same (ih ((execute_eq_iff.mp first).alone alone))
      · cases absurd
  | output _ first _ ih =>
      rcases execute_policy_of_execute alone first with same | ⟨absurd, _⟩
      · exact .output (by decide) same (ih ((execute_eq_iff.mp first).alone alone))
      · cases absurd

/-- What a call that leaves the machine at `next` has done of the uninterrupted run from `m`: it
went on to `next`, to be resumed there, or it finished with a failure of the same gist or none. -/
inductive Stretch (m : Machine) (failure : Option Error) (next : Machine) : Prop
  | further (outputs : List Word) (live : next.state.isTerminal = false) (fine : failure = none)
      (goesOn : GoesOn .never m outputs next.resumed)
  | finished (outputs : List Word) {result : RunResult} (stopped : next.state.isTerminal = true)
      (finishes : m.Finishes outputs result next)
      (gist : failure.map Error.gist = (failure? result).map Error.gist)

theorem Stretch.after {failure : Option Error} (goesOn : GoesOn .never m outputs mid)
    (stretch : mid.Stretch failure next) : m.Stretch failure next := by
  cases stretch with
  | further outputs live fine rest => exact .further _ live fine (goesOn.trans rest)
  | finished outputs stopped finishes gist =>
      obtain ⟨last, rest, ends⟩ := finishes
      exact .finished _ stopped ⟨last, goesOn.trans rest, ends⟩ gist

theorem Ends.stretch (ends : Ends suspend m result next) (running : m.state = .running)
    (alone : m.bridge.provider = none) : m.Stretch (failure? result) next := by
  cases ends with
  | @output value after occasion ended =>
      have kept : after.state = .running := (execute_eq_iff.mp ended).state_eq.trans running
      rcases execute_policy_of_execute alone ended with same | ⟨absurd, _⟩
      · have goesOn : GoesOn .never m [value] after := .output (by decide) same (.here after)
        refine .further [value] rfl rfl ?_
        rwa [resumed_paused kept]
      · cases absurd
  | needsInput ended =>
      rcases execute_policy_of_execute alone ended with same | ⟨_, rfl⟩
      · exact absurd same (policy_never_waits _ _)
      · refine .further [] rfl rfl ?_
        rw [resumed_paused running]
        exact .here _
  | halted ended =>
      rcases execute_policy_of_execute alone ended with same | ⟨absurd, _⟩
      · exact .finished [] rfl ⟨m, .here m, .halted same⟩ rfl
      · cases absurd
  | failed ended =>
      rcases execute_policy_of_execute alone ended with same | ⟨absurd, _⟩
      · refine .finished [] rfl ⟨m, .here m, .failed same⟩ ?_
        simp only [failure?, Option.map_some, Error.gist_inOperation]
      · cases absurd

theorem stretch_of_step (live : m.state.isTerminal = false) (alone : m.bridge.provider = none) :
    m.resumed.Stretch (failure? m.step.1) m.step.2 := by
  have alone : m.resumed.bridge.provider = none := alone
  cases executed : m.resumed.execute .provider with
  | mk outcome after =>
      rw [step_of_live live executed]
      have kept : after.state = .running := (execute_eq_iff.mp executed).state_eq
      rcases execute_policy_of_execute alone executed with same | ⟨rfl, rfl⟩
      · cases outcome with
        | error error =>
            refine .finished [] rfl ⟨_, .here _, .failed same⟩ ?_
            exact congrArg some ((error.gist_inOperation _).trans (error.gist_inOperation _).symm)
        | ok step =>
            cases step with
            | halted => exact .finished [] rfl ⟨_, .here _, .halted same⟩ rfl
            | needsInput => exact absurd same (policy_never_waits _ _)
            | executed =>
                have goesOn : GoesOn .never m.resumed [] after := .executed same (.here after)
                refine .further [] rfl rfl ?_
                rwa [resumed_paused kept]
            | output value =>
                have goesOn : GoesOn .never m.resumed [value] after :=
                  .output (by decide) same (.here after)
                refine .further [value] rfl rfl ?_
                rwa [resumed_paused kept]
      · exact .further [] rfl rfl (.here _)

/-- **A call is a stretch** of the uninterrupted run. -/
theorem Returns.stretch (returned : m.Returns call answer next)
    (live : m.state.isTerminal = false) (alone : m.bridge.provider = none) :
    m.resumed.Stretch (failure? answer) next := by
  cases returned with
  | ofStep =>
      have same : failure? (m.step.1.map Report.step) = failure? m.step.1 := by
        cases m.step.1 <;> rfl
      rw [same]
      exact stretch_of_step live alone
  | @ofRun suspend fuel result next found =>
      have same : failure? (result.map Report.value) = failure? result := by
        cases result <;> rfl
      obtain ⟨outputs, mid, goesOn, ends⟩ := (run_returns_iff live).mp ⟨fuel, found⟩
      rw [started_nil] at goesOn
      rw [same]
      exact (ends.stretch goesOn.state_eq (goesOn.alone alone)).after (goesOn.toNever alone)

theorem Ends.stopped (ends : Ends .never m result final) : final.state.isTerminal = true := by
  cases ends with
  | output occasion ended => cases occasion
  | needsInput ended => exact absurd ended (policy_never_waits _ _)
  | halted ended => rfl
  | failed ended => rfl

theorem Ends.delivered_eq (ends : Ends .never m result final) :
    final.bridge.delivered = m.bridge.delivered := by
  cases ends with
  | output occasion ended => cases occasion
  | needsInput ended => exact absurd ended (policy_never_waits _ _)
  | halted ended => exact (execute_eq_iff.mp ended).delivered_eq.trans (List.append_nil _)
  | failed ended => exact (execute_eq_iff.mp ended).delivered_eq.trans (List.append_nil _)

theorem Ends.state_ne_failed (ends : Ends suspend m result final)
    (fine : failure? result = none) : final.state ≠ .failed := by
  cases ends with
  | failed ended => cases fine
  | _ => exact State.noConfusion

/-- Any number of calls make a stretch of the uninterrupted run. -/
theorem Calls.stretch (calls : Calls m history final) (live : m.state.isTerminal = false)
    (alone : m.bridge.provider = none) : m.resumed.Stretch (firstFailure? history) final := by
  induction calls with
  | nothing m => exact .further [] live rfl (.here _)
  | @andThen m next final call answer history first rest ih =>
      cases first.stretch live alone with
      | further outputs nextLive fine goesOn =>
          have later : firstFailure? ((call, answer) :: history) = firstFailure? history := by
            simp only [firstFailure?, List.findSome?_cons, fine]
          rw [later]
          exact (ih nextLive (goesOn.alone alone)).after goesOn
      | finished outputs stopped finishes gist =>
          obtain ⟨mid, goesOn, ends⟩ := finishes
          cases fails : failure? answer with
          | some error =>
              have here : firstFailure? ((call, answer) :: history) = some error := by
                simp only [firstFailure?, List.findSome?_cons, fails]
              have same : final = next := by
                rcases State.halted_or_failed stopped with halted | failed
                · exact (rest.of_halted halted).1
                · exact rest.of_failed failed
              rw [here, same, ← fails]
              exact .finished outputs stopped ⟨mid, goesOn, ends⟩ gist
          | none =>
              rw [fails] at gist
              have halts : next.state = .halted := by
                have unfailed := ends.state_ne_failed (Option.map_eq_none_iff.mp gist.symm)
                rcases State.halted_or_failed stopped with halted | failed
                · exact halted
                · exact absurd failed unfailed
              obtain ⟨same, fine⟩ := rest.of_halted halts
              have later : firstFailure? ((call, answer) :: history) = none := by
                simpa only [firstFailure?, List.findSome?_cons, fails] using fine
              rw [later, same]
              exact .finished outputs stopped ⟨mid, goesOn, ends⟩ gist

/-! ## From output to output -/

/-- Running from output to output passes through the uninterrupted run: each call returns the
next value handed out. -/
theorem GoesOn.outputCalls {start : Machine} (goesOn : GoesOn .never start outputs mid)
    (live : m.state.isTerminal = false) (silent : GoesOn .onOutput m.resumed [] start) :
    ∃ last, Calls m (outputs.map fun value => (.run .onOutput, .ok (.value (some value)))) last ∧
      last.state.isTerminal = false ∧ GoesOn .onOutput last.resumed [] mid := by
  -- By induction on the run, with the calls that are left to make before its next output.
  induction goesOn generalizing m with
  | here start => exact ⟨m, .nothing m, live, silent⟩
  | @executed start next last outputs first _ ih =>
      have onward : GoesOn .onOutput start [] next := .executed first (.here next)
      exact ih live (silent.trans onward)
  | @output start next last value outputs _ first _ ih =>
      have running : next.state = .running :=
        (execute_eq_iff.mp first).state_eq.trans silent.state_eq
      have again : GoesOn .onOutput { next with state := .paused }.resumed [] next := by
        rw [resumed_paused running]
        exact .here next
      rw [← started_nil] at silent
      obtain ⟨fuel, found⟩ := (run_returns_iff live).mpr ⟨[], start, silent, .output rfl first⟩
      obtain ⟨final, calls, finalLive, finalSilent⟩ :=
        ih (m := { next with state := .paused }) rfl again
      exact ⟨final, .andThen (.ofRun found) calls, finalLive, finalSilent⟩

/-- The instruction that ends the uninterrupted run ends a run to the next output alike. -/
theorem Ends.toOnOutput (ends : Ends .never m result final) :
    ∃ answer, Ends .onOutput m answer final ∧ answer.toOption = result.toOption ∧
      (failure? answer).map Error.gist = (failure? result).map Error.gist := by
  cases ends with
  | output occasion ended => cases occasion
  | needsInput ended => exact ⟨_, .needsInput ended, rfl, rfl⟩
  | halted ended => exact ⟨_, .halted ended, rfl, rfl⟩
  | failed ended =>
      refine ⟨_, .failed ended, rfl, ?_⟩
      simp only [failure?, Option.map_some, Error.gist_inOperation]

theorem Ends.error_ip {error : Error} (ends : Ends suspend m (.error error) final) :
    error.contextValue? "ip" = some final.ip.text := by
  cases ends with
  | @failed cause next ended =>
      have gist := congrArg (·.2.2) (cause.gist_inOperation suspend.operation)
      exact gist.trans (execute_eq_iff.mp ended).error_ip.2

/-- **Pausing changes nothing.** Let a machine that is not terminal have no provider. Calls that
queue nothing, in any order, and that leave it halted or failed leave the very machine that one
run to the end leaves, with everything in it, its queue and what it put out included; and the
first failure among them, if there is one, has the gist of the failure of that run.

Conversely, when the run to the end returns, having put out some values on its way, then running
to the next output returns these values one after the other, leaves the machine resumable each
time, and with one more call leaves the machine of the run to the end. -/
theorem calls_agree_with_one_run (live : m.state.isTerminal = false)
    (alone : m.bridge.provider = none) :
    (∀ history final, Calls m history final → final.state.isTerminal = true →
      ∃ fuel result, m.runToHalt fuel [] = some (result, final) ∧
        (firstFailure? history).map Error.gist = (failure? result).map Error.gist ∧
        ∀ error, result = .error error → error.contextValue? "ip" = some final.ip.text) ∧
    ∀ fuel result final, m.runToHalt fuel [] = some (result, final) →
      final.state.isTerminal = true ∧
      ∃ outputs last, final.bridge.delivered = m.bridge.delivered ++ outputs ∧
        Calls m (outputs.map fun value => (.run .onOutput, .ok (.value (some value)))) last ∧
        last.state.isTerminal = false ∧
        ∃ fuel answer, last.runUntilOutput fuel [] = some (answer, final) ∧
          answer.toOption = result.toOption ∧
          (failure? answer).map Error.gist = (failure? result).map Error.gist := by
  constructor
  · intro history final calls stopped
    cases calls.stretch live alone with
    | further outputs finalLive _ _ => rw [stopped] at finalLive; cases finalLive
    | @finished outputs result _ finishes gist =>
        obtain ⟨fuel, found⟩ := (runToHalt_returns_iff live).mpr ⟨outputs, finishes⟩
        obtain ⟨mid, _, ends⟩ := finishes
        refine ⟨fuel, result, found, gist, ?_⟩
        intro error failed
        subst failed
        exact ends.error_ip
  · intro fuel result final found
    obtain ⟨outputs, mid, goesOn, ends⟩ := (runToHalt_returns_iff live).mp ⟨fuel, found⟩
    obtain ⟨last, calls, lastLive, silent⟩ := goesOn.outputCalls live (.here m.resumed)
    obtain ⟨answer, answered, value, gist⟩ := ends.toOnOutput
    rw [← started_nil] at silent
    obtain ⟨enough, returned⟩ := (run_returns_iff lastLive).mpr ⟨[], mid, silent, answered⟩
    have delivered : final.bridge.delivered = m.bridge.delivered ++ outputs :=
      ends.delivered_eq.trans goesOn.delivered_eq
    exact ⟨ends.stopped, outputs, last, delivered, calls, lastLive, enough, answer, returned, value,
      gist⟩

/-- A machine that puts out five, reads a word into its first cell and halts. -/
def talkative : Machine :=
  ofProgram ⟨[104, 5, 3, 0, 99]⟩ { scratchCells := 0 }

/-- A step past the output, a run to the input that is missing and a run that underruns there
leave the machine of one run. -/
theorem talkative_calls_agree :
    talkative.state.isTerminal = false ∧ talkative.bridge.provider = none ∧
      ∃ history final, history.length = 3 ∧ Calls talkative history final ∧
        final.state.isTerminal = true ∧
        ∃ fuel result, talkative.runToHalt fuel [] = some (result, final) ∧
          (firstFailure? history).map Error.gist = (failure? result).map Error.gist := by
  have calls : ∃ history final, history.length = 3 ∧ Calls talkative history final ∧
      final.state.isTerminal = true := by
    have toInput := @Returns.ofRun talkative.step.2 .onInput 1 _ _ rfl
    exact ⟨_, _, rfl, .andThen .ofStep (.andThen toInput
      (.andThen (@Returns.ofRun _ .onOutput 2 _ _ rfl) (.nothing _))), rfl⟩
  obtain ⟨history, final, three, calls, stopped⟩ := calls
  obtain ⟨fuel, result, found, gist, _⟩ :=
    (calls_agree_with_one_run rfl rfl).1 history final calls stopped
  exact ⟨rfl, rfl, history, final, three, calls, stopped, fuel, result, found, gist⟩

end Machine

end Intcode
