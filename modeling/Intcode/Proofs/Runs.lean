import Intcode.Machine.Run
import Intcode.Proofs.Supply

/-! # Runs as sequences of instructions

A run goes on over some instructions (`Machine.GoesOn`), handing out values on its way, and ends
at one that halts, fails or is its occasion to hand back control (`Machine.Ends`). A run that was
given enough fuel returns exactly when there is such a sequence (`Machine.run_returns_iff`), and
more fuel does not change what it returns (`Machine.run_add`).

What the instructions of a run read and hand out is a row of values each (`Machine.Works`): what is
read comes off the queue's front, and what is handed out is delivered, in order. What every
instruction keeps, a whole call keeps (`Machine.run_preserves`, `Machine.step_preserves`). -/

namespace Intcode

section

variable {State Answer : Type} {turn : State → Option (Turn State Answer)} {state : State}
  {answer other : Answer}

/-- A repetition that answers does so at once or after its first turn. -/
theorem exists_iterate_iff :
    (∃ fuel, iterate turn fuel state = some answer) ↔
      turn state = some (.done answer) ∨
        ∃ next, turn state = some (.again next) ∧ ∃ fuel, iterate turn fuel next = some answer := by
  constructor
  · rintro ⟨fuel, found⟩
    cases fuel with
    | zero => cases found
    | succ fuel =>
        unfold iterate at found
        split at found
        · cases found
        · rename_i answered
          cases found
          exact .inl answered
        · rename_i next goesOn
          exact .inr ⟨next, goesOn, fuel, found⟩
  · rintro (answered | ⟨next, goesOn, fuel, found⟩)
    · exact ⟨1, by simp only [iterate, answered]⟩
    · exact ⟨fuel + 1, by simp only [iterate, goesOn, found]⟩

/-- A repetition answers the same when its turns come to the same wherever they have a result. -/
theorem iterate_mono {others : State → Option (Turn State Answer)}
    (kept : ∀ {state result}, turn state = some result → others state = some result)
    {fuel : Nat} (found : iterate turn fuel state = some answer) :
    iterate others fuel state = some answer := by
  induction fuel generalizing state with
  | zero => cases found
  | succ fuel ih =>
      unfold iterate at found ⊢
      split at found
      · cases found
      · rename_i answered
        rw [kept answered]
        exact found
      · rename_i next goesOn
        rw [kept goesOn]
        exact ih found

end

theorem State.halted_or_failed {state : State} (terminal : state.isTerminal = true) :
    state = .halted ∨ state = .failed := by
  cases state with
  | halted => exact .inl rfl
  | failed => exact .inr rfl
  | standby | running | paused => cases terminal

namespace Machine

variable {m mid last next final : Machine} {suspend : Suspend} {source : InputSource}
  {input reads outputs others : List Word} {result : RunResult}

/-- The machine at the start of a run. -/
def started (m : Machine) (input : List Word) : Machine :=
  { m.feed input with state := .running }

/-- The machine inside a run. -/
def resumed (m : Machine) : Machine :=
  { m with state := .running }

theorem started_nil (m : Machine) : m.started [] = m.resumed := by
  simp only [started, resumed, feed, Bridge.feed, List.append_nil]

/-- From one machine a run goes on to another, handing out some values on its way. -/
inductive GoesOn (suspend : Suspend) : Machine → List Word → Machine → Prop
  | here (m : Machine) : GoesOn suspend m [] m
  | executed {m next last : Machine} {outputs : List Word}
      (first : m.execute suspend.source = (.ok .executed, next))
      (rest : GoesOn suspend next outputs last) : GoesOn suspend m outputs last
  | output {m next last : Machine} {value : Word} {outputs : List Word}
      (unconcerned : suspend ≠ .onOutput)
      (first : m.execute suspend.source = (.ok (.output value), next))
      (rest : GoesOn suspend next outputs last) : GoesOn suspend m (value :: outputs) last

/-- The instruction at which a run ends, with the result and the machine that is handed back. -/
inductive Ends (suspend : Suspend) (m : Machine) : RunResult → Machine → Prop
  | output {value : Word} {next : Machine} (occasion : suspend = .onOutput)
      (ended : m.execute suspend.source = (.ok (.output value), next)) :
      Ends suspend m (.ok (some value)) { next with state := .paused }
  | needsInput {next : Machine} (ended : m.execute suspend.source = (.ok .needsInput, next)) :
      Ends suspend m (.ok next.lastOutput) { next with state := .paused }
  | halted {next : Machine} (ended : m.execute suspend.source = (.ok .halted, next)) :
      Ends suspend m (.ok next.lastOutput) { next with state := .halted }
  | failed {error : Error} {next : Machine}
      (ended : m.execute suspend.source = (.error error, next)) :
      Ends suspend m (.error (error.inOperation suspend.operation)) { next with state := .failed }

theorem GoesOn.trans (first : GoesOn suspend m outputs mid)
    (second : GoesOn suspend mid others last) : GoesOn suspend m (outputs ++ others) last := by
  induction first with
  | here m => exact second
  | executed executed _ ih => exact .executed executed (ih second)
  | output unconcerned executed _ ih => exact .output unconcerned executed (ih second)

/-! ## What instructions read and hand out -/

/-- From one machine instructions that are executed lead to another, reading some queued values and
handing out some values on the way. -/
inductive Works (source : InputSource) : Machine → List Word → List Word → Machine → Prop
  | here (m : Machine) : Works source m [] [] m
  | executed {m next last : Machine} {reads outputs : List Word}
      (first : m.execute source = (.ok .executed, next))
      (rest : Works source next reads outputs last) :
      Works source m (m.nextRead.toList ++ reads) outputs last
  | output {m next last : Machine} {value : Word} {reads outputs : List Word}
      (first : m.execute source = (.ok (.output value), next))
      (rest : Works source next reads outputs last) :
      Works source m (m.nextRead.toList ++ reads) (value :: outputs) last

theorem GoesOn.works (goesOn : GoesOn suspend m outputs last) :
    ∃ reads, Works suspend.source m reads outputs last := by
  induction goesOn with
  | here m => exact ⟨[], .here m⟩
  | executed first _ ih =>
      obtain ⟨reads, works⟩ := ih
      exact ⟨_, .executed first works⟩
  | output _ first _ ih =>
      obtain ⟨reads, works⟩ := ih
      exact ⟨_, .output first works⟩

theorem Works.preserves {P : Machine → Prop}
    (kept : ∀ {m next : Machine} {outcome : Except Error Step},
      Executes source m outcome next → P m → P next)
    (works : Works source m reads outputs last) (holds : P m) : P last := by
  induction works with
  | here m => exact holds
  | executed first _ ih => exact ih (kept (execute_eq_iff.mp first) holds)
  | output first _ ih => exact ih (kept (execute_eq_iff.mp first) holds)

/-- What was queued is what was read, followed by what is queued still. -/
theorem Works.queue_eq (works : Works source m reads outputs last) :
    m.bridge.input = reads ++ last.bridge.input := by
  induction works with
  | here m => rfl
  | executed first _ ih =>
      rw [(execute_eq_iff.mp first).queue_eq, ih, List.append_assoc]
  | output first _ ih =>
      rw [(execute_eq_iff.mp first).queue_eq, ih, List.append_assoc]

/-- What is handed out is delivered, in that order. -/
theorem Works.delivered_eq (works : Works source m reads outputs last) :
    last.bridge.delivered = m.bridge.delivered ++ outputs := by
  induction works with
  | here m => exact (List.append_nil _).symm
  | executed first _ ih =>
      rw [ih, (execute_eq_iff.mp first).delivered_eq]
      exact congrArg (· ++ _) (List.append_nil _)
  | output first _ ih =>
      rw [ih, (execute_eq_iff.mp first).delivered_eq, List.append_assoc]
      rfl

theorem GoesOn.preserves {P : Machine → Prop}
    (kept : ∀ {m next : Machine} {outcome : Except Error Step},
      Executes suspend.source m outcome next → P m → P next)
    (goesOn : GoesOn suspend m outputs last) (holds : P m) : P last := by
  obtain ⟨reads, works⟩ := goesOn.works
  exact works.preserves kept holds

theorem GoesOn.state_eq (goesOn : GoesOn suspend m outputs last) : last.state = m.state := by
  apply goesOn.preserves (P := fun mid => mid.state = m.state)
  · intro here next outcome executed same
    exact executed.state_eq.trans same
  · rfl

theorem GoesOn.alone (goesOn : GoesOn suspend m outputs last)
    (alone : m.bridge.provider = none) : last.bridge.provider = none := by
  apply goesOn.preserves _ alone
  intro here next outcome executed
  exact executed.alone

theorem GoesOn.delivered_eq (goesOn : GoesOn suspend m outputs last) :
    last.bridge.delivered = m.bridge.delivered ++ outputs := by
  obtain ⟨reads, works⟩ := goesOn.works
  exact works.delivered_eq

/-! ## Fuel -/

theorem stateAfterError_of_execute {error : Error}
    (failed : m.execute source = (.error error, next)) (operation : String) :
    stateAfterError (error.inOperation operation) = .failed := by
  have fatal : (error.inOperation operation).isFatal = true :=
    (execute_eq_iff.mp failed).error_ip.1
  simp only [stateAfterError, fatal, ↓reduceIte]

/-! ## Calls on a machine that has stopped -/

theorem step_of_halted (halted : m.state = .halted) : m.step = (.ok .halted, m) := by
  simp only [step, halted]

theorem step_of_failed (failed : m.state = .failed) :
    m.step = (.error (refusal "machine::step"), m) := by
  simp only [step, failed]

theorem run_of_halted (halted : m.state = .halted) (suspend : Suspend) (fuel : Nat)
    (input : List Word) : m.run suspend fuel input = some (.ok m.lastOutput, m) := by
  simp only [run, halted]

theorem run_of_failed (failed : m.state = .failed) (suspend : Suspend) (fuel : Nat)
    (input : List Word) :
    m.run suspend fuel input = some (.error (refusal suspend.operation), m) := by
  simp only [run, failed]

theorem eq_of_run_of_terminal {fuel : Nat} (terminal : m.state.isTerminal = true)
    (returned : m.run suspend fuel input = some (result, final)) : final = m := by
  rcases State.halted_or_failed terminal with halted | failed
  · rw [run_of_halted halted] at returned
    cases returned
    rfl
  · rw [run_of_failed failed] at returned
    cases returned
    rfl

/-! ## Calls on a machine that goes on -/

/-- The state a step leaves its machine in. -/
def stateAfterStep : Except Error Step → State
  | .ok .halted => .halted
  | .ok _ => .paused
  | .error _ => .failed

/-- A step of a machine that is not terminal is an instruction that may turn to the provider. -/
theorem step_of_live {outcome : Except Error Step} (live : m.state.isTerminal = false)
    (executed : m.resumed.execute .provider = (outcome, next)) :
    m.step = (outcome.mapError (·.inOperation "machine::step"),
      { next with state := stateAfterStep outcome }) := by
  have started : { m with state := .running }.execute .provider = (outcome, next) := executed
  unfold step
  split
  · rename_i halted
    rw [halted] at live
    cases live
  · rename_i failed
    rw [failed] at live
    cases live
  · rw [started]
    cases outcome with
    | error error =>
        dsimp only
        rw [stateAfterError_of_execute executed]
        rfl
    | ok step => cases step <;> rfl

theorem exists_execute_of_step {came : Except Error Step} (live : m.state.isTerminal = false)
    (stepped : m.step = (came, final)) :
    ∃ outcome next, m.resumed.execute .provider = (outcome, next) ∧
      came = outcome.mapError (·.inOperation "machine::step") ∧
      final = { next with state := stateAfterStep outcome } := by
  refine ⟨_, _, rfl, ?_⟩
  rw [step_of_live live rfl] at stepped
  cases stepped
  exact ⟨rfl, rfl⟩

theorem runTurn_done_iff :
    runTurn suspend m = .done (result, final) ↔ Ends suspend m result final := by
  constructor
  · intro turned
    unfold runTurn at turned
    split at turned
    · cases turned
    · rename_i executed
      split at turned
      · rename_i occasion
        cases turned
        exact .output occasion executed
      · cases turned
    · rename_i executed
      cases turned
      exact .needsInput executed
    · rename_i executed
      cases turned
      exact .halted executed
    · rename_i executed
      dsimp only at turned
      rw [stateAfterError_of_execute executed] at turned
      cases turned
      exact .failed executed
  · intro ends
    cases ends with
    | output occasion ended =>
        subst occasion
        simp only [runTurn, ended, ↓reduceIte]
    | needsInput ended => simp only [runTurn, ended]
    | halted ended => simp only [runTurn, ended]
    | failed ended => simp only [runTurn, ended, stateAfterError_of_execute ended]

/-- Turns reach an answer exactly by going on to an instruction that ends the run. -/
theorem exists_iterate_runTurn_iff :
    (∃ fuel, iterate (fun m => some (runTurn suspend m)) fuel m = some (result, final)) ↔
      ∃ outputs mid, GoesOn suspend m outputs mid ∧ Ends suspend mid result final := by
  constructor
  · rintro ⟨fuel, found⟩
    induction fuel generalizing m with
    | zero => cases found
    | succ fuel ih =>
        unfold iterate at found
        cases turned : runTurn suspend m with
        | done answer =>
            simp only [turned] at found
            cases found
            exact ⟨[], m, .here m, runTurn_done_iff.mp turned⟩
        | again next =>
            simp only [turned] at found
            obtain ⟨outputs, mid, goesOn, ends⟩ := ih found
            unfold runTurn at turned
            split at turned
            · rename_i executed
              cases turned
              exact ⟨outputs, mid, .executed executed goesOn, ends⟩
            · rename_i value after executed
              split at turned
              · cases turned
              · rename_i unconcerned
                cases turned
                exact ⟨value :: outputs, mid, .output unconcerned executed goesOn, ends⟩
            all_goals cases turned
  · rintro ⟨outputs, mid, goesOn, ends⟩
    induction goesOn with
    | here m =>
        exact exists_iterate_iff.mpr (.inl (congrArg some (runTurn_done_iff.mpr ends)))
    | executed first _ ih =>
        refine exists_iterate_iff.mpr (.inr ⟨_, ?_, ih ends⟩)
        simp only [runTurn, first]
    | output unconcerned first _ ih =>
        refine exists_iterate_iff.mpr (.inr ⟨_, ?_, ih ends⟩)
        simp only [runTurn, first, unconcerned, ↓reduceIte]

theorem run_of_live (live : m.state.isTerminal = false) (suspend : Suspend) (fuel : Nat)
    (input : List Word) :
    m.run suspend fuel input =
      iterate (fun m => some (runTurn suspend m)) fuel (m.started input) := by
  unfold run
  split
  · rename_i halted
    rw [halted] at live
    cases live
  · rename_i failed
    rw [failed] at live
    cases live
  · rfl

/-- **Runs.** A call returns exactly when its run goes on to an instruction that ends it. -/
theorem run_returns_iff (live : m.state.isTerminal = false) :
    (∃ fuel, m.run suspend fuel input = some (result, final)) ↔
      ∃ outputs mid, GoesOn suspend (m.started input) outputs mid ∧
        Ends suspend mid result final := by
  simp only [run_of_live live]
  exact exists_iterate_runTurn_iff

/-! ## What calls preserve -/

/-- What executing an instruction and marking the state keep, a run keeps. -/
theorem run_preserves {P : Machine → Prop}
    (kept : ∀ {m next : Machine} {outcome : Except Error Step},
      Executes suspend.source m outcome next → P m → P next)
    (marked : ∀ {m : Machine} (state : State), P m → P { m with state }) {fuel : Nat}
    (returned : m.run suspend fuel input = some (result, final)) (holds : P m)
    (fed : P (m.feed input)) : P final := by
  cases terminal : m.state.isTerminal with
  | true =>
      rw [eq_of_run_of_terminal terminal returned]
      exact holds
  | false =>
      obtain ⟨outputs, mid, goesOn, ends⟩ := (run_returns_iff terminal).mp ⟨fuel, returned⟩
      -- The run keeps it on its way, and so does the instruction at which it ends.
      have reached : P mid := goesOn.preserves kept (marked .running fed)
      cases ends with
      | output _ ended => exact marked _ (kept (execute_eq_iff.mp ended) reached)
      | needsInput ended => exact marked _ (kept (execute_eq_iff.mp ended) reached)
      | halted ended => exact marked _ (kept (execute_eq_iff.mp ended) reached)
      | failed ended => exact marked _ (kept (execute_eq_iff.mp ended) reached)

/-- What executing an instruction and marking the state keep, a step keeps. -/
theorem step_preserves {P : Machine → Prop}
    (kept : ∀ {m next : Machine} {outcome : Except Error Step},
      Executes .provider m outcome next → P m → P next)
    (marked : ∀ {m : Machine} (state : State), P m → P { m with state }) (holds : P m) :
    P m.step.2 := by
  cases terminal : m.state.isTerminal with
  | true =>
      rcases State.halted_or_failed terminal with halted | failed
      · rwa [step_of_halted halted]
      · rwa [step_of_failed failed]
  | false =>
      rw [step_of_live terminal rfl]
      exact marked _ (kept (m.resumed.executes .provider) (marked _ holds))

/-! ## More fuel -/

theorem run_add {fuel : Nat} {answer : RunResult × Machine}
    (found : m.run suspend fuel input = some answer) (more : Nat) :
    m.run suspend (fuel + more) input = some answer := by
  unfold run at found ⊢
  split at found
  · exact found
  · exact found
  · exact iterate_add found more

theorem run_unique {fuel more : Nat} {answer other : RunResult × Machine}
    (found : m.run suspend fuel input = some answer)
    (again : m.run suspend more input = some other) : answer = other := by
  have same := run_add again fuel
  rw [Nat.add_comm, run_add found more] at same
  cases same
  rfl

end Machine

end Intcode
