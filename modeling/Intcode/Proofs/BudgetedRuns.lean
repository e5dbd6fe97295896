import Intcode.Machine.Budget
import Intcode.Proofs.PauseResume

/-! # Runs within a budget

A budgeted run makes single steps, for as long as fewer instructions than its limit have been
executed. A step that finds no input executes nothing: the run then feeds a zero and steps again, or
ends. Either way it gets to where the instruction would have got in a run that is never interrupted
(`Machine.budgetStep_of_ok`, `Machine.budgetStep_of_error`), so a budgeted run follows that run
until the budget is spent (`Machine.spends_runWithin`). -/

namespace Intcode

namespace Machine

variable {m mid next last final : Machine} {limit : Nat} {result : RunResult}
  {outcome : Except Error Unit} {outputs others : List Word} {step : Step} {error : Error}
  {answer : Except Error Unit × Machine}

/-! ## Step by step -/

/-- One step of a budgeted run. -/
def budgetTurn (limit : Nat) (m : Machine) : Turn Machine (Except Error Unit × Machine) :=
  if m.steps < limit then
    match m.step with
    | (.error error, m) => .done (.error error, m)
    | (.ok .halted, m) => .done (.ok (), m)
    | (.ok .needsInput, m) =>
        match m.config.underrun with
        | .error => .done (.error ((Error.inputUnderrun m.ip).inOperation "cli::run"), m)
        | .zero => .again (m.feed [0])
    | (.ok _, m) => .again m
  else .done (.error (budgetSpent limit m), m)

/-- Step by step a budgeted run ends, and with this answer. -/
def Loops (limit : Nat) (m : Machine) (answer : Except Error Unit × Machine) : Prop :=
  ∃ fuel, iterate (fun m => some (budgetTurn limit m)) fuel m = some answer

theorem Loops.of_done (turned : budgetTurn limit m = .done answer) : Loops limit m answer :=
  exists_iterate_iff.mpr (.inl (congrArg some turned))

theorem Loops.of_again (turned : budgetTurn limit m = .again next)
    (loops : Loops limit next answer) : Loops limit m answer :=
  exists_iterate_iff.mpr (.inr ⟨next, congrArg some turned, loops⟩)

/-- A step that does not halt or fail leaves its machine paused, and is counted unless it waits. -/
theorem of_step_ok (stepped : m.step = (.ok step, next)) (unhalted : step ≠ .halted) :
    next.state = .paused ∧ next.steps = m.steps + counts (.ok step) := by
  cases terminal : m.state.isTerminal with
  | true =>
      rcases State.halted_or_failed terminal with halted | failed
      · rw [step_of_halted halted] at stepped
        cases stepped
        exact absurd rfl unhalted
      · rw [step_of_failed failed] at stepped
        cases stepped
  | false =>
      obtain ⟨outcome, after, executed, reported, rfl⟩ := exists_execute_of_step terminal stepped
      cases outcome with
      | error error => cases reported
      | ok came =>
          cases reported
          refine ⟨?_, (execute_eq_iff.mp executed).steps_eq⟩
          cases step with
          | halted => exact absurd rfl unhalted
          | _ => rfl

/-- A machine that has just been fed does not wait. -/
theorem step_feed_ne_needsInput (paused : m.state = .paused) (value : Word)
    (stepped : (m.feed [value]).step = (.ok step, next)) : step ≠ .needsInput := by
  rintro rfl
  have live : (m.feed [value]).state.isTerminal = false := congrArg State.isTerminal paused
  have nonempty : m.bridge.input ++ [value] ≠ [] := by simp
  obtain ⟨oldest, rest, queued⟩ := List.exists_cons_of_ne_nil nonempty
  have queuedThere : (m.feed [value]).resumed.bridge.input = oldest :: rest := queued
  obtain ⟨outcome, after, executed, reported, _⟩ := exists_execute_of_step live stepped
  cases outcome with
  | error error => cases reported
  | ok came =>
      cases reported
      exact ne_needsInput_of_queued queuedThere executed rfl

/-- How a step that does not wait decides a budgeted run, if it does. -/
def verdict : Except Error Step → Option (Except Error Unit)
  | .error error => some (.error error)
  | .ok .halted => some (.ok ())
  | .ok _ => none

/-- An instruction of a budgeted run is one step, a step that waits in vain, or a step that waits
and one that reads a zero. -/
inductive Tries (m : Machine) : Option (Except Error Unit) → Machine → Prop
  | once {came : Except Error Step} {decision : Option (Except Error Unit)} {next : Machine}
      (stepped : m.step = (came, next)) (unwaiting : came ≠ .ok .needsInput)
      (decides : verdict came = decision) : Tries m decision next
  | inVain {next : Machine} (stepped : m.step = (.ok .needsInput, next))
      (strict : next.config.underrun = .error) :
      Tries m (some (.error ((Error.inputUnderrun next.ip).inOperation "cli::run"))) next
  | twice {came : Except Error Step} {decision : Option (Except Error Unit)} {mid next : Machine}
      (stepped : m.step = (.ok .needsInput, mid)) (lenient : mid.config.underrun = .zero)
      (again : (mid.feed [0]).step = (came, next)) (unwaiting : came ≠ .ok .needsInput)
      (decides : verdict came = decision) : Tries m decision next

theorem tries_of_budgetStep {decision : Option (Except Error Unit)}
    (tried : m.budgetStep = (decision, next)) : Tries m decision next := by
  unfold budgetStep at tried
  cases stepped : m.step with
  | mk came mid =>
      rw [stepped] at tried
      cases came with
      | error error =>
          cases tried
          exact .once stepped nofun rfl
      | ok step =>
          cases step with
          | needsInput =>
              obtain ⟨paused, _⟩ := of_step_ok stepped nofun
              dsimp only at tried
              cases underrun : mid.config.underrun with
              | error =>
                  rw [underrun] at tried
                  cases tried
                  exact .inVain stepped underrun
              | zero =>
                  rw [underrun] at tried
                  cases again : (mid.feed [0]).step with
                  | mk came last =>
                      rw [again] at tried
                      cases came with
                      | error error =>
                          cases tried
                          exact .twice stepped underrun again nofun rfl
                      | ok step =>
                          have unwaiting : step ≠ .needsInput :=
                            step_feed_ne_needsInput paused 0 again
                          cases step with
                          | needsInput => exact absurd rfl unwaiting
                          | _ =>
                              cases tried
                              exact .twice stepped underrun again nofun rfl
          | _ =>
              cases tried
              exact .once stepped nofun rfl

theorem budgetTurn_of_step {came : Except Error Step} (within : m.steps < limit)
    (stepped : m.step = (came, next)) (unwaiting : came ≠ .ok .needsInput) :
    budgetTurn limit m =
      match verdict came with
      | some outcome => .done (outcome, next)
      | none => .again next := by
  simp only [budgetTurn, within, stepped, ↓reduceIte]
  cases came with
  | error error => rfl
  | ok step =>
      cases step with
      | needsInput => exact absurd rfl unwaiting
      | _ => rfl

theorem budgetTurn_of_wait (within : m.steps < limit) (stepped : m.step = (.ok .needsInput, mid))
    (lenient : mid.config.underrun = .zero) :
    budgetTurn limit m = .again (mid.feed [0]) ∧ (mid.feed [0]).steps = m.steps := by
  constructor
  · simp only [budgetTurn, within, stepped, lenient, ↓reduceIte]
  · exact (of_step_ok stepped nofun).2

/-- An instruction that ends a budgeted run ends it step by step. -/
theorem Tries.ended (tries : Tries m (some outcome) next) (within : m.steps < limit) :
    Loops limit m (outcome, next) := by
  cases tries with
  | once stepped unwaiting decides =>
      apply Loops.of_done
      rw [budgetTurn_of_step within stepped unwaiting, decides]
  | inVain stepped strict =>
      exact .of_done (by simp only [budgetTurn, within, stepped, strict, ↓reduceIte])
  | @twice came _ mid _ stepped lenient again unwaiting decides =>
      obtain ⟨turned, same⟩ := budgetTurn_of_wait within stepped lenient
      apply Loops.of_again turned
      apply Loops.of_done
      rw [budgetTurn_of_step (by rwa [same]) again unwaiting, decides]

/-- An instruction that does not end a budgeted run is counted, and step by step the run gets past.
-/
theorem Tries.goesOn (tries : Tries m none next) (within : m.steps < limit) :
    next.steps = m.steps + 1 ∧
      ∀ answer, Loops limit next answer → Loops limit m answer := by
  have counted {m : Machine} {came : Except Error Step} (stepped : m.step = (came, next))
      (unwaiting : came ≠ .ok .needsInput) (decides : verdict came = none) :
      next.steps = m.steps + 1 := by
    cases came with
    | error error => cases decides
    | ok step =>
        cases step with
        | halted => cases decides
        | needsInput => exact absurd rfl unwaiting
        | executed | output value => exact (of_step_ok stepped nofun).2
  cases tries with
  | once stepped unwaiting decides =>
      refine ⟨counted stepped unwaiting decides, fun _ => Loops.of_again ?_⟩
      rw [budgetTurn_of_step within stepped unwaiting, decides]
  | @twice came _ mid _ stepped lenient again unwaiting decides =>
      obtain ⟨turned, same⟩ := budgetTurn_of_wait within stepped lenient
      refine ⟨(counted again unwaiting decides).trans (congrArg (· + 1) same), ?_⟩
      intro answer loops
      apply Loops.of_again turned
      apply Loops.of_again _ loops
      rw [budgetTurn_of_step (by rwa [same]) again unwaiting, decides]

/-- Step by step a budgeted run always ends, with the machine and the outcome of `runWithin`. -/
theorem loops_runWithin (limit : Nat) (m : Machine) : Loops limit m (m.runWithin limit) := by
  -- By induction on how many instructions are left of the budget.
  unfold runWithin
  generalize left : limit - m.steps = remaining
  induction remaining generalizing m with
  | zero =>
      have spent : ¬ m.steps < limit := by omega
      exact .of_done (by simp only [budgetTurn, spent, ↓reduceIte, runRemaining])
  | succ remaining ih =>
      have within : m.steps < limit := by omega
      unfold runRemaining
      cases tried : m.budgetStep with
      | mk decision next =>
          cases decision with
          | some outcome => exact (tries_of_budgetStep tried).ended within
          | none =>
              obtain ⟨counted, further⟩ := (tries_of_budgetStep tried).goesOn within
              have less : limit - next.steps = remaining := by omega
              exact further _ (ih next less)

/-! ## The uninterrupted run -/

/-- An instruction of a budgeted run is a step that turns to the provider and gets to where the
uninterrupted run gets, which applies the underrun policy; or both underrun. -/
theorem Tries.cases_policy {decision : Option (Except Error Unit)} (tries : Tries m decision next)
    (live : m.state.isTerminal = false) :
    (∃ here : Machine, ∃ came, here.state.isTerminal = false ∧
      here.resumed.execute .provider = m.resumed.execute .policy ∧ here.step = (came, next) ∧
      verdict came = decision) ∨
    ∃ after, m.resumed.execute .policy = (.error (Error.inputUnderrun m.ip), after) ∧
      decision = some (.error ((Error.inputUnderrun m.ip).inOperation "cli::run")) ∧
      next = { after with state := .paused } := by
  have refused {mid : Machine} (stepped : m.step = (.ok .needsInput, mid)) :
      ∃ instruction address bridge, m.resumed.plan = .ok (instruction, .input address) ∧
        m.resumed.bridge.input = [] ∧ m.resumed.bridge.ask = (none, bridge) ∧
        mid = { m with state := .paused, bridge } := by
    obtain ⟨outcome, after, executed, reported, rfl⟩ := exists_execute_of_step live stepped
    cases outcome with
    | error error => cases reported
    | ok came =>
        cases reported
        rcases m.resumed.execute_provider_eq_policy_or_refused with
          same | ⟨instruction, address, bridge, planned, empty, refused, waits⟩
        · exact absurd (same.symm.trans executed) (policy_never_waits _ _)
        · rw [executed] at waits
          cases waits
          exact ⟨instruction, address, bridge, planned, empty, refused, rfl⟩
  cases tries with
  | @once came _ _ stepped unwaiting decides =>
      rcases m.resumed.execute_provider_eq_policy_or_refused with same | ⟨_, _, _, _, _, _, waits⟩
      · exact .inl ⟨m, came, live, same, stepped, decides⟩
      · rw [step_of_live live waits] at stepped
        cases stepped
        exact absurd rfl unwaiting
  | inVain stepped strict =>
      obtain ⟨instruction, address, bridge, planned, empty, refusal, rfl⟩ := refused stepped
      exact .inr ⟨_, execute_policy_of_refused planned empty refusal strict, rfl, rfl⟩
  | @twice came _ mid _ stepped lenient again unwaiting decides =>
      obtain ⟨instruction, address, bridge, planned, empty, refusal, rfl⟩ := refused stepped
      have same := execute_policy_of_refused_lenient planned empty refusal lenient .provider
      refine .inl ⟨{ m with state := .paused, bridge }.feed [0], came, rfl, ?_, again, decides⟩
      exact same.symm

/-- A budgeted run goes on where the uninterrupted run goes on, and halts where that halts. -/
theorem budgetStep_of_ok (live : m.state.isTerminal = false)
    (executed : m.resumed.execute .policy = (.ok step, next)) :
    m.budgetStep = (verdict (.ok step), { next with state := stateAfterStep (.ok step) }) := by
  cases tried : m.budgetStep with
  | mk decision last =>
      rcases (tries_of_budgetStep tried).cases_policy live with
        ⟨here, came, liveHere, same, stepped, rfl⟩ | ⟨after, underran, _, _⟩
      · rw [executed] at same
        rw [step_of_live liveHere same] at stepped
        cases stepped
        rfl
      · rw [executed] at underran
        cases underran

/-- A budgeted run fails where the uninterrupted run fails, and with the same gist. -/
theorem budgetStep_of_error (live : m.state.isTerminal = false)
    (failed : m.resumed.execute .policy = (.error error, next)) :
    ∃ other state, m.budgetStep = (some (.error other), { next with state }) ∧
      other.gist = error.gist := by
  cases tried : m.budgetStep with
  | mk decision last =>
      rcases (tries_of_budgetStep tried).cases_policy live with
        ⟨here, came, liveHere, same, stepped, rfl⟩ | ⟨after, underran, rfl, rfl⟩
      · rw [failed] at same
        rw [step_of_live liveHere same] at stepped
        cases stepped
        exact ⟨_, _, rfl, error.gist_inOperation _⟩
      · rw [failed] at underran
        cases underran
        exact ⟨_, _, rfl, Error.gist_inOperation _ _⟩

/-- What a budgeted run comes to: the uninterrupted run has got to where the budget is spent, or has
ended within the budget. -/
inductive Spends (limit : Nat) (m : Machine) : Except Error Unit → Machine → Prop
  | all {outputs : List Word} {last : Machine}
      (goesOn : GoesOn .never m.resumed outputs last.resumed) (spent : last.steps = limit) :
      Spends limit m (.error (budgetSpent limit last)) last
  | halted {outputs : List Word} {mid next : Machine} (goesOn : GoesOn .never m.resumed outputs mid)
      (ended : mid.execute .policy = (.ok .halted, next)) (within : mid.steps < limit) :
      Spends limit m (.ok ()) { next with state := .halted }
  | failed {outputs : List Word} {mid next : Machine} {error other : Error} {state : State}
      (goesOn : GoesOn .never m.resumed outputs mid)
      (ended : mid.execute .policy = (.error error, next)) (within : mid.steps < limit)
      (gist : other.gist = error.gist) :
      Spends limit m (.error other) { next with state }

theorem Spends.after (spends : Spends limit { mid with state := .paused } outcome last)
    (goesOn : GoesOn .never m.resumed outputs mid) : Spends limit m outcome last := by
  have resumes : { mid with state := .paused }.resumed = mid := resumed_paused goesOn.state_eq
  cases spends with
  | all onward spent =>
      rw [resumes] at onward
      exact .all (goesOn.trans onward) spent
  | halted onward ended within =>
      rw [resumes] at onward
      exact .halted (goesOn.trans onward) ended within
  | failed onward ended within gist =>
      rw [resumes] at onward
      exact .failed (goesOn.trans onward) ended within gist

theorem goesOn_of_execute (executed : m.execute .policy = (.ok step, next))
    (unhalted : step ≠ .halted) :
    (∃ outputs, GoesOn .never m outputs next) ∧ next.steps = m.steps + 1 := by
  have counted : next.steps = m.steps + counts (.ok step) := (execute_eq_iff.mp executed).steps_eq
  cases step with
  | executed => exact ⟨⟨[], .executed executed (.here next)⟩, counted⟩
  | output value => exact ⟨⟨[value], .output nofun executed (.here next)⟩, counted⟩
  | needsInput => exact absurd executed (policy_never_waits _ _)
  | halted => exact absurd rfl unhalted

theorem spends_runWithin (live : m.state.isTerminal = false) (unspent : m.steps ≤ limit) :
    Spends limit m (m.runWithin limit).1 (m.runWithin limit).2 := by
  -- By induction on what is left of the budget, with one instruction of either run at a time.
  unfold runWithin
  generalize left : limit - m.steps = remaining
  induction remaining generalizing m with
  | zero => exact .all (.here _) (by omega)
  | succ remaining ih =>
      have within : m.steps < limit := by omega
      unfold runRemaining
      cases executed : m.resumed.execute .policy with
      | mk outcome next =>
          cases outcome with
          | error error =>
              obtain ⟨other, state, tried, gist⟩ := budgetStep_of_error live executed
              rw [tried]
              exact .failed (.here _) executed within gist
          | ok step =>
              have tried := budgetStep_of_ok live executed
              cases step with
              | halted =>
                  rw [tried]
                  exact .halted (.here _) executed within
              | _ =>
                  obtain ⟨⟨outputs, goesOn⟩, counted⟩ := goesOn_of_execute executed nofun
                  have same : m.resumed.steps = m.steps := rfl
                  have unspent : next.steps ≤ limit := by omega
                  have less : limit - next.steps = remaining := by omega
                  rw [tried]
                  exact (ih (m := { next with state := .paused }) rfl unspent less).after goesOn

/-! ## Where the uninterrupted run ends -/

theorem Ends.step_eq_halted (ends : Ends .never m result final)
    (executed : m.execute .policy = (.ok step, next)) : step = .halted := by
  cases ends with
  | output occasion ended => cases occasion
  | needsInput ended => exact absurd ended (policy_never_waits _ _)
  | halted ended =>
      cases executed.symm.trans ended
      rfl
  | failed ended => cases executed.symm.trans ended

/-- Wherever the uninterrupted run is on its way, it has the same end ahead. -/
theorem Finishes.from_mid (finishes : m.Finishes outputs result final)
    (goesOn : GoesOn .never m others mid) : ∃ rest, mid.Finishes rest result final := by
  induction goesOn generalizing outputs with
  | here m => exact ⟨outputs, finishes⟩
  | executed first _ ih =>
      obtain ⟨last, onward, ends⟩ := finishes
      cases onward with
      | here => cases ends.step_eq_halted first
      | executed same rest =>
          cases first.symm.trans same
          exact ih ⟨last, rest, ends⟩
      | output _ other _ => cases first.symm.trans other
  | output _ first _ ih =>
      obtain ⟨last, onward, ends⟩ := finishes
      cases onward with
      | here => cases ends.step_eq_halted first
      | executed other _ => cases first.symm.trans other
      | output _ same rest =>
          cases first.symm.trans same
          exact ih ⟨last, rest, ends⟩

theorem Finishes.unique {answer : RunResult} (finishes : m.Finishes outputs result final)
    (again : m.Finishes others answer last) : (result, final) = (answer, last) := by
  obtain ⟨mid, goesOn, ends⟩ := finishes
  obtain ⟨rest, stop, onward, endsAgain⟩ := again.from_mid goesOn
  cases onward with
  | here =>
      have same := (runTurn_done_iff.mpr ends).symm.trans (runTurn_done_iff.mpr endsAgain)
      cases same
      rfl
  | executed first _ => cases ends.step_eq_halted first
  | output _ first _ => cases ends.step_eq_halted first

/-- A run ended within a limit: what it executed does not exceed the limit and, when it failed, left
room for the instruction that failed. -/
def EndedWithin (limit : Nat) : RunResult → Machine → Prop
  | .ok _, final => final.steps ≤ limit
  | .error _, final => final.steps < limit

/-- A run ends within a limit just when its last instruction is reached within it. -/
theorem Ends.endedWithin_iff (ends : Ends .never m result final) :
    EndedWithin limit result final ↔ m.steps < limit := by
  cases ends with
  | output occasion ended => cases occasion
  | needsInput ended => exact absurd ended (policy_never_waits _ _)
  | @halted next ended =>
      have counted : next.steps = m.steps + 1 := (execute_eq_iff.mp ended).steps_eq
      simp only [EndedWithin]
      omega
  | @failed error next ended =>
      have counted : next.steps = m.steps := (execute_eq_iff.mp ended).steps_eq
      simp only [EndedWithin]
      omega

theorem Finishes.not_endedWithin (finishes : m.Finishes outputs result final)
    (spent : limit ≤ m.steps) : ¬ EndedWithin limit result final := by
  obtain ⟨mid, goesOn, ends⟩ := finishes
  have further : m.steps ≤ mid.steps := by
    apply goesOn.preserves (P := fun mid => m.steps ≤ mid.steps) _ (Nat.le_refl _)
    intro here next outcome executed less
    rw [executed.steps_eq]
    omega
  rw [ends.endedWithin_iff]
  omega

theorem Spends.steps_le (spends : Spends limit m outcome last) : last.steps ≤ limit := by
  cases spends with
  | all goesOn spent => exact Nat.le_of_eq spent
  | halted goesOn ended within => exact (Ends.halted ended).endedWithin_iff.mpr within
  | failed goesOn ended within gist =>
      exact Nat.le_of_lt ((Ends.failed ended).endedWithin_iff.mpr within)

/-- A budget is not spent before the end of a run that ends within it. -/
theorem not_endedWithin_of_spent (goesOn : GoesOn .never m others mid) (spent : mid.steps = limit)
    (finishes : m.Finishes outputs result final) : ¬ EndedWithin limit result final := by
  obtain ⟨rest, finishesThere⟩ := finishes.from_mid goesOn
  exact finishesThere.not_endedWithin (Nat.le_of_eq spent.symm)

theorem Spends.of_halts {value : Option Word} (spends : Spends limit m outcome last)
    (finishes : m.resumed.Finishes outputs (.ok value) final) (inside : final.steps ≤ limit) :
    outcome = .ok () ∧ last = final := by
  cases spends with
  | all goesOn spent => exact absurd inside (not_endedWithin_of_spent goesOn spent finishes)
  | halted goesOn ended within =>
      cases finishes.unique ⟨_, goesOn, .halted ended⟩
      exact ⟨rfl, rfl⟩
  | failed goesOn ended within gist => cases finishes.unique ⟨_, goesOn, .failed ended⟩

theorem Spends.of_fails (spends : Spends limit m outcome last)
    (finishes : m.resumed.Finishes outputs (.error error) final) (inside : final.steps < limit) :
    ∃ other state, outcome = .error other ∧ last = { final with state } ∧
      other.gist = error.gist := by
  cases spends with
  | all goesOn spent => exact absurd inside (not_endedWithin_of_spent goesOn spent finishes)
  | halted goesOn ended within => cases finishes.unique ⟨_, goesOn, .halted ended⟩
  | @failed _ mid next cause other state goesOn ended within gist =>
      cases finishes.unique ⟨_, goesOn, .failed ended⟩
      exact ⟨other, state, rfl, rfl, gist.trans (Error.gist_inOperation _ _).symm⟩

theorem Spends.of_neither (spends : Spends limit m outcome last)
    (neither : ∀ outputs result final, m.resumed.Finishes outputs result final →
      ¬ EndedWithin limit result final) :
    outcome = .error (budgetSpent limit last) ∧ last.steps = limit := by
  cases spends with
  | all goesOn spent => exact ⟨rfl, spent⟩
  | @halted outputs mid next goesOn ended within =>
      have ends : Ends .never mid _ _ := .halted ended
      exact absurd (ends.endedWithin_iff.mpr within) (neither _ _ _ ⟨mid, goesOn, ends⟩)
  | @failed outputs mid next error other state goesOn ended within gist =>
      have ends : Ends .never mid _ _ := .failed ended
      exact absurd (ends.endedWithin_iff.mpr within) (neither _ _ _ ⟨mid, goesOn, ends⟩)

/-- **Budgeted runs.** Let a machine that is not terminal have spent no more than a budget. A
budgeted run ends, and no more than the budget is spent then. When the run to the end halts within
the budget, a budgeted run leaves the very same machine, with what it read, put out and asked for.
When the run to the end fails within the budget, so does a budgeted run, with the same gist, and it
leaves the same machine but for its state. In every other case the budget is exhausted, to the last
instruction. -/
theorem budget_agrees_with_run (live : m.state.isTerminal = false) (unspent : m.steps ≤ limit) :
    Loops limit m (m.runWithin limit) ∧ (m.runWithin limit).2.steps ≤ limit ∧
    (∀ fuel value final, m.runToHalt fuel [] = some (.ok value, final) → final.steps ≤ limit →
      m.runWithin limit = (.ok (), final)) ∧
    (∀ fuel error final, m.runToHalt fuel [] = some (.error error, final) → final.steps < limit →
      ∃ other state, m.runWithin limit = (.error other, { final with state }) ∧
        other.gist = error.gist) ∧
    ((∀ fuel result final, m.runToHalt fuel [] = some (result, final) →
        ¬ EndedWithin limit result final) →
      ∃ error, (m.runWithin limit).1 = .error error ∧ error.kind = .budgetExhausted ∧
        (m.runWithin limit).2.steps = limit) := by
  have spends := spends_runWithin live unspent
  refine ⟨loops_runWithin limit m, spends.steps_le, ?_, ?_, ?_⟩
  · intro fuel value final returned inside
    obtain ⟨outputs, finishes⟩ := (runToHalt_returns_iff live).mp ⟨fuel, returned⟩
    obtain ⟨halts, same⟩ := spends.of_halts finishes inside
    exact Prod.ext halts same
  · intro fuel error final returned inside
    obtain ⟨outputs, finishes⟩ := (runToHalt_returns_iff live).mp ⟨fuel, returned⟩
    obtain ⟨other, state, fails, same, gist⟩ := spends.of_fails finishes inside
    exact ⟨other, state, Prod.ext fails same, gist⟩
  · intro otherwise
    have neither (outputs : List Word) (result : RunResult) (final : Machine)
        (finishes : m.resumed.Finishes outputs result final) :
        ¬ EndedWithin limit result final := by
      obtain ⟨fuel, returned⟩ := (runToHalt_returns_iff live).mpr ⟨outputs, finishes⟩
      exact otherwise fuel result final returned
    obtain ⟨exhausted, spent⟩ := spends.of_neither neither
    exact ⟨_, exhausted, rfl, spent⟩

/-- A machine that reads a word into its first cell and halts, and whose provider refuses it. -/
def frugal : Machine :=
  (ofProgram ⟨[3, 0, 99]⟩ { scratchCells := 0 }).setProvider [none]

/-- With two instructions allowed it reads a zero and halts, having asked once; with one allowed the
budget is exhausted. -/
theorem frugal_budgets_agree :
    frugal.state.isTerminal = false ∧ frugal.steps ≤ 1 ∧
      (∃ fuel value final, frugal.runToHalt fuel [] = some (.ok value, final) ∧
        frugal.runWithin 2 = (.ok (), final) ∧ final.bridge.asked = 1) ∧
      ∃ error, (frugal.runWithin 1).1 = .error error ∧ error.kind = .budgetExhausted := by
  have returned : ∃ value final, frugal.runToHalt 2 [] = some (.ok value, final) ∧
      final.steps = 2 ∧ final.bridge.asked = 1 := ⟨_, _, rfl, rfl, rfl⟩
  obtain ⟨value, final, returned, two, once⟩ := returned
  have enough := (@budget_agrees_with_run frugal 2 rfl (by decide)).2.2.1
  have scarce := (@budget_agrees_with_run frugal 1 rfl (by decide)).2.2.2.2
  have unfinished : ∀ fuel result final, frugal.runToHalt fuel [] = some (result, final) →
      ¬ EndedWithin 1 result final := by
    intro fuel result other again inside
    cases run_unique returned again
    have scanty : final.steps ≤ 1 := inside
    omega
  obtain ⟨error, exhausted, kind, _⟩ := scarce unfinished
  have within := enough 2 value final returned (Nat.le_of_eq two)
  exact ⟨rfl, by decide, ⟨2, value, final, returned, within, once⟩, error, exhausted, kind⟩

end Machine

end Intcode
