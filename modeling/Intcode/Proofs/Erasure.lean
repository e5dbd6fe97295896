import Intcode.Proofs.Runs

/-! # What has no part in running

An erasure takes away from machines something that has no part in what they do: without it a machine
executes the same instruction, with the same outcome and, what is erased apart, to the same machine
(`Machine.Erasure`). Machines that are the same without it therefore make the same steps and the
same runs, and stay the same without it (`Machine.Erasure.step`, `Machine.Erasure.run`). What has no
part in what comes from a bridge has none in what its machine does (`Bridge.Erasure.machine`). -/

namespace Intcode

/-- Something is taken away from bridges that has no part in what comes from them. -/
structure Bridge.Erasure (erase : Bridge → Bridge) : Prop where
  settled : ∀ bridge, erase (erase bridge) = erase bridge
  lastOutput_eq : ∀ bridge, (erase bridge).lastOutput = bridge.lastOutput
  feed : ∀ bridge values, erase (bridge.feed values) = (erase bridge).feed values
  pop : ∀ bridge, (erase bridge).pop = (bridge.pop.1, erase bridge.pop.2)
  ask : ∀ bridge, (erase bridge).ask.1 = bridge.ask.1 ∧
    erase (erase bridge).ask.2 = erase bridge.ask.2
  emit : ∀ bridge value, erase ((erase bridge).emit value) = erase (bridge.emit value)

namespace Machine

/-- Something is taken away from machines that has no part in what they do. -/
structure Erasure (erase : Machine → Machine) : Prop where
  state_eq : ∀ m, (erase m).state = m.state
  lastOutput_eq : ∀ m, (erase m).lastOutput = m.lastOutput
  inState : ∀ (m : Machine) (state : State), erase { m with state } = { erase m with state }
  feed : ∀ m values, erase (m.feed values) = (erase m).feed values
  executed : ∀ {source : InputSource} {m next : Machine} {outcome : Except Error Step},
    Executes source m outcome next →
      ∃ other, Executes source (erase m) outcome other ∧ erase other = erase next

namespace Erasure

variable {erase : Machine → Machine} {m n : Machine} {suspend : Suspend}
  (erasure : Erasure erase) (alike : erase n = erase m)

include erasure

/-- An instruction does the same on machines that are the same without what is erased. -/
theorem execute (alike : erase n = erase m) (source : InputSource) :
    (n.execute source).1 = (m.execute source).1 ∧
      erase (n.execute source).2 = erase (m.execute source).2 := by
  obtain ⟨other, here, same⟩ := erasure.executed (n.executes source)
  obtain ⟨another, there, alsoSame⟩ := erasure.executed (m.executes source)
  have ends := here.execute_eq
  rw [alike, there.execute_eq] at ends
  obtain ⟨outcomes, machines⟩ := Prod.mk.inj ends
  exact ⟨outcomes.symm, by rw [← same, ← alsoSame, machines]⟩

include alike

theorem state_eq_of_alike : n.state = m.state := by
  rw [← erasure.state_eq n, alike, erasure.state_eq m]

theorem lastOutput_eq_of_alike : n.lastOutput = m.lastOutput := by
  rw [← erasure.lastOutput_eq n, alike, erasure.lastOutput_eq m]

theorem inState_alike (state : State) : erase { n with state } = erase { m with state } :=
  calc erase { n with state }
      = { erase n with state } := erasure.inState n state
    _ = { erase m with state } := by rw [alike]
    _ = erase { m with state } := (erasure.inState m state).symm

theorem started_alike (input : List Word) : erase (n.started input) = erase (m.started input) := by
  apply erasure.inState_alike
  rw [erasure.feed n, alike, erasure.feed m]

/-- A turn of a run goes on on both machines or ends on both. -/
theorem runTurn (suspend : Suspend) :
    (∃ after next, Machine.runTurn suspend n = .again after ∧
        Machine.runTurn suspend m = .again next ∧ erase after = erase next) ∨
      ∃ result after next, Machine.runTurn suspend n = .done (result, after) ∧
        Machine.runTurn suspend m = .done (result, next) ∧ erase after = erase next := by
  obtain ⟨same, left⟩ := erasure.execute alike suspend.source
  have newest := erasure.lastOutput_eq_of_alike left
  have marked := erasure.inState_alike left
  cases there : m.execute suspend.source with
  | mk outcome next =>
      cases here : n.execute suspend.source with
      | mk outcome' after =>
          rw [there, here] at same left newest marked
          cases same
          unfold Machine.runTurn
          rw [here, there]
          cases outcome with
          | error error => exact .inr ⟨_, _, _, rfl, rfl, marked _⟩
          | ok step =>
              cases step with
              | executed => exact .inl ⟨_, _, rfl, rfl, left⟩
              | output value =>
                  by_cases occasion : suspend = .onOutput
                  · simp only [occasion, ↓reduceIte]
                    exact .inr ⟨_, _, _, rfl, rfl, marked _⟩
                  · simp only [occasion, ↓reduceIte]
                    exact .inl ⟨_, _, rfl, rfl, left⟩
              | needsInput | halted =>
                  dsimp only at newest ⊢
                  rw [newest]
                  exact .inr ⟨_, _, _, rfl, rfl, marked _⟩

omit alike in
theorem iterate_runTurn (alike : erase n = erase m) (suspend : Suspend) (fuel : Nat) :
    (iterate (fun m => some (Machine.runTurn suspend m)) fuel n).map (Prod.map id erase) =
      (iterate (fun m => some (Machine.runTurn suspend m)) fuel m).map (Prod.map id erase) := by
  induction fuel generalizing m n with
  | zero => rfl
  | succ fuel ih =>
      rcases erasure.runTurn alike suspend with
        ⟨after, next, here, there, same⟩ | ⟨result, after, next, here, there, same⟩
      · simp only [iterate, here, there]
        exact ih same
      · simp only [iterate, here, there, Option.map_some, Prod.map_apply, same]

/-- **Runs.** A run returns the same, or returns on neither, and leaves machines that are the same
without what is erased. -/
theorem run (suspend : Suspend) (fuel : Nat) (input : List Word) :
    (n.run suspend fuel input).map (Prod.map id erase) =
      (m.run suspend fuel input).map (Prod.map id erase) := by
  have state := erasure.state_eq_of_alike alike
  have newest := erasure.lastOutput_eq_of_alike alike
  cases terminal : m.state.isTerminal with
  | true =>
      rcases State.halted_or_failed terminal with halted | failed
      · rw [run_of_halted halted, run_of_halted (state.trans halted), newest]
        simp only [Option.map_some, Prod.map_apply, alike]
      · rw [run_of_failed failed, run_of_failed (state.trans failed)]
        simp only [Option.map_some, Prod.map_apply, alike]
  | false =>
      have live : n.state.isTerminal = false := by rw [state, terminal]
      rw [run_of_live terminal, run_of_live live]
      exact erasure.iterate_runTurn (erasure.started_alike alike input) suspend fuel

/-- **Steps.** A step comes to the same and leaves machines that are the same without what is
erased. -/
theorem step : n.step.1 = m.step.1 ∧ erase n.step.2 = erase m.step.2 := by
  have state := erasure.state_eq_of_alike alike
  cases terminal : m.state.isTerminal with
  | true =>
      rcases State.halted_or_failed terminal with halted | failed
      · rw [step_of_halted halted, step_of_halted (state.trans halted)]
        exact ⟨rfl, alike⟩
      · rw [step_of_failed failed, step_of_failed (state.trans failed)]
        exact ⟨rfl, alike⟩
  | false =>
      have live : n.state.isTerminal = false := by rw [state, terminal]
      have resumed : erase n.resumed = erase m.resumed := erasure.inState_alike alike .running
      obtain ⟨same, left⟩ := erasure.execute resumed .provider
      have marked := erasure.inState_alike left
      cases there : m.resumed.execute .provider with
      | mk outcome next =>
          cases here : n.resumed.execute .provider with
          | mk outcome' after =>
              rw [there, here] at same marked
              cases same
              rw [step_of_live terminal there, step_of_live live here]
              exact ⟨rfl, marked _⟩

end Erasure

/-! ## Erasures of bridges -/

/-- The machine whose bridge is erased and whose instructions are counted in another way. -/
def erasing (erase : Bridge → Bridge) (count : Nat → Nat) (m : Machine) : Machine :=
  { m with bridge := erase m.bridge, steps := count m.steps }

section

variable {erase : Bridge → Bridge} {count : Nat → Nat} {m next : Machine} {source : InputSource}

/-- Looking for input comes to the same. -/
theorem nextInput_erasing (erasure : Bridge.Erasure erase)
    {answer : Except Error (Option Word)} {bridge : Bridge}
    (supplied : m.nextInput source = (answer, { m with bridge })) :
    ∃ other, (m.erasing erase count).nextInput source =
        (answer, { m.erasing erase count with bridge := other }) ∧ erase other = erase bridge := by
  have popped : (m.erasing erase count).bridge.pop = (m.bridge.pop.1, erase m.bridge.pop.2) :=
    erasure.pop m.bridge
  unfold nextInput at supplied ⊢
  rw [popped]
  cases queued : m.bridge.pop with
  | mk oldest rest =>
      rw [queued] at supplied
      have settled := erasure.settled rest
      cases oldest with
      | some value =>
          cases supplied
          exact ⟨_, rfl, settled⟩
      | none =>
          obtain ⟨answers, left⟩ := erasure.ask rest
          cases asked : rest.ask with
          | mk value after =>
              cases again : (erase rest).ask with
              | mk value' after' =>
                  rw [asked, again] at answers left
                  cases answers
                  simp only [asked] at supplied
                  simp only [again]
                  cases source with
                  | queue =>
                      cases supplied
                      exact ⟨_, rfl, settled⟩
                  | provider =>
                      cases supplied
                      exact ⟨_, rfl, left⟩
                  | policy =>
                      have config : (m.erasing erase count).config = m.config := rfl
                      rw [config]
                      cases value with
                      | some value =>
                          cases supplied
                          exact ⟨_, rfl, left⟩
                      | none =>
                          cases policy : m.config.underrun with
                          | zero | error =>
                              rw [policy] at supplied
                              cases supplied
                              exact ⟨_, rfl, left⟩

theorem Executes.erasing {outcome : Except Error Step} (erasure : Bridge.Erasure erase)
    (recounted : ∀ steps, count (count steps) = count steps)
    (counted : ∀ steps, count (count steps + 1) = count (steps + 1))
    (executed : Executes source m outcome next) :
    ∃ other, Executes source (m.erasing erase count) outcome other ∧
      other.erasing erase count = next.erasing erase count := by
  have settled := erasure.settled m.bridge
  cases executed with
  | fault planned => exact ⟨_, .fault planned, by simp only [Machine.erasing, settled, recounted]⟩
  | store planned place =>
      exact ⟨_, .store planned place, by simp only [Machine.erasing, advance, settled, counted]⟩
  | read planned supplied place =>
      obtain ⟨other, supplied, same⟩ := nextInput_erasing erasure supplied
      exact ⟨_, .read planned supplied place, by
        simp only [Machine.erasing, advance, same, counted]⟩
  | wait planned supplied =>
      obtain ⟨other, supplied, same⟩ := nextInput_erasing erasure supplied
      exact ⟨_, .wait planned supplied, by simp only [Machine.erasing, same, recounted]⟩
  | underrun planned supplied =>
      obtain ⟨other, supplied, same⟩ := nextInput_erasing erasure supplied
      exact ⟨_, .underrun planned supplied, by simp only [Machine.erasing, same, recounted]⟩
  | @emit instruction value planned =>
      have same := erasure.emit m.bridge value
      exact ⟨_, .emit planned, by simp only [Machine.erasing, advance, same, counted]⟩
  | jump planned => exact ⟨_, .jump planned, by simp only [Machine.erasing, settled, counted]⟩
  | adjustBase planned =>
      exact ⟨_, .adjustBase planned, by simp only [Machine.erasing, advance, settled, counted]⟩
  | pass planned =>
      exact ⟨_, .pass planned, by simp only [Machine.erasing, advance, settled, counted]⟩
  | halt planned => exact ⟨_, .halt planned, by simp only [Machine.erasing, settled, counted]⟩

end

end Machine

/-- **Erasures of bridges are erasures of machines**, also if instructions are counted in another
way, as long as counting on comes to the same. -/
theorem Bridge.Erasure.machine {erase : Bridge → Bridge} (erasure : Erasure erase)
    (count : Nat → Nat) (recounted : ∀ steps, count (count steps) = count steps)
    (counted : ∀ steps, count (count steps + 1) = count (steps + 1)) :
    Machine.Erasure (Machine.erasing erase count) where
  state_eq _ := rfl
  lastOutput_eq m := erasure.lastOutput_eq m.bridge
  inState _ _ := rfl
  feed m values := by simp only [Machine.erasing, Machine.feed, erasure.feed]
  executed := Machine.Executes.erasing erasure recounted counted

end Intcode
