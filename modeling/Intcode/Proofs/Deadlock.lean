import Intcode.Proofs.FeedbackAgreement

/-! # Rings whose tasks wait for each other

A task that reads from an empty channel waits as long as the task that feeds it is unfinished
(`Ring.Waits`), and fails with its channel closed once that task is finished (`Ring.closes`). When
all that are unfinished wait, nobody will ever go on (`Ring.Deadlocked`).

One task that ends somewhere along some schedule prevents this along all of them: its end reaches
the next task, and so on around the ring. A ring is free of deadlocks exactly if there is such a
task, or if it never comes to a standstill at all (`Ring.deadlockFree_iff`).

A feedback loop that runs its amplifiers in turn is over when one of them lacks input. In the ring
this amplifier waits. If any amplifier of the loop halted, or if the loop came to something else, a
task of the ring ends (`Ring.some_task_ends`). But where all that the loop comes to is an amplifier
without input, the ring may come to a deadlock, in which no channel is ever closed
(`Ring.sole_reader_waits_for_itself`). -/

namespace Intcode

namespace Ring

variable {ring next last final : Ring} {index who : Nat} {schedule : List Nat}

/-- An unfinished task is about to read from its channel, which is empty, and the task that feeds it
is unfinished. -/
def Waits (ring : Ring) (who : Nat) : Prop :=
  ∃ task instruction address, ring.tasks[who]? = some task ∧ task.outcome = none ∧
    task.machine.plan = .ok (instruction, .input address) ∧ task.machine.bridge.input = [] ∧
    ring.feederFinished who = false

/-- Some task is unfinished, and every task that is unfinished waits. -/
structure Deadlocked (ring : Ring) : Prop where
  unfinished : ring.isFinished = false
  waits : ∀ who task, ring.tasks[who]? = some task → task.outcome = none → ring.Waits who

/-- No schedule leads to a deadlock. -/
def DeadlockFree (ring : Ring) : Prop :=
  ∀ schedule last, follow step? ring schedule = some last → ¬last.Deadlocked

/-- Along some schedule some task ends. -/
def SomeTaskEnds (ring : Ring) : Prop :=
  ∃ schedule last who outcome, follow step? ring schedule = some last ∧
    last.outcomeAt who = some outcome

/-! ## Standstills -/

/-- An unfinished task makes a step unless it waits. -/
theorem waits_of_idle {task : Task} (here : ring.tasks[who]? = some task)
    (unfinished : task.outcome = none) (idle : ring.step? who = none) : ring.Waits who := by
  cases executed : task.machine.execute .queue with
  | mk outcome machine =>
      by_cases fed : outcome = .ok .needsInput
      · subst fed
        obtain ⟨_, empty, instruction, address, planned⟩ :=
          Machine.execute_queue_waits_iff.mp executed
        refine ⟨task, instruction, address, here, unfinished, planned, empty, ?_⟩
        cases closed : ring.feederFinished who with
        | false => rfl
        | true =>
            have starves : ring.Starves who task :=
              ⟨here, unfinished, ⟨instruction, address, planned⟩, empty, closed⟩
            obtain ⟨next, stepped, _⟩ := (Fails.starved starves).exists_step?
            rw [stepped] at idle
            cases idle
      · have stepped := Task.step_of_execute unfinished executed fed who (ring.feederFinished who)
        have active : (Task.conclude who machine outcome).1 ≠ .idle := by
          cases outcome with
          | error error => exact Task.Move.noConfusion
          | ok step =>
              cases step with
              | needsInput => exact absurd rfl fed
              | _ => exact Task.Move.noConfusion
        rw [step?_eq_some_iff.mpr ⟨_, _, _, here, stepped, active, rfl⟩] at idle
        cases idle

theorem Waits.idle (waits : ring.Waits who) : ring.step? who = none := by
  obtain ⟨task, instruction, address, here, unfinished, planned, empty, working⟩ := waits
  have executed : task.machine.execute .queue = (.ok .needsInput, task.machine) :=
    Machine.execute_queue_waits_iff.mpr ⟨rfl, empty, instruction, address, planned⟩
  cases stepped : ring.step? who with
  | none => rfl
  | some next =>
      obtain ⟨other, message, later, there, came, active, _⟩ := step?_eq_some_iff.mp stepped
      rw [here] at there
      cases there
      rcases (Task.step_cases came active).2 with
        ⟨outcome, machine, otherwise, fed, _⟩ | ⟨_, closed, _⟩
      · rw [executed] at otherwise
        cases otherwise
        exact absurd rfl fed
      · rw [working] at closed
        cases closed

/-- A deadlock is a standstill before all tasks are finished. -/
theorem deadlocked_iff : ring.Deadlocked ↔ Standstill step? ring ∧ ring.isFinished = false := by
  constructor
  · intro deadlocked
    refine ⟨?_, deadlocked.unfinished⟩
    intro who
    cases stepped : ring.step? who with
    | none => rfl
    | some next =>
        obtain ⟨task, message, later, here, came, active, _⟩ := step?_eq_some_iff.mp stepped
        have waits := deadlocked.waits who task here (Task.step_cases came active).1
        rw [waits.idle] at stepped
        cases stepped
  · rintro ⟨still, unfinished⟩
    exact ⟨unfinished, fun who task here working => waits_of_idle here working (still who)⟩

/-- **Closed channels.** A task that reads from an empty channel whose sender is finished reports
that its channel is closed. -/
theorem closes {task : Task} {instruction : Instruction} {address : Word}
    (here : ring.tasks[who]? = some task) (unfinished : task.outcome = none)
    (planned : task.machine.plan = .ok (instruction, .input address))
    (empty : task.machine.bridge.input = []) (closed : ring.feederFinished who = true) :
    ∃ next error, ring.step? who = some next ∧ next.outcomeAt who = some (.error error) ∧
      error.kind = .channelClosed := by
  have starves : ring.Starves who task :=
    ⟨here, unfinished, ⟨instruction, address, planned⟩, empty, closed⟩
  obtain ⟨next, stepped, failed⟩ := (Fails.starved starves).exists_step?
  exact ⟨next, _, stepped, failed, rfl⟩

/-! ## Around the ring -/

/-- In a deadlock the end of a task would reach the next one. -/
theorem Deadlocked.isSome_succ (deadlocked : ring.Deadlocked) (inside : index < ring.tasks.length)
    (ended : (ring.outcomeAt index).isSome = true) :
    (ring.outcomeAt ((index + 1) % ring.tasks.length)).isSome = true := by
  have next : (index + 1) % ring.tasks.length < ring.tasks.length := Nat.mod_lt _ (by omega)
  have there := List.getElem?_eq_getElem next
  cases working : ring.tasks[(index + 1) % ring.tasks.length].outcome with
  | some outcome =>
      rw [outcomeAt, there, Option.bind_some, working]
      rfl
  | none =>
      obtain ⟨_, _, _, _, _, _, _, unclosed⟩ := deadlocked.waits _ _ there working
      rw [feederFinished_succ inside, ended] at unclosed
      cases unclosed

/-- In a deadlock no task is finished: its end would reach all others around the ring. -/
theorem Deadlocked.outcomeAt_eq_none (deadlocked : ring.Deadlocked) (who : Nat) :
    ring.outcomeAt who = none := by
  cases ended : ring.outcomeAt who with
  | none => rfl
  | some outcome =>
      obtain ⟨task, here, _⟩ := Option.bind_eq_some_iff.mp ended
      have inside := getElem?_inside here
      have around (distance : Nat) :
          (ring.outcomeAt ((who + distance) % ring.tasks.length)).isSome = true := by
        induction distance with
        | zero =>
            rw [Nat.add_zero, Nat.mod_eq_of_lt inside, ended]
            rfl
        | succ distance ih =>
            have next := deadlocked.isSome_succ (Nat.mod_lt _ (by omega)) ih
            rwa [Nat.mod_add_mod, Nat.add_assoc] at next
      have finished : ring.isFinished = true := by
        refine isFinished_of_outcomes fun position insidePosition => ?_
        have reached := around (position + ring.tasks.length - who)
        have same : (who + (position + ring.tasks.length - who)) % ring.tasks.length =
            position := by
          rw [Nat.add_sub_of_le (by omega), Nat.add_mod_right, Nat.mod_eq_of_lt insidePosition]
        rwa [same] at reached
      rw [deadlocked.unfinished] at finished
      cases finished

/-- A task that ends along one schedule keeps every schedule from a deadlock. -/
theorem SomeTaskEnds.deadlockFree (ends : ring.SomeTaskEnds) : ring.DeadlockFree := by
  intro schedule last followed deadlocked
  obtain ⟨taken, mid, who, outcome, reached, ended⟩ := ends
  have still := (deadlocked_iff.mp deadlocked).1
  obtain ⟨rest, stop, further, same, _⟩ := commuting.completion still followed reached
  have endedThere := outcomeAt_of_follow further ended
  rw [outcomeAt_congr same, deadlocked.outcomeAt_eq_none] at endedThere
  cases endedThere

/-- **Freedom from deadlocks.** A ring is free of deadlocks exactly if along some schedule some task
ends, or no schedule comes to a standstill. -/
theorem deadlockFree_iff (nonempty : ring.tasks ≠ []) :
    ring.DeadlockFree ↔
      ring.SomeTaskEnds ∨
        ∀ schedule last, follow step? ring schedule = some last → ¬Standstill step? last := by
  constructor
  · intro free
    refine Classical.or_iff_not_imp_left.mpr fun never => ?_
    intro schedule last followed still
    refine free schedule last followed (deadlocked_iff.mpr ⟨still, ?_⟩)
    cases finished : last.isFinished with
    | false => rfl
    | true =>
        have inside : 0 < last.tasks.length := by
          rw [length_of_follow followed]
          exact List.length_pos_iff.mpr nonempty
        have ended := List.all_eq_true.mp finished _ (List.getElem_mem inside)
        obtain ⟨outcome, came⟩ := Option.isSome_iff_exists.mp ended
        refine absurd ⟨schedule, last, 0, outcome, followed, ?_⟩ never
        rw [outcomeAt, List.getElem?_eq_getElem inside]
        exact came
  · rintro (ends | restless)
    · exact ends.deadlockFree
    · intro schedule last followed deadlocked
      exact restless schedule last followed (deadlocked_iff.mp deadlocked).1

/-! ## The schedule that is carried out -/

/-- Taking turns comes to an answer along a schedule that lets all tasks finish. -/
theorem exists_follow_of_iterate {fuel passed : Nat}
    (returned : iterate scheduleTurn fuel (ring, index, passed) = some last) :
    ∃ schedule, follow step? ring schedule = some last ∧ last.isFinished = true := by
  induction fuel generalizing ring index passed with
  | zero => cases returned
  | succ fuel ih =>
      by_cases all : ring.tasks.length ≤ passed
      · cases finished : ring.isFinished with
        | true =>
            simp only [iterate, scheduleTurn, all, finished, ↓reduceIte] at returned
            cases returned
            exact ⟨[], rfl, finished⟩
        | false =>
            simp only [iterate, scheduleTurn, all, finished, ↓reduceIte, Bool.false_eq_true]
              at returned
            exact ih returned
      · cases stepped : ring.step? index with
        | none =>
            simp only [iterate, scheduleTurn, all, ↓reduceIte, move_of_idle stepped] at returned
            exact ih returned
        | some next =>
            obtain ⟨message, active, moved⟩ := move_of_step stepped
            have goesOn : iterate scheduleTurn fuel (next, index, 0) = some last := by
              cases message with
              | idle => exact absurd rfl active
              | _ => simpa only [iterate, scheduleTurn, all, ↓reduceIte, moved] using returned
            obtain ⟨schedule, followed, finished⟩ := ih goesOn
            exact ⟨index :: schedule, (follow_cons stepped schedule).trans followed, finished⟩

/-- In a ring that may come to a deadlock, the schedule that is carried out never ends. -/
theorem run_eq_none_of_deadlocked (followed : follow step? ring schedule = some final)
    (deadlocked : final.Deadlocked) (fuel : Nat) : ring.run fuel = none := by
  cases returned : ring.run fuel with
  | none => rfl
  | some last =>
      obtain ⟨taken, reached, finished⟩ := exists_follow_of_iterate returned
      have ended := (schedules_agree reached finished).2 schedule final followed
        (deadlocked_iff.mp deadlocked).1
      rw [deadlocked.unfinished] at ended
      cases ended.1

/-! ## Loops and deadlocks -/

variable {program : Program} {phases : List Word} {input : Word} {chain after : Chain} {fuel : Nat}
  {result : Except Error Word}

/-- **Loops that keep a ring going.** When the loop that runs its amplifiers in turn comes to
anything but an underrun, or when one of its amplifiers has halted, some task of the ring ends. -/
theorem some_task_ends (built : Chain.ofPhases program phases = .ok chain)
    (returned : chain.runFeedback fuel input = some (result, after))
    (alive : (∀ error, result = .error error → error.kind ≠ .inputUnderrun) ∨
      ∃ m ∈ after.machines, m.isHalted = true) :
    (ofPhases program phases input).SomeTaskEnds := by
  refine Classical.byContradiction fun never => ?_
  -- Otherwise no task would end in any ring that is reached, and the loop would be followed.
  have unended {ring : Ring} {who : Nat} {outcome : Except Error (Option Word)}
      (reached : ∃ schedule, follow step? (ofPhases program phases input) schedule = some ring) :
      ring.outcomeAt who ≠ some outcome := by
    obtain ⟨schedule, followed⟩ := reached
    exact fun ended => never ⟨schedule, ring, who, outcome, followed, ended⟩
  have calm : Calm fun ring =>
      ∃ schedule, follow step? (ofPhases program phases input) schedule = some ring :=
    { step := by
        rintro ring next index ⟨schedule, followed⟩ stepped
        refine ⟨schedule ++ [index], ?_⟩
        rw [follow_concat, followed, Option.bind_some, stepped]
      fine := unended }
  cases (mirrors_ofPhases built input).loop_followed calm ⟨[], rfl⟩ returned with
  | settled reached last => exact unended reached last
  | silent error reached last => exact unended reached last
  | failed reached underrun halted =>
      rcases alive with other | ⟨m, among, stopped⟩
      · exact other _ rfl underrun
      · obtain ⟨position, there⟩ := List.getElem?_of_mem among
        obtain ⟨outcome, ended⟩ := Option.isSome_iff_exists.mp (halted position m there stopped)
        exact unended reached ended

/-- **Deadlocks behind a loop.** Let the loop that runs its amplifiers in turn come to a result. No
schedule of the ring leads to a deadlock exactly if along some schedule some task ends, or no
schedule comes to a standstill. This is so unless the result is an underrun and no amplifier has
halted. And a task whose sender is finished never waits: if it lacks input it reports that its
channel is closed. -/
theorem deadlockFree_behind_loop_iff (built : Chain.ofPhases program phases = .ok chain)
    (returned : chain.runFeedback fuel input = some (result, after)) :
    ((ofPhases program phases input).DeadlockFree ↔
      (ofPhases program phases input).SomeTaskEnds ∨
        ∀ schedule last, follow step? (ofPhases program phases input) schedule = some last →
          ¬Standstill step? last) ∧
    ((∀ error, result = .error error → error.kind ≠ .inputUnderrun) ∨
        (∃ m ∈ after.machines, m.isHalted = true) →
      (ofPhases program phases input).DeadlockFree) ∧
    ∀ schedule last who task instruction address,
      follow step? (ofPhases program phases input) schedule = some last →
      last.tasks[who]? = some task → task.outcome = none →
      task.machine.plan = .ok (instruction, .input address) → task.machine.bridge.input = [] →
      last.feederFinished who = true →
        ∃ next error, last.step? who = some next ∧ next.outcomeAt who = some (.error error) ∧
          error.kind = .channelClosed := by
  have nonempty : (ofPhases program phases input).tasks ≠ [] := by
    rw [← List.length_pos_iff, length_ofPhases]
    cases phases with
    | nil => cases built
    | cons phase rest => exact Nat.succ_pos _
  refine ⟨deadlockFree_iff nonempty, ?_, ?_⟩
  · intro alive
    exact (some_task_ends built returned alive).deadlockFree
  · intro schedule last who task instruction address _ here unfinished planned empty closed
    exact closes here unfinished planned empty closed

/-- No schedule of two relays leads to a deadlock, as their loop comes to a value. -/
theorem relays_are_deadlockFree : ∃ chain after fuel value,
    Chain.ofPhases relay [1, 2] = .ok chain ∧
      chain.runFeedback fuel 5 = some (.ok value, after) ∧
      (ofPhases relay [1, 2] 5).DeadlockFree := by
  have bare : ∃ after value, Chain.runFeedback 4 5 ⟨[bareRelay 1, bareRelay 2]⟩ =
      some (.ok value, after) := ⟨_, _, rfl⟩
  obtain ⟨after, value, returned⟩ := bare
  have wide := Chain.runFeedback_widen returned defaultScratch
  have built := ofPhases_relay 1 2
  exact ⟨_, _, _, value, built, wide,
    (deadlockFree_behind_loop_iff built wide).2.1 (.inl fun error same => nomatch same)⟩

/-! ## A ring that comes to a deadlock -/

theorem Waits.widen (waits : ring.Waits who) (scratch : UInt64) :
    (ring.widen scratch).Waits who := by
  obtain ⟨task, instruction, address, here, unfinished, planned, empty, working⟩ := waits
  refine ⟨task.widen scratch, instruction, address, ?_, unfinished, ?_, empty, ?_⟩
  · rw [Ring.widen, List.getElem?_map, here]
    rfl
  · rcases task.machine.plan_widen scratch with same | ⟨error, failed, _⟩
    · exact same.trans planned
    · rw [planned] at failed
      cases failed
  · rw [← working]
    unfold feederFinished finishedAt Ring.widen
    rw [List.length_map, List.getElem?_map, Option.map_map]
    rfl

theorem Deadlocked.widen (deadlocked : ring.Deadlocked) (scratch : UInt64) :
    (ring.widen scratch).Deadlocked := by
  refine ⟨(ring.isFinished_widen scratch).trans deadlocked.unfinished, ?_⟩
  intro who task there unfinished
  rw [Ring.widen, List.getElem?_map] at there
  obtain ⟨narrow, here, rfl⟩ := Option.map_eq_some_iff.mp there
  exact (deadlocked.waits who narrow here unfinished).widen scratch

/-- A program that reads its phase setting, a signal and, before it puts out anything, another
one. -/
def reader : Program :=
  ⟨[3, 0, 3, 0, 3, 0, 99]⟩

/-- A reader without scratch cells that was given its phase setting. -/
def bareReader : Machine :=
  Chain.amplifier reader { scratchCells := 0, underrun := .error } 0

theorem widen_bareReader :
    bareReader.widen defaultScratch = Chain.amplifier reader Config.strict 0 :=
  @Chain.amplifier_widen reader { scratchCells := 0, underrun := .error } _ (by decide) 0

theorem reader_loop_underruns : ∃ chain after fuel error, Chain.ofPhases reader [0] = .ok chain ∧
    chain.runFeedback fuel 0 = some (.error error, after) ∧ error.kind = .inputUnderrun := by
  have bare : ∃ after error, Chain.runFeedback 3 0 ⟨[bareReader]⟩ = some (.error error, after) ∧
      error.kind = .inputUnderrun := ⟨_, _, rfl, rfl⟩
  obtain ⟨after, error, returned, kind⟩ := bare
  have inside : ¬OutOfBounds (.error error : Except Error Word) := by
    rintro ⟨_, same, outside⟩
    cases same
    cases kind.symm.trans outside
  have wide := Chain.runFeedback_widen_of_inside returned inside defaultScratch
  rw [List.map_singleton, widen_bareReader] at wide
  exact ⟨_, _, 3, error, rfl, wide, kind⟩

/-- **A ring that waits for itself.** The loop of a single reader ends with an underrun. In the ring
the reader feeds its own channel: it waits for what it would put out itself, its channel is never
closed, and running the ring never ends. -/
theorem sole_reader_waits_for_itself :
    (∃ chain after fuel error, Chain.ofPhases reader [0] = .ok chain ∧
      chain.runFeedback fuel 0 = some (.error error, after) ∧ error.kind = .inputUnderrun) ∧
    (∃ schedule final, follow step? (ofPhases reader [0] 0) schedule = some final ∧
      final.Deadlocked) ∧
    ¬(ofPhases reader [0] 0).DeadlockFree ∧ ∀ fuel, runRing fuel reader [0] 0 = none := by
  have found : ∃ final, follow step? ⟨[{ machine := bareReader.feed [0] }]⟩ [0, 0] = some final ∧
      final.isFinished = false ∧ final.step? 0 = none ∧ final.tasks.length = 1 :=
    ⟨_, rfl, rfl, rfl, rfl⟩
  obtain ⟨final, followed, unfinished, idle, size⟩ := found
  have still : Standstill step? final := by
    intro who
    cases stepped : final.step? who with
    | none => rfl
    | some next =>
        have inside := inside_of_step? stepped
        rw [size, Nat.lt_one_iff] at inside
        rw [inside, idle] at stepped
        cases stepped
  have deadlocked : final.Deadlocked := deadlocked_iff.mpr ⟨still, unfinished⟩
  have wide := follow_widen followed
    (fun who result ended => by rw [deadlocked.outcomeAt_eq_none] at ended; cases ended)
    defaultScratch
  have same : Ring.widen ⟨[{ machine := bareReader.feed [0] }]⟩ defaultScratch =
      ⟨[{ machine := (bareReader.widen defaultScratch).feed [0] }]⟩ := rfl
  rw [same, widen_bareReader] at wide
  have deadlockedWide := deadlocked.widen defaultScratch
  refine ⟨reader_loop_underruns, ⟨_, _, wide, deadlockedWide⟩,
    fun free => free _ _ wide deadlockedWide, ?_⟩
  intro fuel
  have nothing : (ofPhases reader [0] 0).run fuel = none :=
    run_eq_none_of_deadlocked wide deadlockedWide fuel
  rw [runRing, nothing]
  · rfl
  · exact List.cons_ne_nil _ _

end Ring

end Intcode
