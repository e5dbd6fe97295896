import Intcode.Proofs.RingSteps
import Intcode.Proofs.Scratch

/-! # Schedules of a ring

All schedules of a ring agree: when one lets all tasks finish, every other that goes on for as long
as it can does so too, and each amplifier reads the same, puts out the same and ends with the same
outcome along all of them (`interleavings_agree`). One such schedule is carried out by `Ring.run`,
so its answer is that of every schedule (`Ring.run_finishes`).

What a task is about to fail with at a moment of any schedule (`Ring.Fails`) is what it has failed
with in the end (`Ring.Fails.outcomeAt`). A task fails by an error of its instruction, or because it
lacks input and the task that feeds it is finished (`Ring.Starves`). -/

namespace Intcode

namespace Ring

variable {ring next last final other : Ring} {index who : Nat} {schedule : List Nat}

/-- The values that a task reads from its channel along a schedule. -/
def consumed (ring : Ring) (who : Nat) (schedule : List Nat) : List Word :=
  (deeds step? traffic who ring schedule).filterMap Prod.fst

/-- The values that a task puts out along a schedule. -/
def emitted (ring : Ring) (who : Nat) (schedule : List Nat) : List Word :=
  (deeds step? traffic who ring schedule).filterMap Prod.snd

/-! ## What a view determines -/

theorem outcomeAt_congr (same : ring.view = other.view) (who : Nat) :
    ring.outcomeAt who = other.outcomeAt who := by
  have seen (ring : Ring) : ring.outcomeAt who = ring.view[who]?.bind (·.outcome) := by
    unfold outcomeAt view
    rw [List.getElem?_map, Option.bind_map]
    exact congrArg _ (funext fun task => task.outcome_settled.symm)
  rw [seen, seen, same]

theorem isFinished_congr (same : ring.view = other.view) : ring.isFinished = other.isFinished := by
  have seen (ring : Ring) : ring.isFinished = ring.view.all Task.isFinished := by
    unfold isFinished view
    rw [List.all_map]
    exact congrArg _ (funext fun task => task.isFinished_settled.symm)
  rw [seen, seen, same]

theorem result_congr (same : ring.view = other.view) : ring.result = other.result := by
  have seen (ring : Ring) {find : Task → Option Error}
      (kept : ∀ task, find task.settled = find task) :
      ring.tasks.findSome? find = ring.view.findSome? find := by
    unfold view
    rw [List.findSome?_map]
    exact congrArg (List.findSome? · _) (funext fun task => (kept task).symm)
  have first : ring.firstError? = other.firstError? := by
    unfold firstError?
    rw [seen ring fun task => by rw [task.outcome_settled],
      seen other fun task => by rw [task.outcome_settled], same]
  have newest (ring : Ring) : ring.tasks.getLast?.bind (·.outcome) =
      ring.view.getLast?.bind (·.outcome) := by
    unfold view
    rw [List.getLast?_map, Option.bind_map]
    exact congrArg _ (funext fun task => task.outcome_settled.symm)
  have size (ring : Ring) : ring.tasks.length = ring.view.length := (List.length_map _).symm
  unfold result
  rw [first, newest ring, newest other, size ring, size other, same]

/-! ## Standstills -/

theorem standstill_of_isFinished (finished : ring.isFinished = true) : Standstill step? ring := by
  intro index
  cases stepped : ring.step? index with
  | none => rfl
  | some next =>
      obtain ⟨task, message, later, here, came, active, _⟩ := step?_eq_some_iff.mp stepped
      have ended : task.isFinished = true :=
        List.all_eq_true.mp finished task (List.mem_of_getElem? here)
      rw [Task.isFinished, (Task.step_cases came active).1] at ended
      cases ended

/-- **Schedules agree.** When one schedule lets all tasks finish, no schedule goes on forever, and
every schedule that goes on for as long as it can lets all tasks finish, each having read and put
out the same and with the same outcome. -/
theorem schedules_agree (followed : follow step? ring schedule = some final)
    (finished : final.isFinished = true) :
    (∀ endless : Nat → Nat, ∃ length,
      follow step? ring ((List.range length).map endless) = none) ∧
    ∀ taken last, follow step? ring taken = some last → Standstill step? last →
      last.isFinished = true ∧ last.view = final.view ∧
      ∀ who, ring.consumed who taken = ring.consumed who schedule ∧
        ring.emitted who taken = ring.emitted who schedule := by
  have still := standstill_of_isFinished finished
  refine ⟨commuting.no_endless_order still followed, ?_⟩
  intro taken last reached stopped
  obtain ⟨same, deeds⟩ := commuting.standstill_unique still followed reached stopped
  refine ⟨(isFinished_congr same).trans finished, same, ?_⟩
  intro who
  constructor
  · exact congrArg (List.filterMap Prod.fst) (deeds who)
  · exact congrArg (List.filterMap Prod.snd) (deeds who)

/-! ## Turn by turn -/

theorem move_of_idle (idle : ring.step? index = none) : ring.move index = (.idle, ring) := by
  cases here : ring.tasks[index]? with
  | none => exact move_outside here
  | some task =>
      rw [move_eq here]
      cases came : task.step index (ring.feederFinished index) with
      | mk message later =>
          by_cases quiet : message = .idle
          · subst quiet
            rw [Task.eq_of_step_idle came]
            have same : ring.tasks.set index task = ring.tasks := by
              apply List.ext_getElem?
              intro position
              rw [List.getElem?_set]
              split
              · rename_i equal
                rw [← equal, here, if_pos (getElem?_inside here)]
              · rfl
            apply Prod.ext
            · rfl
            · apply congrArg Ring.mk
              rw [same]
              exact List.modify_id ..
          · rw [step?_eq_some_iff.mpr ⟨task, message, later, here, came, quiet, rfl⟩] at idle
            cases idle

theorem move_of_step (stepped : ring.step? index = some next) :
    ∃ message, message ≠ .idle ∧ ring.move index = (message, next) := by
  obtain ⟨task, message, later, here, came, active, rfl⟩ := step?_eq_some_iff.mp stepped
  exact ⟨message, active, by rw [move_eq here, came]⟩

/-- How many positions there are from one to another, around a ring. -/
def ahead (size index position : Nat) : Nat :=
  if index ≤ position then position - index else position + size - index

theorem ahead_succ_mod {size position : Nat} (insideIndex : index < size)
    (insidePosition : position < size) (other : position ≠ index) :
    ahead size ((index + 1) % size) position + 1 = ahead size index position := by
  rw [succ_mod_eq insideIndex]
  unfold ahead
  split <;> split <;> split <;> omega

/-- The state in which turns are taken: the tasks that passed have no step to make, hence any task
that has one is not further ahead than the turns that remain. -/
def Awaits (ring : Ring) (index passed : Nat) : Prop :=
  ∀ position < ring.tasks.length, (ring.step? position).isSome →
    ahead ring.tasks.length index position < ring.tasks.length - passed

theorem length_of_step? (stepped : ring.step? index = some next) :
    next.tasks.length = ring.tasks.length := by
  obtain ⟨task, message, later, _, _, _, rfl⟩ := step?_eq_some_iff.mp stepped
  exact length_after ..

theorem inside_of_step? (stepped : ring.step? index = some next) : index < ring.tasks.length := by
  obtain ⟨task, message, later, here, _⟩ := step?_eq_some_iff.mp stepped
  exact getElem?_inside here

theorem Awaits.standstill {passed : Nat} (awaits : ring.Awaits index passed)
    (all : ring.tasks.length ≤ passed) : Standstill step? ring := by
  intro position
  cases stepped : ring.step? position with
  | none => rfl
  | some next =>
      have near := awaits position (inside_of_step? stepped) (by rw [stepped]; rfl)
      omega

theorem Awaits.pass {passed : Nat} (awaits : ring.Awaits index passed)
    (inside : index < ring.tasks.length) (idle : ring.step? index = none) :
    ring.Awaits ((index + 1) % ring.tasks.length) (passed + 1) := by
  intro position insidePosition possible
  have other : position ≠ index := by
    rintro rfl
    rw [idle] at possible
    cases possible
  have near := awaits position insidePosition possible
  have closer := ahead_succ_mod inside insidePosition other
  omega

theorem awaits_zero (inside : index < ring.tasks.length) : ring.Awaits index 0 := by
  intro position insidePosition _
  unfold ahead
  split <;> omega

/-- **Turn by turn.** When some schedule lets all tasks finish, taking turns does so. -/
theorem exists_iterate_scheduleTurn {passed : Nat} (inside : index < ring.tasks.length)
    (awaits : ring.Awaits index passed) (followed : follow step? ring schedule = some final)
    (finished : final.isFinished = true) :
    ∃ last taken, follow step? ring taken = some last ∧ last.isFinished = true ∧
      ∃ fuel, iterate scheduleTurn fuel (ring, index, passed) = some last := by
  -- The steps that remain to be made come first, then the turns that remain to be passed.
  induction remaining : schedule.length using Nat.strongRecOn generalizing
    ring index passed schedule final with
  | ind steps ihSteps =>
      induction turns : ring.tasks.length - passed generalizing index passed with
      | zero =>
          have still := awaits.standstill (Nat.sub_eq_zero_iff_le.mp turns)
          obtain ⟨rfl, rfl⟩ := still.follow_eq followed
          refine ⟨final, [], rfl, finished, exists_iterate_iff.mpr (.inl ?_)⟩
          have all : final.tasks.length ≤ passed := Nat.sub_eq_zero_iff_le.mp turns
          simp only [scheduleTurn, all, finished, ↓reduceIte]
      | succ left ihTurns =>
          have more : ¬ring.tasks.length ≤ passed := by omega
          cases stepped : ring.step? index with
          | none =>
              have insideNext : (index + 1) % ring.tasks.length < ring.tasks.length :=
                Nat.mod_lt _ (by omega)
              obtain ⟨last, taken, reached, ended, returned⟩ :=
                ihTurns insideNext (awaits.pass inside stepped) (by omega)
              refine ⟨last, taken, reached, ended, exists_iterate_iff.mpr (.inr ⟨_, ?_, returned⟩)⟩
              simp only [scheduleTurn, more, ↓reduceIte, move_of_idle stepped]
          | some next =>
              obtain ⟨rest, stop, followedRest, same, length, _⟩ :=
                commuting.advance (standstill_of_isFinished finished) followed stepped
              have insideNext : index < next.tasks.length := by rwa [length_of_step? stepped]
              obtain ⟨last, taken, reached, ended, returned⟩ :=
                ihSteps rest.length (by omega) insideNext (awaits_zero insideNext) followedRest
                  ((isFinished_congr same).trans finished) rfl
              refine ⟨last, index :: taken, by rw [follow_cons stepped]; exact reached, ended,
                exists_iterate_iff.mpr (.inr ⟨_, ?_, returned⟩)⟩
              obtain ⟨message, active, moved⟩ := move_of_step stepped
              cases message with
              | idle => exact absurd rfl active
              | _ => simp only [scheduleTurn, more, ↓reduceIte, moved]

/-- The schedule that is carried out finishes when any does, and with the same view. -/
theorem run_finishes (nonempty : ring.tasks ≠ [])
    (followed : follow step? ring schedule = some final) (finished : final.isFinished = true) :
    ∃ fuel last, ring.run fuel = some last ∧ last.view = final.view := by
  have inside : 0 < ring.tasks.length := List.length_pos_iff.mpr nonempty
  obtain ⟨last, taken, reached, ended, fuel, returned⟩ :=
    exists_iterate_scheduleTurn inside (awaits_zero inside) followed finished
  exact ⟨fuel, last, returned, (commuting.standstill_unique (standstill_of_isFinished finished)
    followed reached (standstill_of_isFinished ended)).1⟩

/-! ## Outcomes -/

/-- An unfinished task is about to read from its channel, which is empty, and the task that feeds it
is finished. -/
structure Starves (ring : Ring) (who : Nat) (task : Task) : Prop where
  here : ring.tasks[who]? = some task
  unfinished : task.outcome = none
  reads : ∃ instruction address, task.machine.plan = .ok (instruction, .input address)
  empty : task.machine.bridge.input = []
  closed : ring.feederFinished who = true

/-- What an unfinished task is about to fail with: the error of its instruction, or that its channel
is closed, behind which stands that its machine lacks input. -/
inductive Fails (ring : Ring) (who : Nat) : Error → Prop
  | fault {task : Task} {machine : Machine} {error : Error}
      (here : ring.tasks[who]? = some task) (unfinished : task.outcome = none)
      (executed : task.machine.execute .queue = (.error error, machine)) :
      Fails ring who (Chain.atAmplifier who (error.inOperation Suspend.never.operation))
  | starved {task : Task} (starves : ring.Starves who task) :
      Fails ring who ((Error.channelClosed ("amplifier " ++ Text.natText who ++ " input")).causedBy
        (Chain.atAmplifier who
          ((Error.inputUnderrun task.machine.ip).inOperation Suspend.never.operation)))

variable {error : Error}

/-- No task reports an underrun. -/
theorem Fails.kind_ne (fails : ring.Fails who error) : error.kind ≠ .inputUnderrun := by
  cases fails with
  | fault _ _ executed => exact (Machine.execute_eq_iff.mp executed).kind_of_queue
  | starved => exact ErrorKind.noConfusion

/-- A task that is about to fail does so in its next step. -/
theorem Fails.exists_step? (fails : ring.Fails who error) :
    ∃ next, ring.step? who = some next ∧ next.outcomeAt who = some (.error error) := by
  have ends {task later : Task} (here : ring.tasks[who]? = some task)
      (stepped : task.step who (ring.feederFinished who) = (.finished, later))
      (failed : later.outcome = some (.error error)) :
      ∃ next, ring.step? who = some next ∧ next.outcomeAt who = some (.error error) := by
    refine ⟨ring.after who .finished later,
      step?_eq_some_iff.mpr ⟨_, _, _, here, stepped, Task.Move.noConfusion, rfl⟩, ?_⟩
    rw [outcomeAt_after (getElem?_inside here), if_pos rfl, failed]
  cases fails with
  | fault here unfinished executed =>
      refine ends here (Task.step_of_execute unfinished executed nofun _ _) ?_
      rw [Task.failure_of_ne who (Machine.execute_eq_iff.mp executed).kind_of_queue]
  | @starved task starves =>
      have waits : task.machine.execute .queue = (.ok .needsInput, task.machine) :=
        Machine.execute_queue_waits_iff.mpr ⟨rfl, starves.empty, starves.reads⟩
      have stepped : task.step who (ring.feederFinished who) = (.finished, task.starve who) := by
        rw [starves.closed]
        exact Task.step_of_waits starves.unfinished waits who
      exact ends starves.here stepped rfl

/-- A task that has failed in a step was about to do so. -/
theorem fails_of_step? (stepped : ring.step? index = some next)
    (unfinished : ring.outcomeAt who = none) (failed : next.outcomeAt who = some (.error error)) :
    ring.Fails who error := by
  obtain ⟨task, message, later, here, came, active, rfl⟩ := step?_eq_some_iff.mp stepped
  rw [outcomeAt_after (getElem?_inside here)] at failed
  split at failed
  · rename_i same
    subst same
    rcases Task.step_cases came active with
      ⟨working, ⟨outcome, machine, executed, _, concluded⟩ | ⟨waits, closed, _, rfl⟩⟩
    · unfold Task.conclude at concluded
      split at concluded <;> cases concluded <;> cases failed
      rw [Task.failure_of_ne who (Machine.execute_eq_iff.mp executed).kind_of_queue]
      exact .fault here working executed
    · cases failed
      obtain ⟨_, empty, reads⟩ := Machine.execute_queue_waits_iff.mp waits
      exact .starved ⟨here, working, reads, empty, closed⟩
  · rw [unfinished] at failed
    cases failed

/-- A task that has failed along a schedule was about to do so at some moment of it. -/
theorem exists_fails_of_follow (followed : follow step? ring schedule = some final)
    (unfinished : ring.outcomeAt who = none) (failed : final.outcomeAt who = some (.error error)) :
    ∃ past moment, follow step? ring past = some moment ∧ moment.Fails who error := by
  induction schedule generalizing ring with
  | nil =>
      cases followed
      rw [unfinished] at failed
      cases failed
  | cons actor schedule ih =>
      obtain ⟨next, stepped, further⟩ := follow_cons_eq_some_iff.mp followed
      cases ended : next.outcomeAt who with
      | none =>
          obtain ⟨past, moment, reached, fails⟩ := ih further ended
          exact ⟨actor :: past, moment, (follow_cons stepped past).trans reached, fails⟩
      | some outcome =>
          have stays := outcomeAt_of_follow further ended
          rw [failed] at stays
          cases stays
          exact ⟨[], ring, rfl, fails_of_step? stepped unfinished ended⟩

/-- A task that is about to fail along any schedule has failed when all tasks are finished. -/
theorem Fails.outcomeAt {past : List Nat} {moment : Ring} (fails : moment.Fails who error)
    (reached : follow step? ring past = some moment)
    (followed : follow step? ring schedule = some final) (finished : final.isFinished = true) :
    final.outcomeAt who = some (.error error) := by
  obtain ⟨next, stepped, failed⟩ := fails.exists_step?
  have behind : follow step? ring (past ++ [who]) = some next := by
    rw [follow_concat, reached, Option.bind_some, stepped]
  obtain ⟨rest, last, further, same, _⟩ :=
    commuting.completion (standstill_of_isFinished finished) followed behind
  rw [← outcomeAt_congr same who]
  exact outcomeAt_of_follow further failed

theorem result_of_first_failure {error : Error} (failed : ring.outcomeAt who = some (.error error))
    (before : ∀ earlier < who, ∃ value, ring.outcomeAt earlier = some (.ok value)) :
    ring.result = .error error := by
  obtain ⟨task, here, ended⟩ := Option.bind_eq_some_iff.mp failed
  have inside := getElem?_inside here
  have first : ring.firstError? = some error := by
    refine List.findSome?_eq_some_iff.mpr ⟨ring.tasks.take who, task, ring.tasks.drop (who + 1),
      ?_, ?_, ?_⟩
    · have there : ring.tasks[who] = task := (List.getElem?_eq_some_iff.mp here).2
      rw [← there, List.getElem_cons_drop, List.take_append_drop]
    · simp only [ended]
    · intro other among
      obtain ⟨earlier, position, rfl⟩ := List.mem_iff_getElem.mp among
      rw [List.length_take] at position
      obtain ⟨value, fine⟩ := before earlier (by omega)
      have found : ring.tasks[earlier]? = some (ring.tasks.take who)[earlier] := by
        rw [List.getElem_take]
        exact List.getElem?_eq_getElem _
      rw [outcomeAt, found, Option.bind_some] at fine
      simp only [fine]
  simp only [result, first]

/-- Without a failure the newest output of the last task is the result. -/
theorem result_of_no_failure {value : Word}
    (fine : ∀ earlier < ring.tasks.length, ∃ value, ring.outcomeAt earlier = some (.ok value))
    (ended : ring.outcomeAt (ring.tasks.length - 1) = some (.ok (some value))) :
    ring.result = .ok value := by
  have none : ring.firstError? = none := by
    apply List.findSome?_eq_none_iff.mpr
    intro task among
    obtain ⟨earlier, inside, rfl⟩ := List.mem_iff_getElem.mp among
    obtain ⟨value, fine⟩ := fine earlier inside
    rw [outcomeAt, List.getElem?_eq_getElem inside, Option.bind_some] at fine
    simp only [fine]
  have newest : ring.tasks.getLast?.bind (·.outcome) = some (.ok (some value)) := by
    rw [List.getLast?_eq_getElem?]
    exact ended
  simp only [result, none, newest]

/-- A ring that gives a value ends well, and its last task with that value. -/
theorem outcomes_of_result {value : Word} (returned : ring.result = .ok value) :
    (∀ who error, ring.outcomeAt who ≠ some (.error error)) ∧
      ring.outcomeAt (ring.tasks.length - 1) = some (.ok (some value)) := by
  unfold result at returned
  split at returned
  · cases returned
  · rename_i none
    split at returned
    · rename_i newest
      cases returned
      constructor
      · intro who error failed
        obtain ⟨task, here, ended⟩ := Option.bind_eq_some_iff.mp failed
        have absent := List.findSome?_eq_none_iff.mp none task (List.mem_of_getElem? here)
        simp only [ended] at absent
        cases absent
      · rwa [List.getLast?_eq_getElem?] at newest
    · cases returned

/-! ## From the start -/

variable {program : Program} {phases : List Word} {input : Word}

theorem length_ofPhases (program : Program) (phases : List Word) (input : Word) :
    (ofPhases program phases input).tasks.length = phases.length := by
  cases phases with
  | nil => rfl
  | cons phase rest => simp [ofPhases]

theorem outcomeAt_ofPhases (program : Program) (phases : List Word) (input : Word) (who : Nat) :
    (ofPhases program phases input).outcomeAt who = none := by
  have working : ∀ task ∈ (ofPhases program phases input).tasks, task.outcome = none := by
    intro task among
    unfold ofPhases at among
    split at among
    · cases among
    · obtain ⟨machine, _, rfl⟩ := List.mem_map.mp among
      rfl
  unfold outcomeAt
  cases here : (ofPhases program phases input).tasks[who]? with
  | none => rfl
  | some task => exact working task (List.mem_of_getElem? here)

theorem length_of_follow (followed : follow step? ring schedule = some final) :
    final.tasks.length = ring.tasks.length := by
  apply follow_preserves (P := fun reached => reached.tasks.length = ring.tasks.length) _ followed
  · rfl
  · intro here next actor stepped same
    exact (length_of_step? stepped).trans same

/-- What a schedule that lets all tasks finish comes to is the answer of the one carried out. -/
theorem exists_runRing (nonempty : phases ≠ [])
    (followed : follow step? (ofPhases program phases input) schedule = some final)
    (finished : final.isFinished = true) :
    ∃ fuel, runRing fuel program phases input = some final.result := by
  have tasks : (ofPhases program phases input).tasks ≠ [] := by
    rwa [← List.length_pos_iff, length_ofPhases, List.length_pos_iff]
  obtain ⟨fuel, last, returned, same⟩ := run_finishes tasks followed finished
  refine ⟨fuel, ?_⟩
  cases phases with
  | nil => exact absurd rfl nonempty
  | cons phase rest => simp only [runRing, returned, Option.map_some, result_congr same]

/-- **Feedback side by side does not depend on the schedule.** Let the amplifiers of a feedback
loop be tasks joined in a ring, and let one schedule of their steps let all of them finish. Then
no schedule goes on forever, and along every schedule that goes on for as long as it can all tasks
finish. Each has then read the same, put out the same and ended with the same outcome, and the
result is the same: the error of the first task that failed, or the newest output of the last. The
schedule that is carried out comes to that result. The tasks that fail are those that are about to
fail at some moment of some schedule, and with the error they are then about to fail with. One that
lacks input when its feeder is finished reports that its channel is closed, and none reports an
underrun. -/
theorem interleavings_agree (program : Program) {phases : List Word} (nonempty : phases ≠ [])
    (input : Word) {schedule : List Nat} {final : Ring}
    (followed : follow step? (ofPhases program phases input) schedule = some final)
    (finished : final.isFinished = true) :
    (∀ endless : Nat → Nat, ∃ length,
      follow step? (ofPhases program phases input) ((List.range length).map endless) = none) ∧
    (∀ taken last, follow step? (ofPhases program phases input) taken = some last →
      Standstill step? last →
      last.isFinished = true ∧ last.result = final.result ∧
      ∀ who, last.outcomeAt who = final.outcomeAt who ∧
        (ofPhases program phases input).consumed who taken =
          (ofPhases program phases input).consumed who schedule ∧
        (ofPhases program phases input).emitted who taken =
          (ofPhases program phases input).emitted who schedule) ∧
    (∃ fuel, runRing fuel program phases input = some final.result) ∧
    (∀ who error, final.outcomeAt who = some (.error error) ↔
      ∃ past moment, follow step? (ofPhases program phases input) past = some moment ∧
        moment.Fails who error) ∧
    (∀ past moment who task, follow step? (ofPhases program phases input) past = some moment →
      moment.Starves who task →
        ∃ error, final.outcomeAt who = some (.error error) ∧ error.kind = .channelClosed) ∧
    (∀ who error, final.outcomeAt who = some (.error error) → error.kind ≠ .inputUnderrun ∧
      ((∀ earlier < who, ∃ value, final.outcomeAt earlier = some (.ok value)) →
        final.result = .error error)) ∧
    ∀ value, final.outcomeAt (phases.length - 1) = some (.ok (some value)) →
      (∀ earlier < phases.length, ∃ value, final.outcomeAt earlier = some (.ok value)) →
      final.result = .ok value := by
  obtain ⟨bounded, agree⟩ := schedules_agree followed finished
  have size : final.tasks.length = phases.length :=
    (length_of_follow followed).trans (length_ofPhases program phases input)
  have fails {who : Nat} {error : Error} (failed : final.outcomeAt who = some (.error error)) :
      ∃ past moment, follow step? (ofPhases program phases input) past = some moment ∧
        moment.Fails who error :=
    exists_fails_of_follow followed (outcomeAt_ofPhases ..) failed
  refine ⟨bounded, ?_, exists_runRing nonempty followed finished, ?_, ?_, ?_, ?_⟩
  · intro taken last reached stopped
    obtain ⟨ended, same, traffic⟩ := agree taken last reached stopped
    exact ⟨ended, result_congr same, fun who => ⟨outcomeAt_congr same who, traffic who⟩⟩
  · intro who error
    constructor
    · exact fails
    · rintro ⟨past, moment, reached, failing⟩
      exact failing.outcomeAt reached followed finished
  · intro past moment who task reached starves
    exact ⟨_, (Fails.starved starves).outcomeAt reached followed finished, rfl⟩
  · intro who error failed
    constructor
    · obtain ⟨past, moment, _, failing⟩ := fails failed
      exact failing.kind_ne
    · exact result_of_first_failure failed
  · intro value ended fine
    rw [← size] at ended fine
    exact result_of_no_failure fine ended

/-- A program that reads its phase setting and a signal, passes the signal on and halts. -/
def relay : Program :=
  ⟨[3, 7, 3, 7, 4, 7, 99, 0]⟩

/-- A relay without scratch cells that was given its phase setting. -/
def bareRelay (phase : Word) : Machine :=
  Chain.amplifier relay { scratchCells := 0, underrun := .error } phase

/-- With the usual scratch cells it is an amplifier of a ring. -/
theorem widen_bareRelay (phase : Word) :
    (bareRelay phase).widen defaultScratch = Chain.amplifier relay Config.strict phase :=
  @Chain.amplifier_widen relay { scratchCells := 0, underrun := .error } _ (by decide) phase

/-- A chain of two relays is one of two bare relays with more scratch cells. -/
theorem ofPhases_relay (first second : Word) :
    Chain.ofPhases relay [first, second] =
      .ok ⟨[bareRelay first, bareRelay second].map (·.widen defaultScratch)⟩ := by
  rw [List.map_cons, List.map_cons, List.map_nil, widen_bareRelay, widen_bareRelay]
  rfl

theorem relays_finish : ∃ final,
    follow step? (ofPhases relay [1, 2] 5) [0, 1, 0, 0, 0, 1, 1, 1] = some final ∧
      final.isFinished = true ∧ final.result = .ok 5 := by
  have found : ∃ final, follow step?
      ⟨[{ machine := (bareRelay 1).feed [5] }, { machine := bareRelay 2 }]⟩
        [0, 1, 0, 0, 0, 1, 1, 1] = some final ∧
      final.isFinished = true ∧ final.result = .ok 5 := ⟨_, rfl, rfl, rfl⟩
  obtain ⟨final, followed, finished, result⟩ := found
  have wide := follow_widen followed
    (fun who _ ended ⟨error, failed, _⟩ => (outcomes_of_result result).1 who error (failed ▸ ended))
    defaultScratch
  have same : Ring.widen ⟨[{ machine := (bareRelay 1).feed [5] }, { machine := bareRelay 2 }]⟩
      defaultScratch = ⟨[{ machine := ((bareRelay 1).widen defaultScratch).feed [5] },
        { machine := (bareRelay 2).widen defaultScratch }]⟩ := rfl
  rw [same, widen_bareRelay, widen_bareRelay] at wide
  exact ⟨_, wide, by rw [isFinished_widen, finished], by rw [result_widen, result]⟩

/-- The schedule that is carried out agrees with another one about two relays. -/
theorem relays_agree :
    [1, 2] ≠ ([] : List Word) ∧ ∃ schedule final,
      follow step? (ofPhases relay [1, 2] 5) schedule = some final ∧ final.isFinished = true ∧
      ∃ fuel, runRing fuel relay [1, 2] 5 = some (.ok 5) := by
  obtain ⟨final, followed, finished, result⟩ := relays_finish
  obtain ⟨_, _, ⟨fuel, returned⟩, _⟩ :=
    @interleavings_agree relay [1, 2] (by decide) 5 _ _ followed finished
  rw [result] at returned
  exact ⟨by decide, _, _, followed, finished, fuel, returned⟩

end Ring

end Intcode
