import Intcode.Chain.Ring
import Intcode.Proofs.Interleaving
import Intcode.Proofs.Runs

/-! # Steps of tasks in a ring

A task that can make a step can make the same step after other tasks have made theirs: what they
send it is queued behind what it reads next, and that its feeder finishes matters to it only when
it waits (`Task.step_getting`). So the steps of different tasks commute (`Ring.commuting`).

They do so but for one thing. What is sent to a task that finishes is queued if it arrives before
and dropped if it arrives after, and nobody will ever read it. Rings are therefore compared with
the queues of finished tasks emptied (`Task.settled`). -/

namespace Intcode

namespace Task

variable {index : Nat} {task after other : Task} {message incoming : Move} {finished : Bool}

/-- The value that a move sends on. -/
def Move.sent? : Move → Option Word
  | .sent value => some value
  | _ => none

/-- The task after another's move has reached it. -/
def getting (message : Move) (task : Task) : Task :=
  match message with
  | .sent value => task.receive value
  | _ => task

/-- The task with its queue emptied once it is finished. -/
def settled (task : Task) : Task :=
  if task.isFinished then
    { task with
      machine := { task.machine with bridge := { task.machine.bridge with input := [] } } }
  else task

theorem outcome_receive (task : Task) (value : Word) :
    (task.receive value).outcome = task.outcome := by
  unfold receive
  split <;> rfl

theorem outcome_getting (message : Move) (task : Task) :
    (task.getting message).outcome = task.outcome := by
  cases message with
  | sent value => exact task.outcome_receive value
  | _ => rfl

theorem isFinished_getting (message : Move) (task : Task) :
    (task.getting message).isFinished = task.isFinished :=
  congrArg Option.isSome (task.outcome_getting message)

theorem outcome_settled (task : Task) : task.settled.outcome = task.outcome := by
  unfold settled
  split <;> rfl

theorem isFinished_settled (task : Task) : task.settled.isFinished = task.isFinished :=
  congrArg Option.isSome task.outcome_settled

theorem settled_of_unfinished (unfinished : task.outcome = none) : task.settled = task := by
  simp only [settled, isFinished, unfinished, Option.isSome_none, Bool.false_eq_true, ↓reduceIte]

theorem getting_of_finished (message : Move) (ended : task.isFinished = true) :
    task.getting message = task := by
  cases message with
  | sent value => simp only [getting, receive, ended, ↓reduceIte]
  | _ => rfl

theorem receive_of_unfinished (unfinished : task.outcome = none) (value : Word) :
    task.receive value = { task with machine := task.machine.feed [value] } := by
  simp only [receive, isFinished, unfinished, Option.isSome_none, Bool.false_eq_true, ↓reduceIte]

theorem eq_of_settled_eq (same : task.settled = other.settled)
    (unfinished : task.outcome = none) : task = other := by
  have otherUnfinished : other.outcome = none := by
    rw [← other.outcome_settled, ← same, task.outcome_settled, unfinished]
  rwa [settled_of_unfinished unfinished, settled_of_unfinished otherUnfinished] at same

theorem settled_getting (same : task.settled = other.settled) (message : Move) :
    (task.getting message).settled = (other.getting message).settled := by
  cases ended : task.isFinished with
  | true =>
      have otherEnded : other.isFinished = true := by
        rw [← other.isFinished_settled, ← same, task.isFinished_settled, ended]
      rw [getting_of_finished message ended, getting_of_finished message otherEnded, same]
  | false =>
      rw [eq_of_settled_eq same (Option.isNone_iff_eq_none.mp (by simpa [isFinished] using ended))]

/-! ## What a step comes to -/

/-- What an executed instruction makes of its task. -/
def conclude (index : Nat) (machine : Machine) : Except Error Step → Move × Task
  | .ok .executed => (.worked, { machine })
  | .ok (.output value) => (.sent value, { machine })
  | .ok .needsInput => (.idle, { machine })
  | .ok .halted => (.finished, { machine, outcome := some (.ok machine.lastOutput) })
  | .error error => (.finished, { machine, outcome := some (.error (failure index error)) })

/-- What the end of its feeder makes of a task that waits. -/
def starve (index : Nat) (task : Task) : Task :=
  { task with outcome := some (.error (failure index (Error.inputUnderrun task.machine.ip))) }

/-- A task that is finished makes no step, one that waits makes a step when its feeder has
finished, and any other makes the step of its instruction. -/
theorem step_eq (index : Nat) (feederFinished : Bool) (task : Task) :
    task.step index feederFinished =
      match task.outcome, task.machine.execute .queue with
      | some _, _ => (.idle, task)
      | none, (.ok .needsInput, _) =>
          if feederFinished then (.finished, task.starve index) else (.idle, task)
      | none, (outcome, machine) => conclude index machine outcome := by
  obtain ⟨machine, ended⟩ := task
  cases ended with
  | some result => rfl
  | none =>
      unfold step
      dsimp only
      cases executed : machine.execute .queue with
      | mk outcome next =>
          cases outcome with
          | error error => rfl
          | ok step =>
              cases step with
              | needsInput =>
                  obtain ⟨rfl, _⟩ := Machine.eq_of_execute_queue_waits executed
                  rfl
              | _ => rfl

/-- A step of a task is that of its instruction, or its end when it waits and its feeder has
finished. -/
theorem step_cases (stepped : task.step index finished = (message, after))
    (active : message ≠ .idle) :
    task.outcome = none ∧
      ((∃ outcome machine, task.machine.execute .queue = (outcome, machine) ∧
          outcome ≠ .ok .needsInput ∧ conclude index machine outcome = (message, after)) ∨
        task.machine.execute .queue = (.ok .needsInput, task.machine) ∧ finished = true ∧
          message = .finished ∧ after = task.starve index) := by
  rw [step_eq] at stepped
  split at stepped
  · cases stepped
    exact absurd rfl active
  · rename_i unfinished executed
    split at stepped
    · rename_i ended
      cases stepped
      obtain ⟨rfl, _⟩ := Machine.eq_of_execute_queue_waits executed
      exact ⟨unfinished, .inr ⟨executed, ended, rfl, rfl⟩⟩
    · cases stepped
      exact absurd rfl active
  · rename_i outcome machine fed unfinished executed
    exact ⟨unfinished, .inl ⟨outcome, machine, executed, fed, stepped⟩⟩

theorem eq_of_step_idle (stepped : task.step index finished = (.idle, after)) : after = task := by
  rw [step_eq] at stepped
  split at stepped
  · exact (congrArg Prod.snd stepped).symm
  · split at stepped
    · cases stepped
    · exact (congrArg Prod.snd stepped).symm
  · rename_i outcome machine fed _ _
    cases outcome with
    | error error => cases stepped
    | ok step =>
        cases step with
        | needsInput => exact absurd rfl fed
        | _ => cases stepped

theorem step_of_execute {outcome : Except Error Step} {machine : Machine}
    (unfinished : task.outcome = none) (executed : task.machine.execute .queue = (outcome, machine))
    (fed : outcome ≠ .ok .needsInput) (index : Nat) (finished : Bool) :
    task.step index finished = conclude index machine outcome := by
  rw [step_eq, unfinished, executed]
  split
  · rename_i ended
    cases ended
  · rename_i same
    cases same
    exact absurd rfl fed
  · rename_i same
    cases same
    rfl

theorem step_of_waits (unfinished : task.outcome = none)
    (waits : task.machine.execute .queue = (.ok .needsInput, task.machine)) (index : Nat) :
    task.step index true = (.finished, task.starve index) := by
  rw [step_eq, unfinished, waits]
  rfl

theorem conclude_feed {outcome : Except Error Step} (fed : outcome ≠ .ok .needsInput)
    (index : Nat) (machine : Machine) (value : Word) :
    (conclude index (machine.feed [value]) outcome).1 = (conclude index machine outcome).1 ∧
      (conclude index (machine.feed [value]) outcome).2.settled =
        ((conclude index machine outcome).2.receive value).settled := by
  cases outcome with
  | error error => exact ⟨rfl, rfl⟩
  | ok step =>
      cases step with
      | needsInput => exact absurd rfl fed
      | _ => exact ⟨rfl, rfl⟩

/-- **A step keeps.** A step that a task can make while its feeder works is also possible after
another task has made a step, comes to the same and reads the same: what it is sent goes behind
what it reads, and its feeder's end does not concern it. -/
theorem step_getting (stepped : task.step index false = (message, after))
    (active : message ≠ .idle) (working : ∀ value, incoming = .sent value → finished = false) :
    ∃ later, (task.getting incoming).step index finished = (message, later) ∧
      later.settled = (after.getting incoming).settled ∧
      (task.getting incoming).machine.nextRead = task.machine.nextRead := by
  rcases step_cases stepped active with
    ⟨unfinished, ⟨outcome, machine, executed, fed, concluded⟩ | ⟨_, absurd, _⟩⟩
  · cases incoming with
    | sent value =>
        obtain ⟨sameMessage, sameTask⟩ := conclude_feed fed index machine value
        rw [concluded] at sameMessage sameTask
        have executedFed : (task.machine.feed [value]).execute .queue =
            (outcome, machine.feed [value]) :=
          ((Machine.execute_eq_iff.mp executed).feed fed [value]).execute_eq
        rw [getting, receive_of_unfinished unfinished]
        refine ⟨_, ?_, sameTask, Machine.nextRead_feed executed fed [value]⟩
        rw [@step_of_execute { task with machine := task.machine.feed [value] } _ _ unfinished
          executedFed fed index finished]
        exact Prod.ext sameMessage rfl
    | _ =>
        refine ⟨after, ?_, rfl, rfl⟩
        rw [← concluded]
        exact step_of_execute unfinished executed fed _ _
  · cases absurd

theorem sender_unfinished {value : Word}
    (stepped : task.step index finished = (.sent value, after)) : after.isFinished = false := by
  rcases step_cases stepped Move.noConfusion with
    ⟨_, ⟨outcome, machine, _, _, concluded⟩ | ⟨_, _, absurd, _⟩⟩
  · unfold conclude at concluded
    split at concluded <;> cases concluded
    rfl
  · cases absurd

/-- Any error but an underrun is reported as it is. -/
theorem failure_of_ne {error : Error} (index : Nat) (other : error.kind ≠ .inputUnderrun) :
    failure index error = Chain.atAmplifier index (error.inOperation Suspend.never.operation) :=
  if_neg other

end Task

namespace Ring

variable {ring next other : Ring} {index first second : Nat}

theorem operateAt_eq {α β : Type} (operation : α → β × α) (position : Nat) (list : List α) :
    operateAt operation position list =
      match list[position]? with
      | none => (none, list)
      | some element => (some (operation element).1, list.set position (operation element).2) := by
  induction list generalizing position with
  | nil => cases position <;> rfl
  | cons head rest ih =>
      cases position with
      | zero => rfl
      | succ position =>
          simp only [operateAt, ih, List.getElem?_cons_succ, List.set_cons_succ]
          cases rest[position]? <;> rfl

/-- The ring after a move of the task at a position, which leaves that task behind and is noticed
by the next. -/
def after (ring : Ring) (index : Nat) (message : Task.Move) (task : Task) : Ring :=
  ⟨(ring.tasks.set index task).modify ((index + 1) % ring.tasks.length) (·.getting message)⟩

/-- What is not sent on concerns nobody else. -/
theorem after_of_silent {message : Task.Move} (silent : message.sent? = none) (task : Task) :
    ring.after index message task = ⟨ring.tasks.set index task⟩ := by
  cases message with
  | sent value => cases silent
  | _ => exact congrArg Ring.mk (List.modify_id ..)

/-- Whether the task that feeds a position has ended. -/
def feederFinished (ring : Ring) (index : Nat) : Bool :=
  finishedAt ring.tasks (feeder ring.tasks.length index)

/-- A move is a step of the task at the position, noticed by the next. -/
theorem move_eq {task : Task} (here : ring.tasks[index]? = some task) :
    ring.move index =
      ((task.step index (ring.feederFinished index)).1,
        ring.after index (task.step index (ring.feederFinished index)).1
          (task.step index (ring.feederFinished index)).2) := by
  have operated : operateAt (Task.step index (ring.feederFinished index)) index ring.tasks =
      (some (task.step index (ring.feederFinished index)).1,
        ring.tasks.set index (task.step index (ring.feederFinished index)).2) := by
    rw [operateAt_eq, here]
  unfold feederFinished at operated ⊢
  simp only [move, operated]
  cases task.step index (finishedAt ring.tasks (feeder ring.tasks.length index)) with
  | mk message task =>
      cases message with
      | sent value => rfl
      | _ => exact Prod.ext rfl (after_of_silent rfl task).symm

theorem move_outside (outside : ring.tasks[index]? = none) : ring.move index = (.idle, ring) := by
  unfold move
  simp only [operateAt_eq, outside]

/-- What it takes for a position to make a step, and what comes of it. -/
theorem step?_eq_some_iff :
    ring.step? index = some next ↔
      ∃ task message later, ring.tasks[index]? = some task ∧
        task.step index (ring.feederFinished index) = (message, later) ∧ message ≠ .idle ∧
        next = ring.after index message later := by
  unfold step?
  constructor
  · intro stepped
    cases here : ring.tasks[index]? with
    | none =>
        rw [move_outside here] at stepped
        cases stepped
    | some task =>
        rw [move_eq here] at stepped
        cases came : task.step index (ring.feederFinished index) with
        | mk message later =>
            rw [came] at stepped
            cases message with
            | idle => cases stepped
            | _ =>
                cases stepped
                exact ⟨task, _, later, rfl, came, Task.Move.noConfusion, rfl⟩
  · rintro ⟨task, message, later, here, stepped, active, rfl⟩
    rw [move_eq here, stepped]
    cases message with
    | idle => exact absurd rfl active
    | _ => rfl

/-! ## Positions -/

theorem length_after (ring : Ring) (index : Nat) (message : Task.Move) (task : Task) :
    (ring.after index message task).tasks.length = ring.tasks.length := by
  simp only [after, List.length_modify, List.length_set]

theorem succ_mod_eq {size : Nat} (inside : index < size) :
    (index + 1) % size = if index + 1 = size then 0 else index + 1 := by
  split
  · rename_i last
    rw [last, Nat.mod_self]
  · exact Nat.mod_eq_of_lt (by omega)

theorem feeder_eq {size : Nat} (inside : index < size) :
    feeder size index = if index = 0 then size - 1 else index - 1 := by
  unfold feeder
  split
  · rename_i zero
    rw [zero, Nat.zero_add]
    exact Nat.mod_eq_of_lt (by omega)
  · rw [show index + size - 1 = index - 1 + size by omega, Nat.add_mod_right]
    exact Nat.mod_eq_of_lt (by omega)

theorem feeder_eq_iff {size : Nat} (insideFirst : first < size) (insideSecond : second < size) :
    feeder size second = first ↔ second = (first + 1) % size := by
  rw [feeder_eq insideSecond, succ_mod_eq insideFirst]
  split <;> split <;> omega

theorem succ_mod_injective {size : Nat} (insideFirst : first < size)
    (insideSecond : second < size) (same : (first + 1) % size = (second + 1) % size) :
    first = second := by
  rw [succ_mod_eq insideFirst, succ_mod_eq insideSecond] at same
  split at same <;> split at same <;> omega

theorem succ_mod_ne {size : Nat} (insideFirst : first < size) (insideSecond : second < size)
    (different : first ≠ second) : first ≠ (first + 1) % size := by
  rw [succ_mod_eq insideFirst]
  split <;> omega

/-- What the task at a position makes of a move of another: the next one is sent what the move
sends. -/
def notice (size index position : Nat) (message : Task.Move) : Task → Task :=
  if position = (index + 1) % size then Task.getting message else id

theorem getElem?_after (inside : index < ring.tasks.length) (message : Task.Move) (task : Task)
    (position : Nat) :
    (ring.after index message task).tasks[position]? =
      (if position = index then some task else ring.tasks[position]?).map
        (notice ring.tasks.length index position message) := by
  have moved : (ring.tasks.set index task)[position]? =
      if position = index then some task else ring.tasks[position]? := by
    rw [List.getElem?_set]
    by_cases here : position = index
    · rw [if_pos here, if_pos here.symm, if_pos inside]
    · rw [if_neg here, if_neg (Ne.symm here)]
  unfold after notice
  rw [List.getElem?_modify, moved, Option.map_eq_map]
  apply congrArg (Option.map · _)
  funext other
  by_cases next : position = (index + 1) % ring.tasks.length
  · rw [if_pos next, if_pos next.symm]
  · rw [if_neg next, if_neg (Ne.symm next), id_eq]

theorem notice_own {size : Nat} (own : index ≠ (index + 1) % size) (message : Task.Move) :
    notice size index index message = id :=
  if_neg own

theorem isFinished_notice (size index position : Nat) (message : Task.Move) (task : Task) :
    (notice size index position message task).isFinished = task.isFinished := by
  unfold notice
  split
  · exact task.isFinished_getting message
  · rfl

theorem settled_notice {task later : Task} (same : task.settled = later.settled)
    (size index position : Nat) (message : Task.Move) :
    (notice size index position message task).settled =
      (notice size index position message later).settled := by
  unfold notice
  split
  · exact Task.settled_getting same message
  · exact same

theorem finishedAt_after (inside : index < ring.tasks.length) (message : Task.Move) (task : Task)
    (position : Nat) :
    finishedAt (ring.after index message task).tasks position =
      if position = index then task.isFinished else finishedAt ring.tasks position := by
  unfold finishedAt
  rw [getElem?_after inside, Option.map_map]
  have kept : Task.isFinished ∘ notice ring.tasks.length index position message =
      Task.isFinished := funext fun other => isFinished_notice ..
  rw [kept]
  split <;> rfl

/-- **The second step.** After the task at one position has made its step, the task at another
can still make the step it could make before. It comes to the same, and reads the same. -/
theorem step_after {mover later task result : Task} {message sent : Task.Move}
    (insideFirst : first < ring.tasks.length) (insideSecond : second < ring.tasks.length)
    (different : first ≠ second) (atFirst : ring.tasks[first]? = some mover)
    (moved : mover.step first (ring.feederFinished first) = (message, later))
    (activeFirst : message ≠ .idle) (atSecond : ring.tasks[second]? = some task)
    (stepped : task.step second (ring.feederFinished second) = (sent, result))
    (activeSecond : sent ≠ .idle) :
    ∃ still final, (ring.after first message later).tasks[second]? = some still ∧
      still.step second ((ring.after first message later).feederFinished second) =
        (sent, final) ∧
      final.settled = (notice ring.tasks.length first second message result).settled ∧
      still.machine.nextRead = task.machine.nextRead := by
  have there : (ring.after first message later).tasks[second]? =
      some (notice ring.tasks.length first second message task) := by
    rw [getElem?_after insideFirst, if_neg different.symm, atSecond]
    rfl
  refine ⟨notice ring.tasks.length first second message task, ?_⟩
  have finished : (ring.after first message later).feederFinished second =
      if second = (first + 1) % ring.tasks.length then later.isFinished
      else ring.feederFinished second := by
    unfold feederFinished
    rw [length_after, finishedAt_after insideFirst]
    simp only [feeder_eq_iff insideFirst insideSecond]
  rw [finished]
  unfold notice at there ⊢
  by_cases fed : second = (first + 1) % ring.tasks.length
  · simp only [fed, ↓reduceIte] at there ⊢
    have unfinished : mover.outcome = none := (Task.step_cases moved activeFirst).1
    have working : ring.feederFinished second = false := by
      unfold feederFinished finishedAt
      rw [(feeder_eq_iff insideFirst insideSecond).mpr fed, atFirst]
      simp only [Option.map_some, Option.getD_some, Task.isFinished, unfinished,
        Option.isSome_none]
    rw [working] at stepped
    have silent : ∀ value, message = .sent value → later.isFinished = false := by
      rintro value rfl
      exact Task.sender_unfinished moved
    obtain ⟨final, again, same, reads⟩ := Task.step_getting stepped activeSecond silent
    exact ⟨final, fed ▸ there, fed ▸ again, same, reads⟩
  · simp only [fed, ↓reduceIte, id_eq, and_true] at there ⊢
    exact ⟨result, there, stepped, rfl⟩

/-- What a ring comes to besides what nobody will read. -/
def view (ring : Ring) : List Task :=
  ring.tasks.map Task.settled

/-- What a step of a position reads and what it sends on. -/
def traffic (ring : Ring) (index : Nat) : Option Word × Option Word :=
  (ring.tasks[index]?.bind (·.machine.nextRead), (ring.move index).1.sent?)

theorem traffic_eq {task later : Task} {message : Task.Move} (here : ring.tasks[index]? = some task)
    (stepped : task.step index (ring.feederFinished index) = (message, later)) :
    ring.traffic index = (task.machine.nextRead, message.sent?) := by
  simp only [traffic, here, Option.bind_some, move_eq here, stepped]

theorem getElem?_inside {task : Task} (here : ring.tasks[index]? = some task) :
    index < ring.tasks.length :=
  (List.getElem?_eq_some_iff.mp here).1

/-- Moves of two positions leave the same view in either order. -/
theorem view_after_after {left right left' right' : Task} {message sent : Task.Move}
    (insideFirst : first < ring.tasks.length) (insideSecond : second < ring.tasks.length)
    (different : first ≠ second)
    (sameLeft : left'.settled = (notice ring.tasks.length second first sent left).settled)
    (sameRight : right'.settled = (notice ring.tasks.length first second message right).settled) :
    ((ring.after first message left).after second sent right').view =
      ((ring.after second sent right).after first message left').view := by
  apply List.ext_getElem?
  intro position
  have secondInside : second < (ring.after first message left).tasks.length := by
    rwa [length_after]
  have firstInside : first < (ring.after second sent right).tasks.length := by
    rwa [length_after]
  have ownFirst : first ≠ (first + 1) % ring.tasks.length :=
    succ_mod_ne insideFirst insideSecond different
  have ownSecond : second ≠ (second + 1) % ring.tasks.length :=
    succ_mod_ne insideSecond insideFirst different.symm
  have apart : (first + 1) % ring.tasks.length ≠ (second + 1) % ring.tasks.length := by
    intro same
    exact different (succ_mod_injective insideFirst insideSecond same)
  simp only [view, List.getElem?_map, getElem?_after secondInside, getElem?_after firstInside,
    getElem?_after insideFirst, getElem?_after insideSecond, length_after]
  by_cases atFirst : position = first
  · subst atFirst
    simp only [different, ↓reduceIte, Option.map_some, notice_own ownFirst, id_eq, sameLeft]
  · by_cases atSecond : position = second
    · subst atSecond
      simp only [atFirst, ↓reduceIte, Option.map_some, notice_own ownSecond, id_eq, sameRight]
    · simp only [atFirst, atSecond, ↓reduceIte, Option.map_map]
      congr 1
      funext task
      -- At most one of the two positions feeds this one.
      by_cases fedByFirst : position = (first + 1) % ring.tasks.length
      · simp only [Function.comp_apply, notice, fedByFirst, apart, ↓reduceIte, id_eq]
      · simp only [Function.comp_apply, notice, fedByFirst, ↓reduceIte, id_eq]

/-- Rings of one view agree on what a position does. -/
theorem alike (same : ring.view = other.view) (stepped : ring.step? index = some next) :
    ∃ later, other.step? index = some later ∧ next.view = later.view ∧
      ring.traffic index = other.traffic index := by
  obtain ⟨task, message, left, here, came, active, rfl⟩ := step?_eq_some_iff.mp stepped
  have sizes : ring.tasks.length = other.tasks.length := by
    simpa only [view, List.length_map] using congrArg List.length same
  have pointwise (position : Nat) :
      ring.tasks[position]?.map Task.settled = other.tasks[position]?.map Task.settled := by
    simpa only [view, List.getElem?_map] using congrArg (·[position]?) same
  have there : other.tasks[index]? = some task := by
    have settled := pointwise index
    rw [here] at settled
    obtain ⟨found, there, alike⟩ := Option.map_eq_some_iff.mp settled.symm
    rw [there, Task.eq_of_settled_eq alike.symm (Task.step_cases came active).1]
  have finished : ring.feederFinished index = other.feederFinished index := by
    unfold feederFinished finishedAt
    rw [sizes]
    have ends := congrArg (Option.map Task.isFinished) (pointwise (feeder other.tasks.length index))
    have kept : Task.isFinished ∘ Task.settled = Task.isFinished :=
      funext Task.isFinished_settled
    rw [Option.map_map, Option.map_map, kept] at ends
    rw [ends]
  have cameThere : task.step index (other.feederFinished index) = (message, left) := by
    rw [← finished, came]
  refine ⟨other.after index message left,
    step?_eq_some_iff.mpr ⟨task, message, left, there, cameThere, active, rfl⟩, ?_, ?_⟩
  · apply List.ext_getElem?
    intro position
    simp only [view, List.getElem?_map, getElem?_after (getElem?_inside here),
      getElem?_after (getElem?_inside there), sizes]
    split
    · rfl
    · have alike := pointwise position
      cases found : ring.tasks[position]? with
      | none =>
          rw [found] at alike
          rw [Option.map_eq_none_iff.mp alike.symm]
      | some mine =>
          rw [found] at alike
          obtain ⟨theirs, foundThere, alike⟩ := Option.map_eq_some_iff.mp alike.symm
          rw [foundThere]
          exact congrArg some (settled_notice alike.symm ..)
  · rw [traffic_eq here came, traffic_eq there cameThere]

/-- **Steps of tasks commute**, up to what finished tasks leave unread. -/
theorem commuting : Commuting step? traffic view where
  alike := alike
  swap := by
    intro ring left right first second different movedFirst movedSecond
    obtain ⟨mover, message, leftTask, atFirst, cameFirst, activeFirst, rfl⟩ :=
      step?_eq_some_iff.mp movedFirst
    obtain ⟨task, sent, rightTask, atSecond, cameSecond, activeSecond, rfl⟩ :=
      step?_eq_some_iff.mp movedSecond
    have insideFirst := getElem?_inside atFirst
    have insideSecond := getElem?_inside atSecond
    obtain ⟨still, right', thereSecond, againSecond, sameRight, readsSecond⟩ :=
      step_after insideFirst insideSecond different atFirst cameFirst activeFirst atSecond
        cameSecond activeSecond
    obtain ⟨stay, left', thereFirst, againFirst, sameLeft, readsFirst⟩ :=
      step_after insideSecond insideFirst different.symm atSecond cameSecond activeSecond atFirst
        cameFirst activeFirst
    refine ⟨_, _, step?_eq_some_iff.mpr ⟨still, sent, right', thereSecond, againSecond,
      activeSecond, rfl⟩, step?_eq_some_iff.mpr ⟨stay, message, left', thereFirst, againFirst,
      activeFirst, rfl⟩, view_after_after insideFirst insideSecond different sameLeft sameRight,
      ?_, ?_⟩
    · rw [traffic_eq thereSecond againSecond, traffic_eq atSecond cameSecond, readsSecond]
    · rw [traffic_eq thereFirst againFirst, traffic_eq atFirst cameFirst, readsFirst]

/-! ## How tasks end -/

variable {who : Nat} {schedule : List Nat} {final : Ring}

/-- How the task at a position has ended, if it has. -/
def outcomeAt (ring : Ring) (who : Nat) : Option (Except Error (Option Word)) :=
  ring.tasks[who]?.bind (·.outcome)

/-- A ring of which each task has ended is finished. -/
theorem isFinished_of_outcomes
    (ended : ∀ who < ring.tasks.length, (ring.outcomeAt who).isSome = true) :
    ring.isFinished = true := by
  refine List.all_eq_true.mpr fun task among => ?_
  obtain ⟨who, inside, rfl⟩ := List.mem_iff_getElem.mp among
  have outcome := ended who inside
  rwa [outcomeAt, List.getElem?_eq_getElem inside] at outcome

/-- The outcomes after a move: only the one of the task that moved may be new. -/
theorem outcomeAt_after (inside : index < ring.tasks.length) (message : Task.Move) (task : Task)
    (who : Nat) :
    (ring.after index message task).outcomeAt who =
      if who = index then task.outcome else ring.outcomeAt who := by
  have kept (size : Nat) (task : Task) :
      (notice size index who message task).outcome = task.outcome := by
    unfold notice
    split
    · exact task.outcome_getting message
    · rfl
  unfold outcomeAt
  rw [getElem?_after inside, Option.bind_map]
  split
  · exact kept _ task
  · exact congrArg _ (funext fun other => kept _ other)

/-- A task that has ended stays as it ended. -/
theorem outcomeAt_of_step? {outcome : Except Error (Option Word)}
    (stepped : ring.step? index = some next) (ended : ring.outcomeAt who = some outcome) :
    next.outcomeAt who = some outcome := by
  obtain ⟨task, message, later, here, came, active, rfl⟩ := step?_eq_some_iff.mp stepped
  rw [outcomeAt_after (getElem?_inside here)]
  split
  · rename_i same
    subst same
    rw [outcomeAt, here, Option.bind_some, (Task.step_cases came active).1] at ended
    cases ended
  · exact ended

theorem outcomeAt_of_follow {outcome : Except Error (Option Word)}
    (followed : follow step? ring schedule = some final)
    (ended : ring.outcomeAt who = some outcome) : final.outcomeAt who = some outcome := by
  apply follow_preserves (P := fun ring => ring.outcomeAt who = some outcome) _ followed ended
  exact outcomeAt_of_step?

end Ring

end Intcode
