import Intcode.Proofs.ChainRuns
import Intcode.Proofs.RingSteps

/-! # Scratch cells do not matter

A machine with more scratch cells does the same as one with fewer, as long as the latter does not
reach past its cells (`Machine.execute_widen`). So the fixed capacity stands in for a memory without
bounds: a run that never fails with an address out of bounds is the same with any more cells
(`Machine.run_widen`), and so is the loop of a chain (`Chain.runFeedback_widen`) and every step of a
ring (`Ring.step?_widen`). -/

namespace Intcode

/-- Whether a result is an address out of bounds. -/
def OutOfBounds {α : Type} (result : Except Error α) : Prop :=
  ∃ error, result = .error error ∧ error.kind = .addressOutOfBounds

theorem not_outOfBounds_ok {α : Type} (value : α) : ¬OutOfBounds (.ok value : Except Error α) := by
  rintro ⟨error, absurd, _⟩
  cases absurd

/-- Two results agree, or the first is an address out of bounds. -/
def AgreeInside {α : Type} (narrow wide : Except Error α) : Prop :=
  wide = narrow ∨ OutOfBounds narrow

namespace AgreeInside

theorem bind {α β : Type} {narrow wide : Except Error α} {first second : α → Except Error β}
    (agree : AgreeInside narrow wide) (others : ∀ value, AgreeInside (first value) (second value)) :
    AgreeInside (narrow >>= first) (wide >>= second) := by
  rcases agree with rfl | ⟨error, rfl, outside⟩
  · cases wide with
    | error error => exact .inl rfl
    | ok value => exact others value
  · exact .inr ⟨error, rfl, outside⟩

theorem map {α β : Type} {narrow wide : Except Error α} (agree : AgreeInside narrow wide)
    (f : α → β) : AgreeInside (narrow.map f) (wide.map f) := by
  rcases agree with rfl | ⟨error, rfl, outside⟩
  · exact .inl rfl
  · exact .inr ⟨error, rfl, outside⟩

end AgreeInside

namespace Memory

variable {memory : Memory} {operation : String} {address : Word}

/-- The memory with zero cells added behind its last. -/
def widen (memory : Memory) (extra : Nat) : Memory where
  program := memory.program
  cells := memory.cells ++ Array.replicate extra 0
  program_fits := by
    rw [Array.size_append]
    exact Nat.le_trans memory.program_fits (Nat.le_add_right _ _)

theorem eq_of_fields {left right : Memory} (program : left.program = right.program)
    (cells : left.cells = right.cells) : left = right := by
  cases left
  cases right
  cases program
  cases cells
  rfl

theorem locate_widen (memory : Memory) (extra : Nat) (operation : String) (address : Word) :
    (∃ (index : Fin memory.cells.size) (place : Fin (memory.widen extra).cells.size),
      memory.locate operation address = .ok index ∧
        (memory.widen extra).locate operation address = .ok place ∧ place.val = index.val) ∨
    ∃ error, memory.locate operation address = .error error ∧
      ((memory.widen extra).locate operation address = .error error ∨
        error.kind = .addressOutOfBounds) := by
  unfold locate
  by_cases negative : address < 0
  · rw [if_pos negative, if_pos negative]
    exact .inr ⟨_, rfl, .inl rfl⟩
  · rw [if_neg negative, if_neg negative]
    by_cases inside : address.toNatClampNeg < memory.cells.size
    · have insideWide : address.toNatClampNeg < (memory.widen extra).cells.size := by
        simp only [widen, Array.size_append]
        omega
      rw [dif_pos inside, dif_pos insideWide]
      exact .inl ⟨_, _, rfl, rfl, rfl⟩
    · rw [dif_neg inside]
      exact .inr ⟨_, rfl, .inr rfl⟩

theorem exists_locate_widen {index : Fin memory.cells.size}
    (found : memory.locate operation address = .ok index) (extra : Nat) :
    ∃ place, (memory.widen extra).locate operation address = .ok place ∧
      place.val = index.val := by
  rcases memory.locate_widen extra operation address with
    ⟨other, place, same, foundWide, equal⟩ | ⟨error, missing, _⟩
  · rw [found] at same
    cases same
    exact ⟨place, foundWide, equal⟩
  · rw [found] at missing
    cases missing

theorem read_widen (memory : Memory) (extra : Nat) (address : Word) :
    AgreeInside (memory.read address) ((memory.widen extra).read address) := by
  unfold read
  rcases memory.locate_widen extra "memory::read" address with
    ⟨index, place, found, foundWide, equal⟩ | ⟨error, missing, same | outside⟩
  · apply Or.inl
    rw [found, foundWide]
    obtain ⟨place, bound⟩ := place
    subst equal
    exact congrArg Except.ok (Array.getElem_append_left index.isLt)
  · exact .inl (by rw [missing, same]; rfl)
  · exact .inr ⟨error, by rw [missing]; rfl, outside⟩

theorem resolve_widen (memory : Memory) (extra : Nat) (slot base : Word) (mode : Mode) :
    AgreeInside (memory.resolve slot mode base)
      ((memory.widen extra).resolve slot mode base) := by
  apply (memory.read_widen extra slot).bind
  intro operand
  apply (memory.read_widen extra _).bind
  intro value
  exact .inl rfl

theorem put_widen {index : Fin memory.cells.size} {extra : Nat}
    {place : Fin (memory.widen extra).cells.size} (equal : place.val = index.val) (value : Word) :
    (memory.widen extra).put place value = (memory.put index value).widen extra := by
  apply eq_of_fields
  · rfl
  · simp only [put, widen, equal]
    exact Array.set_append_left index.isLt

theorem widen_ofProgram (program : Program) (scratch extra : Nat) :
    (ofProgram program scratch).widen extra = ofProgram program (scratch + extra) := by
  apply eq_of_fields
  · rfl
  · simp only [widen, ofProgram, image, Nat.add_sub_cancel_left, Array.append_assoc,
      Array.replicate_append_replicate]

end Memory

namespace Machine

variable {m next final : Machine} {source : InputSource} {outcome : Except Error Step}

/-- The machine with as many scratch cells as given, if it has fewer. -/
def widen (m : Machine) (scratch : UInt64) : Machine :=
  { m with
    memory := m.memory.widen (scratch.toNat - m.config.scratchCells.toNat)
    config := { m.config with scratchCells := scratch } }

theorem widen_ofProgram (program : Program) {config : Config} {scratch : UInt64}
    (more : config.scratchCells ≤ scratch) :
    (ofProgram program config).widen scratch =
      ofProgram program { config with scratchCells := scratch } := by
  have sum : config.scratchCells.toNat + (scratch.toNat - config.scratchCells.toNat) =
      scratch.toNat := Nat.add_sub_cancel' more
  unfold widen ofProgram
  simp only [Memory.widen_ofProgram, sum]

theorem plan_widen (m : Machine) (scratch : UInt64) :
    AgreeInside m.plan (m.widen scratch).plan := by
  have param (instruction : Instruction) (index : Fin maxParams) :
      AgreeInside (m.paramAt instruction index)
        ((m.widen scratch).paramAt instruction index) := by
    unfold paramAt
    split
    · exact m.memory.resolve_widen _ _ _ _
    · exact .inl rfl
  have params (instruction : Instruction) :
      AgreeInside (m.paramsOf instruction) ((m.widen scratch).paramsOf instruction) := by
    apply (param instruction firstParam).bind
    intro first
    apply (param instruction secondParam).bind
    intro second
    apply (param instruction thirdParam).bind
    intro third
    exact .inl rfl
  -- Decoding does not look at the memory, so it comes to the same.
  apply AgreeInside.map
  apply (m.memory.read_widen _ m.ip).bind
  intro raw
  apply AgreeInside.bind (.inl rfl)
  intro instruction
  apply (params instruction).bind
  intro found
  exact .inl rfl

/-- **An instruction with room.** An instruction that does not reach past the cells comes to the
same with more scratch cells. -/
theorem Executes.widen (executed : Executes source m outcome next) (inside : ¬OutOfBounds outcome)
    (scratch : UInt64) : Executes source (m.widen scratch) outcome (next.widen scratch) := by
  have supply {answer : Except Error (Option Word)} {bridge : Bridge}
      (supplied : m.nextInput source = (answer, { m with bridge })) :
      (m.widen scratch).nextInput source = (answer, { m.widen scratch with bridge }) := by
    rw [nextInput_congr (m := m) (m.widen scratch) rfl rfl rfl, supplied]
  have plans {pair : Instruction × Effect} (planned : m.plan = .ok pair) :
      (m.widen scratch).plan = .ok pair := by
    rcases m.plan_widen scratch with same | ⟨error, failed, _⟩
    · rw [same, planned]
    · rw [planned] at failed
      cases failed
  cases executed with
  | @fault error planned =>
      rcases m.plan_widen scratch with same | ⟨other, failed, outside⟩
      · exact .fault (same.trans planned)
      · rw [planned] at failed
        cases failed
        exact (inside ⟨_, rfl, outside⟩).elim
  | @store instruction address value index planned place =>
      obtain ⟨wide, found, equal⟩ := Memory.exists_locate_widen place
        (scratch.toNat - m.config.scratchCells.toNat)
      have same : ({ m with memory := m.memory.put index value }.advance instruction).widen
          scratch = { m.widen scratch with
            memory := (m.widen scratch).memory.put wide value }.advance instruction := by
        simp only [advance, Machine.widen, Memory.put_widen equal]
      rw [same]
      exact .store (plans planned) found
  | @read instruction address value bridge index planned supplied place =>
      obtain ⟨wide, found, equal⟩ := Memory.exists_locate_widen place
        (scratch.toNat - m.config.scratchCells.toNat)
      have same : ({ m with memory := m.memory.put index value, bridge }.advance instruction).widen
          scratch = { m.widen scratch with
            memory := (m.widen scratch).memory.put wide value, bridge }.advance instruction := by
        simp only [advance, Machine.widen, Memory.put_widen equal]
      rw [same]
      exact .read (plans planned) (supply supplied) found
  | wait planned supplied => exact .wait (plans planned) (supply supplied)
  | underrun planned supplied => exact .underrun (plans planned) (supply supplied)
  | emit planned => exact .emit (plans planned)
  | jump planned => exact .jump (plans planned)
  | adjustBase planned => exact .adjustBase (plans planned)
  | pass planned => exact .pass (plans planned)
  | halt planned => exact .halt (plans planned)

theorem execute_widen (executed : m.execute source = (outcome, next))
    (inside : ¬OutOfBounds outcome) (scratch : UInt64) :
    (m.widen scratch).execute source = (outcome, next.widen scratch) :=
  ((execute_eq_iff.mp executed).widen inside scratch).execute_eq

/-- A turn of a run with more scratch cells, unless it ends the run out of bounds. -/
theorem runTurn_widen (m : Machine) (suspend : Suspend) (scratch : UInt64) :
    (∃ result final, runTurn suspend m = .done (result, final) ∧ OutOfBounds result) ∨
      runTurn suspend (m.widen scratch) =
        match runTurn suspend m with
        | .again next => .again (next.widen scratch)
        | .done (result, final) => .done (result, final.widen scratch) := by
  cases executed : m.execute suspend.source with
  | mk outcome next =>
      by_cases inside : OutOfBounds outcome
      · obtain ⟨error, rfl, outside⟩ := inside
        refine .inl ⟨.error (error.inOperation suspend.operation),
          { next with state := stateAfterError (error.inOperation suspend.operation) }, ?_,
          error.inOperation suspend.operation, rfl, outside⟩
        simp only [runTurn, executed]
      · apply Or.inr
        unfold runTurn
        rw [executed, execute_widen executed inside scratch]
        cases outcome with
        | error error => rfl
        | ok step =>
            cases step with
            | output value =>
                dsimp only
                split <;> rfl
            | _ => rfl

/-- **A run with room.** A call comes to the same with more scratch cells, and also does not return
where it does not, unless it ends out of bounds. -/
theorem run_widen_or (m : Machine) (suspend : Suspend) (fuel : Nat) (input : List Word)
    (scratch : UInt64) :
    (∃ result final, m.run suspend fuel input = some (result, final) ∧ OutOfBounds result) ∨
      (m.widen scratch).run suspend fuel input =
        (m.run suspend fuel input).map fun (result, final) => (result, final.widen scratch) := by
  cases terminal : m.state.isTerminal with
  | true =>
      apply Or.inr
      rcases State.halted_or_failed terminal with halted | failed
      · have halts : (m.widen scratch).state = .halted := halted
        rw [run_of_halted halts, run_of_halted halted]
        rfl
      · have fails : (m.widen scratch).state = .failed := failed
        rw [run_of_failed fails, run_of_failed failed]
        rfl
  | false =>
      have liveWide : (m.widen scratch).state.isTerminal = false := terminal
      rw [run_of_live liveWide, run_of_live terminal]
      have started : (m.widen scratch).started input = (m.started input).widen scratch := rfl
      rw [started]
      generalize m.started input = start
      induction fuel generalizing start with
      | zero => exact .inr rfl
      | succ fuel ih =>
          unfold iterate
          rcases start.runTurn_widen suspend scratch with ⟨result, final, turned, outside⟩ | same
          · rw [turned]
            exact .inl ⟨result, final, rfl, outside⟩
          · rw [same]
            cases runTurn suspend start with
            | again next => exact ih next
            | done answer => exact .inr rfl

theorem run_widen {suspend : Suspend} {fuel : Nat} {input : List Word} {result : RunResult}
    (returned : m.run suspend fuel input = some (result, final)) (inside : ¬OutOfBounds result)
    (scratch : UInt64) :
    (m.widen scratch).run suspend fuel input = some (result, final.widen scratch) := by
  rcases m.run_widen_or suspend fuel input scratch with ⟨other, last, same, outside⟩ | same
  · rw [returned] at same
    cases same
    exact absurd outside inside
  · rw [same, returned]
    rfl

end Machine

namespace Chain

variable {fuel index turns : Nat} {signal value : Word} {machines left : List Machine}
  {chain after : Chain} {result : Except Error Word}

theorem amplifier_widen (program : Program) {config : Config} {scratch : UInt64}
    (more : config.scratchCells ≤ scratch) (phase : Word) :
    (amplifier program config phase).widen scratch =
      amplifier program { config with scratchCells := scratch } phase :=
  congrArg (Machine.feed · [phase]) (Machine.widen_ofProgram program more)

/-- Naming the amplifier does not change what kind of error it is. -/
theorem not_outOfBounds_of_atAmplifier {error : Error}
    (inside : ¬OutOfBounds (.error (atAmplifier index error) : Except Error Word)) :
    ¬OutOfBounds (.error error : Machine.RunResult) := by
  rintro ⟨_, same, outside⟩
  cases same
  exact inside ⟨_, rfl, outside⟩

theorem SerialPasses.widen (passes : SerialPasses fuel index signal machines result left)
    (inside : ¬OutOfBounds result) (scratch : UInt64) :
    SerialPasses fuel index signal (machines.map (·.widen scratch)) result
      (left.map (·.widen scratch)) := by
  induction passes with
  | nothing => exact .nothing
  | failed returned =>
      exact .failed (Machine.run_widen returned (not_outOfBounds_of_atAmplifier inside) scratch)
  | silent returned => exact .silent (Machine.run_widen returned (not_outOfBounds_ok _) scratch)
  | onward returned _ ih =>
      exact .onward (Machine.run_widen returned (not_outOfBounds_ok _) scratch) (ih inside)

theorem FeedbackPasses.widen {turn : Turn Word (Except Error Word)}
    (passes : FeedbackPasses fuel index signal machines turn left)
    (inside : ∀ result, turn = .done result → ¬OutOfBounds result) (scratch : UInt64) :
    FeedbackPasses fuel index signal (machines.map (·.widen scratch)) turn
      (left.map (·.widen scratch)) := by
  induction passes with
  | nothing => exact .nothing
  | failed returned =>
      have insideCall := not_outOfBounds_of_atAmplifier (inside _ rfl)
      exact .failed (Machine.run_widen returned insideCall scratch)
  | settled returned halted newest =>
      exact .settled (Machine.run_widen returned (not_outOfBounds_ok _) scratch) halted newest
  | silent returned halted newest =>
      exact .silent (Machine.run_widen returned (not_outOfBounds_ok _) scratch) halted newest
  | onward returned further _ ih =>
      refine .onward (Machine.run_widen returned (not_outOfBounds_ok _) scratch) ?_ (ih inside)
      rw [List.isEmpty_map]
      exact further

theorem iterate_feedbackTurn_widen
    (returned : iterate (feedbackTurn fuel) turns (signal, machines) = some (result, after))
    (inside : ¬OutOfBounds result) (scratch : UInt64) :
    iterate (feedbackTurn fuel) turns (signal, machines.map (·.widen scratch)) =
      some (result, ⟨after.machines.map (·.widen scratch)⟩) := by
  induction turns generalizing signal machines with
  | zero => cases returned
  | succ turns ih =>
      rcases feedback_cases returned with
        ⟨fewer, turn, left, same, passed, ⟨next, rfl, rest⟩ | ⟨rfl, rfl⟩⟩
      · cases same
        have wide := (feedbackPass_iff.mp passed).widen (fun _ same => by cases same) scratch
        have again := feedbackPass_iff.mpr wide
        simp only [iterate, feedbackTurn, again]
        exact ih rest
      · have wide := (feedbackPass_iff.mp passed).widen
          (fun _ same => by cases same; exact inside) scratch
        have again := feedbackPass_iff.mpr wide
        simp only [iterate, feedbackTurn, again]

/-- **A loop with room.** A loop that does not end out of bounds comes to the same with more scratch
cells. -/
theorem runFeedback_widen_of_inside (returned : chain.runFeedback fuel signal = some (result, after))
    (inside : ¬OutOfBounds result) (scratch : UInt64) :
    runFeedback fuel signal ⟨chain.machines.map (·.widen scratch)⟩ =
      some (result, ⟨after.machines.map (·.widen scratch)⟩) :=
  iterate_feedbackTurn_widen returned inside scratch

theorem runFeedback_widen (returned : chain.runFeedback fuel signal = some (.ok value, after))
    (scratch : UInt64) :
    runFeedback fuel signal ⟨chain.machines.map (·.widen scratch)⟩ =
      some (.ok value, ⟨after.machines.map (·.widen scratch)⟩) :=
  runFeedback_widen_of_inside returned (not_outOfBounds_ok value) scratch

end Chain

/-! ## Rings -/

namespace Task

/-- The task with as many scratch cells as given, if it has fewer. -/
def widen (task : Task) (scratch : UInt64) : Task :=
  { task with machine := task.machine.widen scratch }

theorem getting_widen (message : Move) (task : Task) (scratch : UInt64) :
    (task.widen scratch).getting message = (task.getting message).widen scratch := by
  cases message with
  | sent value =>
      have same : (task.widen scratch).isFinished = task.isFinished := rfl
      unfold getting receive
      rw [same]
      dsimp only
      split <;> rfl
  | _ => rfl

theorem step_widen {task after : Task} {message : Move} {index : Nat} {feederFinished : Bool}
    (stepped : task.step index feederFinished = (message, after)) (active : message ≠ .idle)
    (inside : ∀ result, after.outcome = some result → ¬OutOfBounds result) (scratch : UInt64) :
    (task.widen scratch).step index feederFinished = (message, after.widen scratch) := by
  rcases step_cases stepped active with
    ⟨unfinished, ⟨outcome, machine, executed, fed, concluded⟩ | ⟨waits, rfl, rfl, rfl⟩⟩
  · have insideStep : ¬OutOfBounds outcome := by
      rintro ⟨error, rfl, outside⟩
      cases concluded
      refine inside _ rfl ⟨_, rfl, ?_⟩
      rw [failure_of_ne index (by rw [outside]; exact ErrorKind.noConfusion)]
      exact outside
    rw [@step_of_execute (task.widen scratch) _ _ unfinished
      (Machine.execute_widen executed insideStep scratch) fed index feederFinished]
    cases outcome with
    | error error =>
        cases concluded
        rfl
    | ok step =>
        cases step with
        | needsInput => exact absurd rfl fed
        | _ =>
            cases concluded
            rfl
  · have waitsWide : (task.widen scratch).machine.execute .queue =
        (.ok .needsInput, task.machine.widen scratch) :=
      Machine.execute_widen waits (not_outOfBounds_ok _) scratch
    have unfinishedWide : (task.widen scratch).outcome = none := unfinished
    rw [step_eq, unfinishedWide, waitsWide]
    rfl

end Task

namespace Ring

variable {ring next final : Ring} {index : Nat} {schedule : List Nat}

/-- The ring whose machines have as many scratch cells as given, if they have fewer. -/
def widen (ring : Ring) (scratch : UInt64) : Ring :=
  ⟨ring.tasks.map (·.widen scratch)⟩

theorem isFinished_widen (ring : Ring) (scratch : UInt64) :
    (ring.widen scratch).isFinished = ring.isFinished := by
  unfold isFinished widen
  rw [List.all_map]
  rfl

theorem result_widen (ring : Ring) (scratch : UInt64) :
    (ring.widen scratch).result = ring.result := by
  unfold result firstError? widen
  rw [List.findSome?_map, List.getLast?_map, Option.bind_map, List.length_map]
  rfl

theorem map_modify {α β : Type} {f : α → β} {inner : α → α} {outer : β → β}
    (commute : ∀ element, outer (f element) = f (inner element)) (list : List α)
    (position : Nat) : (list.map f).modify position outer = (list.modify position inner).map f := by
  apply List.ext_getElem?
  intro here
  rw [List.getElem?_modify, List.getElem?_map, List.getElem?_map, List.getElem?_modify]
  cases list[here]? with
  | none => rfl
  | some element =>
      by_cases same : position = here
      · simp only [same, ↓reduceIte, Option.map_eq_map, Option.map_some, commute]
      · simp only [same, ↓reduceIte, Option.map_eq_map, Option.map_some]

theorem after_widen (ring : Ring) (index : Nat) (message : Task.Move) (task : Task)
    (scratch : UInt64) :
    (ring.widen scratch).after index message (task.widen scratch) =
      (ring.after index message task).widen scratch := by
  apply congrArg Ring.mk
  unfold widen
  dsimp only
  rw [List.length_map, ← List.map_set, map_modify (fun other => Task.getting_widen message other _)]
  rfl

/-- A step of a ring that does not end its task out of bounds is the same with more scratch
cells. -/
theorem step?_widen (stepped : ring.step? index = some next)
    (inside : ∀ result, next.outcomeAt index = some result → ¬OutOfBounds result)
    (scratch : UInt64) : (ring.widen scratch).step? index = some (next.widen scratch) := by
  obtain ⟨task, message, later, here, came, active, rfl⟩ := step?_eq_some_iff.mp stepped
  rw [outcomeAt_after (getElem?_inside here), if_pos rfl] at inside
  have hereWide : (ring.widen scratch).tasks[index]? = some (task.widen scratch) := by
    rw [widen, List.getElem?_map, here]
    rfl
  have finished : (ring.widen scratch).feederFinished index = ring.feederFinished index := by
    unfold feederFinished finishedAt widen
    rw [List.length_map, List.getElem?_map, Option.map_map]
    rfl
  have cameWide := Task.step_widen came active inside scratch
  rw [← finished] at cameWide
  exact step?_eq_some_iff.mpr ⟨_, _, _, hereWide, cameWide, active, (after_widen ..).symm⟩

/-- **A schedule with room.** Along a schedule after which no task has ended out of bounds, a ring
does the same with more scratch cells. -/
theorem follow_widen (followed : follow step? ring schedule = some final)
    (inside : ∀ who result, final.outcomeAt who = some result → ¬OutOfBounds result)
    (scratch : UInt64) :
    follow step? (ring.widen scratch) schedule = some (final.widen scratch) := by
  induction schedule generalizing ring with
  | nil =>
      cases followed
      rfl
  | cons actor rest ih =>
      obtain ⟨next, stepped, followed⟩ := follow_cons_eq_some_iff.mp followed
      have insideNext : ∀ result, next.outcomeAt actor = some result → ¬OutOfBounds result := by
        intro result ended
        exact inside actor result (outcomeAt_of_follow followed ended)
      have once := step?_widen stepped insideNext scratch
      rw [follow_cons once]
      exact ih followed

end Ring

end Intcode
