import Intcode.Proofs.ChainRuns
import Intcode.Proofs.RingSchedules

/-! # Feedback in turn and side by side

A feedback loop that runs its amplifiers in turn hands each of them one signal a pass, also past
one that has halted. In a ring each amplifier takes what its feeder puts out when it needs it. The
loop is followed by a schedule of the ring: while an amplifier of the loop runs, its task makes the
same steps. All along, a machine of the loop, fed the signal that is on its way to it, and its task
are one machine in different surroundings (`Ring.Alongside`): the task has kept what it put out,
and it lacks the signals that the loop passed on after the end of its feeder.

An amplifier that reads such a signal waits, in the ring, for a channel that has ended, and fails.
When no task fails this does not happen, and both come to the newest output of the last amplifier
(`Ring.loop_agrees_with_ring`). -/

namespace Intcode

namespace Machine

variable {m : Machine}

theorem amid_self (m : Machine) : m.amid m.state #[] [] = m := by
  simp only [amid, List.append_nil, Array.empty_append]

theorem drain_amid (m : Machine) (state : State) (earlier : Array Word) (later : List Word) :
    (m.amid state #[] later).drainOutput.2 = m.drainOutput.2.amid state #[] later ∧
      m.amid state earlier later =
        m.drainOutput.2.amid state (earlier ++ m.bridge.outbox) later := by
  simp only [amid, drainOutput, Bridge.drain, Array.append_empty, and_self]

end Machine

namespace Ring

variable {ring next final : Ring} {index who : Nat} {schedule : List Nat}

/-! ## One machine and its task -/

/-- A machine of the loop and a task of the ring that have come equally far. -/
inductive Alongside (feederFinished : Bool) (task : Task) (m : Machine) : Prop
  /-- The machine has halted, and the task has ended with that. -/
  | halted (halted : m.state = .halted) (ended : task.outcome = some (.ok m.lastOutput))
  /-- Both go on from the same machine, to which the loop has passed signals after the end of its
  feeder, if there are any. -/
  | working {base : Machine} {stale : List Word} {earlier : Array Word} {idle : State}
      (live : m.state.isTerminal = false) (unfinished : task.outcome = none)
      (alone : base.bridge.provider = none) (strict : base.config.underrun = .error)
      (inLoop : m = base.amid m.state #[] stale) (inRing : task.machine = base.amid idle earlier [])
      (past : stale ≠ [] → feederFinished = true)

variable {feederFinished : Bool} {task : Task} {m called : Machine}

/-- The end of the feeder may come. -/
theorem Alongside.mono (along : Alongside feederFinished task m) {finished : Bool}
    (more : feederFinished = true → finished = true) : Alongside finished task m := by
  cases along with
  | halted halted ended => exact .halted halted ended
  | working live unfinished alone strict inLoop inRing past =>
      apply Alongside.working live unfinished alone strict inLoop inRing
      intro passed
      exact more (past passed)

theorem Alongside.ended_of_halted (along : Alongside feederFinished task m)
    (halted : m.state = .halted) : task.outcome = some (.ok m.lastOutput) := by
  cases along with
  | halted _ ended => exact ended
  | working live => rw [halted] at live; cases live

/-- No machine that has failed is alongside a task. -/
theorem Alongside.state_ne_failed (along : Alongside feederFinished task m) :
    m.state ≠ .failed := by
  intro failed
  cases along with
  | halted halted _ => rw [failed] at halted; cases halted
  | working live => rw [failed] at live; cases live

theorem Alongside.drained (along : Alongside feederFinished task m) :
    Alongside feederFinished task m.drainOutput.2 := by
  cases along with
  | halted halted ended => exact .halted halted ended
  | @working base stale earlier idle live unfinished alone strict inLoop inRing past =>
      refine @Alongside.working _ _ _ base.drainOutput.2 stale (earlier ++ base.bridge.outbox) idle
        live unfinished alone strict ?_ ?_ past
      · rw [inLoop]
        exact (base.drain_amid m.state #[] stale).1
      · rw [inRing]
        exact (base.drain_amid idle earlier []).2

theorem Alongside.inState (along : Alongside feederFinished task m)
    (live : m.state.isTerminal = false) {state : State} (liveState : state.isTerminal = false) :
    Alongside feederFinished task { m with state } := by
  cases along with
  | halted halted ended =>
      rw [halted] at live
      cases live
  | working _ unfinished alone strict inLoop inRing past =>
      exact .working liveState unfinished alone strict
        (congrArg (fun m : Machine => { m with state }) inLoop) inRing past

theorem Alongside.sent (along : Alongside feederFinished task m) (value : Word)
    (working : feederFinished = false) :
    Alongside feederFinished (task.receive value) (m.feed [value]) := by
  cases along with
  | halted halted ended => exact .halted halted ((task.outcome_receive value).trans ended)
  | @working base stale earlier idle live unfinished alone strict inLoop inRing past =>
      have empty : stale = [] := by
        by_cases none : stale = []
        · exact none
        · rw [past none] at working
          cases working
      subst empty
      refine @Alongside.working _ _ _ (base.feed [value]) [] earlier idle live
        ((task.outcome_receive value).trans unfinished) alone strict ?_ ?_ past
      · rw [inLoop]
        simp only [Machine.feed, Bridge.feed, Machine.amid, List.append_nil]
      · rw [Task.receive_of_unfinished unfinished, inRing]
        simp only [Machine.feed, Bridge.feed, Machine.amid, List.append_nil]

/-- A signal passed on after the end of the feeder reaches the loop only. -/
theorem Alongside.passed (along : Alongside feederFinished task m) (value : Word)
    (ended : feederFinished = true) : Alongside feederFinished task (m.feed [value]) := by
  cases along with
  | halted halted ended => exact .halted halted ended
  | @working base stale earlier idle live unfinished alone strict inLoop inRing past =>
      refine @Alongside.working _ _ _ base (stale ++ [value]) earlier idle live unfinished alone
        strict ?_ inRing (fun _ => ended)
      rw [inLoop]
      simp only [Machine.feed, Bridge.feed, Machine.amid, List.append_assoc]

/-- **One instruction.** The instruction that the loop executes is the step that the task makes,
unless the task fails for want of what its feeder, which has ended, did not put out. -/
theorem Alongside.execute {step : Step} {after : Machine}
    (along : Alongside feederFinished task m) (live : m.state.isTerminal = false)
    (executed : m.execute .policy = (.ok step, after)) (index : Nat) :
    task.outcome = none ∧
      ((∃ error, task.step index feederFinished =
          (.finished, { task with outcome := some (.error error) })) ∨
        ∃ machine, task.step index feederFinished = Task.conclude index machine (.ok step) ∧
          machine.lastOutput = after.lastOutput ∧ Alongside feederFinished { machine } after) := by
  cases along with
  | halted halted ended =>
      rw [halted] at live
      cases live
  | @working base stale earlier idle _ unfinished alone strict inLoop inRing past =>
      refine ⟨unfinished, ?_⟩
      cases came : base.execute .queue with
      | mk outcome next =>
          have listed := Machine.execute_eq_iff.mp came
          by_cases fed : outcome = .ok .needsInput
          · subst fed
            obtain ⟨rfl, empty, instruction, address, planned⟩ :=
              Machine.execute_queue_waits_iff.mp came
            have waits : task.machine.execute .queue = (.ok .needsInput, task.machine) := by
              rw [inRing]
              exact Machine.execute_queue_waits_iff.mpr
                ⟨rfl, (List.append_nil _).trans empty, instruction, address, planned⟩
            have passed : stale ≠ [] := by
              rintro rfl
              have underrun := Machine.execute_policy_of_refused (m := next.amid m.state #[] [])
                planned ((List.append_nil _).trans empty) (Bridge.ask_of_alone alone) strict
              rw [inLoop, underrun] at executed
              cases executed
            refine .inl ⟨Task.failure index (Error.inputUnderrun task.machine.ip), ?_⟩
            rw [past passed]
            exact Task.step_of_waits unfinished waits index
          · rw [inLoop, (listed.amid fed m.state #[] stale .policy).execute_eq] at executed
            cases executed
            refine .inr ⟨next.amid idle earlier [], ?_, rfl,
              @Alongside.working _ _ _ next stale earlier idle live rfl (listed.alone alone)
                (by rw [listed.config_eq]; exact strict) rfl rfl past⟩
            refine Task.step_of_execute unfinished ?_ fed index feederFinished
            rw [inRing]
            exact (listed.amid fed idle earlier [] .queue).execute_eq

/-- An instruction of the loop that fails lacks input, or the task fails as well. -/
theorem Alongside.fails {error : Error} {after : Machine}
    (along : Alongside feederFinished task m) (live : m.state.isTerminal = false)
    (failed : m.execute .policy = (.error error, after)) (index : Nat) :
    error.kind = .inputUnderrun ∨
      ∃ fault machine, task.step index feederFinished =
        (.finished, { machine, outcome := some (.error fault) }) := by
  cases along with
  | halted halted ended =>
      rw [halted] at live
      cases live
  | @working base stale earlier idle _ unfinished alone strict inLoop inRing past =>
      cases came : base.execute .queue with
      | mk outcome next =>
          have listed := Machine.execute_eq_iff.mp came
          by_cases fed : outcome = .ok .needsInput
          · subst fed
            obtain ⟨rfl, empty, instruction, address, planned⟩ :=
              Machine.execute_queue_waits_iff.mp came
            by_cases nothing : stale = []
            · subst nothing
              have underrun := Machine.execute_policy_of_refused (m := next.amid m.state #[] [])
                planned ((List.append_nil _).trans empty) (Bridge.ask_of_alone alone) strict
              rw [inLoop, underrun] at failed
              cases failed
              exact .inl rfl
            · have waits : task.machine.execute .queue = (.ok .needsInput, task.machine) := by
                rw [inRing]
                exact Machine.execute_queue_waits_iff.mpr
                  ⟨rfl, (List.append_nil _).trans empty, instruction, address, planned⟩
              refine .inr ⟨Task.failure index (Error.inputUnderrun task.machine.ip), task.machine, ?_⟩
              rw [past nothing]
              exact Task.step_of_waits unfinished waits index
          · rw [inLoop, (listed.amid fed m.state #[] stale .policy).execute_eq] at failed
            cases failed
            have stepped : task.machine.execute .queue =
                (.error error, next.amid idle earlier []) := by
              rw [inRing]
              exact (listed.amid fed idle earlier [] .queue).execute_eq
            exact .inr ⟨_, _, Task.step_of_execute unfinished stepped fed index feederFinished⟩

/-! ## Rings that end well -/

/-- A ring from which steps lead to a finished one without failures, up to what is left unread. -/
structure Prospers (ring final : Ring) : Prop where
  leads : ∃ rest last, follow step? ring rest = some last ∧ last.view = final.view
  finished : final.isFinished = true
  fine : ∀ who error, final.outcomeAt who ≠ some (.error error)

theorem Prospers.step (prospers : Prospers ring final) (stepped : ring.step? index = some next) :
    Prospers next final := by
  obtain ⟨rest, last, followed, same⟩ := prospers.leads
  have still : Standstill step? last :=
    standstill_of_isFinished ((isFinished_congr same).trans prospers.finished)
  obtain ⟨others, stop, reached, alike, _⟩ := commuting.advance still followed stepped
  exact ⟨⟨others, stop, reached, alike.trans same⟩, prospers.finished, prospers.fine⟩

theorem Prospers.outcomeAt {outcome : Except Error (Option Word)} (prospers : Prospers ring final)
    (ended : ring.outcomeAt who = some outcome) : final.outcomeAt who = some outcome := by
  obtain ⟨rest, last, followed, same⟩ := prospers.leads
  rw [← outcomeAt_congr same]
  exact outcomeAt_of_follow followed ended

theorem Prospers.length (prospers : Prospers ring final) :
    ring.tasks.length = final.tasks.length := by
  obtain ⟨rest, last, followed, same⟩ := prospers.leads
  have seen := congrArg List.length same
  rw [view, view, List.length_map, List.length_map] at seen
  rw [← seen, length_of_follow followed]

/-- Rings in which no task has failed, whatever steps are made. -/
structure Calm (K : Ring → Prop) : Prop where
  step : ∀ {ring next : Ring} {index : Nat}, K ring → ring.step? index = some next → K next
  fine : ∀ {ring : Ring} {who : Nat} {error : Error}, K ring →
    ring.outcomeAt who ≠ some (.error error)

theorem calm_prospers : Calm (Prospers · final) where
  step prospers stepped := prospers.step stepped
  fine prospers failed := prospers.fine _ _ (prospers.outcomeAt failed)

/-! ## The loop and the ring -/

/-- Machines of the loop, each fed what is on its way to it, alongside the tasks of a ring. -/
structure Mirrors (ring : Ring) (machines : List Machine) : Prop where
  length : machines.length = ring.tasks.length
  along : ∀ {position : Nat} {m : Machine} {task : Task}, machines[position]? = some m →
    ring.tasks[position]? = some task → Alongside (ring.feederFinished position) task m

variable {machines : List Machine} {K : Ring → Prop}

theorem Mirrors.exists_along (mirrors : Mirrors ring machines) (there : machines[index]? = some m) :
    ∃ task, ring.tasks[index]? = some task ∧ Alongside (ring.feederFinished index) task m := by
  have inside : index < ring.tasks.length := by
    rw [← mirrors.length]
    exact (List.getElem?_eq_some_iff.mp there).1
  have here := List.getElem?_eq_getElem inside
  exact ⟨_, here, mirrors.along there here⟩

/-- The task of an amplifier that has halted has ended with the newest output. -/
theorem Mirrors.outcomeAt_of_halted (mirrors : Mirrors ring machines)
    (there : machines[index]? = some m) (halted : m.state = .halted) :
    ring.outcomeAt index = some (.ok m.lastOutput) := by
  obtain ⟨task, here, along⟩ := mirrors.exists_along there
  rw [outcomeAt, here, Option.bind_some, along.ended_of_halted halted]

/-- A machine and its task may go on together, the task until it ends at most. -/
theorem Mirrors.set (mirrors : Mirrors ring machines) (here : ring.tasks[index]? = some task)
    (unfinished : task.outcome = none) {later : Task}
    (along : Alongside (ring.feederFinished index) later called) :
    Mirrors ⟨ring.tasks.set index later⟩ (machines.set index called) := by
  have ended (position : Nat) (finished : ring.feederFinished position = true) :
      (⟨ring.tasks.set index later⟩ : Ring).feederFinished position = true := by
    unfold feederFinished finishedAt at finished ⊢
    rw [List.length_set, List.getElem?_set]
    split
    · rename_i same
      rw [← same, here, Option.map_some, Option.getD_some, Task.isFinished, unfinished] at finished
      cases finished
    · exact finished
  constructor
  · rw [List.length_set, List.length_set]
    exact mirrors.length
  · intro position m other there found
    rw [List.getElem?_set] at there found
    split at there
    · rename_i same
      subst same
      rw [if_pos rfl, if_pos (getElem?_inside here)] at found
      split at there
      · cases there
        cases found
        exact along.mono (ended _)
      · cases there
    · rename_i other
      rw [if_neg other] at found
      exact (mirrors.along there found).mono (ended _)

/-- What a working task puts out reaches the next machine and the next task. -/
theorem Mirrors.send (mirrors : Mirrors ring machines) {place : Nat} (value : Word)
    (working : ring.feederFinished place = false) :
    Mirrors ⟨ring.tasks.modify place (·.receive value)⟩
      (machines.modify place (·.feed [value])) := by
  have ends (position : Nat) :
      (⟨ring.tasks.modify place (·.receive value)⟩ : Ring).feederFinished position =
        ring.feederFinished position := by
    unfold feederFinished finishedAt
    rw [List.length_modify, List.getElem?_modify, Option.map_eq_map, Option.map_map]
    apply congrArg (Option.getD · false)
    apply congrArg (Option.map · _)
    funext task
    rw [Function.comp_apply]
    split
    · exact Task.isFinished_getting (.sent value) task
    · rfl
  constructor
  · rw [List.length_modify, List.length_modify]
    exact mirrors.length
  · intro position m task there found
    rw [ends]
    rw [List.getElem?_modify] at there found
    obtain ⟨machine, thereBefore, rfl⟩ := Option.map_eq_some_iff.mp there
    obtain ⟨former, foundBefore, rfl⟩ := Option.map_eq_some_iff.mp found
    have along := mirrors.along thereBefore foundBefore
    split
    · rename_i same
      subst same
      exact along.sent value working
    · exact along

/-- What is passed on after the end of a task reaches the next machine only. -/
theorem Mirrors.pass (mirrors : Mirrors ring machines) {place : Nat} (value : Word)
    (ended : ring.feederFinished place = true) :
    Mirrors ring (machines.modify place (·.feed [value])) := by
  constructor
  · rw [List.length_modify]
    exact mirrors.length
  · intro position m task there found
    rw [List.getElem?_modify] at there
    obtain ⟨machine, thereBefore, rfl⟩ := Option.map_eq_some_iff.mp there
    have along := mirrors.along thereBefore found
    split
    · rename_i same
      subst same
      exact along.passed value ended
    · exact along

theorem Calm.never_fails {later : Task} {error : Error} (calm : Calm K) (kept : K ring)
    (here : ring.tasks[index]? = some task)
    (stepped : task.step index (ring.feederFinished index) = (.finished, later)) :
    later.outcome ≠ some (.error error) := by
  intro failed
  have next := calm.step kept
    (step?_eq_some_iff.mpr ⟨_, _, _, here, stepped, Task.Move.noConfusion, rfl⟩)
  have ended := outcomeAt_after (getElem?_inside here) .finished later index
  exact calm.fine next (ended.trans ((if_pos rfl).trans failed))

/-- **The task takes the step.** When the loop executes an instruction, the task makes its step. -/
theorem Mirrors.execute {step : Step} {after : Machine} (mirrors : Mirrors ring machines)
    (calm : Calm K) (kept : K ring) (there : machines[index]? = some m)
    (live : m.state.isTerminal = false) (executed : m.execute .policy = (.ok step, after)) :
    ∃ task machine, ring.tasks[index]? = some task ∧ task.outcome = none ∧
      K (ring.after index (Task.conclude index machine (.ok step)).1
        (Task.conclude index machine (.ok step)).2) ∧
      machine.lastOutput = after.lastOutput ∧
      Alongside (ring.feederFinished index) { machine } after := by
  obtain ⟨task, here, along⟩ := mirrors.exists_along there
  rcases along.execute live executed index with
    ⟨unfinished, ⟨error, failed⟩ | ⟨machine, stepped, newest, along⟩⟩
  · exact absurd rfl (calm.never_fails kept here failed)
  · have active : (Task.conclude index machine (.ok step)).1 ≠ .idle := by
      cases step with
      | needsInput => exact absurd executed (Machine.policy_never_waits _ _)
      | _ => exact Task.Move.noConfusion
    have next := calm.step kept (step?_eq_some_iff.mpr ⟨_, _, _, here, stepped, active, rfl⟩)
    exact ⟨_, machine, here, unfinished, next, newest, along⟩

theorem Mirrors.work {after : Machine} (mirrors : Mirrors ring machines)
    (calm : Calm K) (kept : K ring) (there : machines[index]? = some m)
    (live : m.state.isTerminal = false) (executed : m.execute .policy = (.ok .executed, after)) :
    ∃ next, K next ∧ Mirrors next (machines.set index after) := by
  obtain ⟨task, machine, here, unfinished, keptNext, _, along⟩ :=
    mirrors.execute calm kept there live executed
  refine ⟨ring.after index .worked { machine }, keptNext, ?_⟩
  rw [after_of_silent rfl]
  exact mirrors.set here unfinished along

theorem feederFinished_succ (inside : index < ring.tasks.length) :
    ring.feederFinished ((index + 1) % ring.tasks.length) = (ring.outcomeAt index).isSome := by
  have next : (index + 1) % ring.tasks.length < ring.tasks.length := Nat.mod_lt _ (by omega)
  unfold feederFinished finishedAt outcomeAt
  rw [(feeder_eq_iff inside next).mpr rfl, List.getElem?_eq_getElem inside]
  rfl

/-- An output, which goes to the next machine and to the next task. -/
theorem Mirrors.output {after : Machine} {value : Word} (mirrors : Mirrors ring machines)
    (calm : Calm K) (kept : K ring) (there : machines[index]? = some m)
    (live : m.state.isTerminal = false)
    (executed : m.execute .policy = (.ok (.output value), after)) :
    ∃ next, K next ∧
      Mirrors next ((machines.set index { after with state := .paused }.drainOutput.2).modify
        ((index + 1) % machines.length) (·.feed [value])) := by
  obtain ⟨task, machine, here, unfinished, keptNext, _, along⟩ :=
    mirrors.execute calm kept there live executed
  have inside := getElem?_inside here
  refine ⟨_, keptNext, ?_⟩
  have liveAfter : after.state.isTerminal = false := by
    rw [(Machine.execute_eq_iff.mp executed).state_eq]
    exact live
  have paused : Alongside (ring.feederFinished index) { machine } { after with state := .paused } :=
    along.inState liveAfter rfl
  have kept := mirrors.set here unfinished paused.drained
  have working : (⟨ring.tasks.set index { machine }⟩ : Ring).feederFinished
      ((index + 1) % ring.tasks.length) = false := by
    have size : (⟨ring.tasks.set index { machine }⟩ : Ring).tasks.length = ring.tasks.length :=
      List.length_set
    rw [← size, feederFinished_succ (by rw [size]; exact inside), outcomeAt,
      List.getElem?_set_self inside]
    rfl
  rw [mirrors.length]
  exact kept.send value working

/-- The end of an amplifier, behind which the signal is passed on. -/
theorem Mirrors.halt {after : Machine} (mirrors : Mirrors ring machines)
    (calm : Calm K) (kept : K ring) (there : machines[index]? = some m)
    (live : m.state.isTerminal = false) (executed : m.execute .policy = (.ok .halted, after)) :
    ∃ next, K next ∧ next.outcomeAt index = some (.ok after.lastOutput) ∧
      Mirrors next (machines.set index { after with state := .halted }) := by
  obtain ⟨task, machine, here, unfinished, keptNext, newest, along⟩ :=
    mirrors.execute calm kept there live executed
  refine ⟨ring.after index .finished { machine, outcome := some (.ok machine.lastOutput) },
    keptNext, ?_, ?_⟩
  · rw [outcomeAt_after (getElem?_inside here), if_pos rfl, newest]
  · rw [after_of_silent rfl]
    exact mirrors.set here unfinished (.halted rfl (by rw [newest]; rfl))

theorem Mirrors.exchange (mirrors : Mirrors ring machines) (there : machines[index]? = some m)
    (kept : ∀ {task}, ring.tasks[index]? = some task →
      Alongside (ring.feederFinished index) task m →
        Alongside (ring.feederFinished index) task called) :
    Mirrors ring (machines.set index called) := by
  constructor
  · rw [List.length_set]
    exact mirrors.length
  · intro position other task found here
    rw [List.getElem?_set] at found
    split at found
    · rename_i same
      subst same
      split at found
      · cases found
        exact kept here (mirrors.along there here)
      · cases found
    · exact mirrors.along found here

theorem Mirrors.goesOn {outputs : List Word} {mid : Machine}
    (goesOn : Machine.GoesOn .onOutput m outputs mid) (mirrors : Mirrors ring machines)
    (calm : Calm K) (kept : K ring) (there : machines[index]? = some m)
    (live : m.state.isTerminal = false) :
    ∃ next, K next ∧ Mirrors next (machines.set index mid) := by
  induction goesOn generalizing ring machines with
  | here m => exact ⟨ring, kept, mirrors.exchange there fun _ along => along⟩
  | @executed m after last outputs first rest ih =>
      obtain ⟨next, keptNext, mirrorsNext⟩ := mirrors.work calm kept there live first
      have liveAfter : after.state.isTerminal = false := by
        rw [(Machine.execute_eq_iff.mp first).state_eq]
        exact live
      have thereAfter : (machines.set index after)[index]? = some after :=
        List.getElem?_set_self (List.getElem?_eq_some_iff.mp there).1
      obtain ⟨stop, keptStop, mirrorsStop⟩ :=
        ih mirrorsNext keptNext thereAfter liveAfter
      rw [List.set_set] at mirrorsStop
      exact ⟨stop, keptStop, mirrorsStop⟩
  | output unconcerned _ _ _ => exact absurd rfl unconcerned

theorem modify_eq_set {α : Type} {list : List α} {element : α} {f : α → α}
    (there : list[index]? = some element) : list.modify index f = list.set index (f element) := by
  apply List.ext_getElem?
  intro position
  rw [List.getElem?_modify, List.getElem?_set]
  by_cases here : index = position
  · have inside : index < list.length := (List.getElem?_eq_some_iff.mp there).1
    rw [if_pos here, if_pos inside, ← here, there]
    simp only [Option.map_eq_map, Option.map_some, ↓reduceIte]
  · simp only [here, ↓reduceIte, Option.map_eq_map, Option.map_id_fun', id_eq]

/-- Behind an amplifier that has halted the signal is passed on. -/
theorem Mirrors.pass_on {outcome : Except Error (Option Word)} (signal : Word)
    (mirrors : Mirrors ring machines) (inside : index < machines.length)
    (ended : ring.outcomeAt index = some outcome) :
    Mirrors ring (machines.modify ((index + 1) % machines.length) (·.feed [signal])) := by
  rw [mirrors.length] at inside ⊢
  apply mirrors.pass signal
  rw [feederFinished_succ inside, ended]
  rfl

/-- The turn of an amplifier that had halted before. -/
theorem Mirrors.call_halted {signal : Word}
    (mirrors : Mirrors ring (machines.set index (m.feed [signal])))
    (inside : index < machines.length) (halted : m.state = .halted) :
    ring.outcomeAt index = some (.ok m.lastOutput) ∧
      Mirrors ring ((machines.set index m.drainOutput.2).modify
        ((index + 1) % machines.length) (·.feed [signal])) := by
  have fed : (machines.set index (m.feed [signal]))[index]? = some (m.feed [signal]) :=
    List.getElem?_set_self inside
  have ended : ring.outcomeAt index = some (.ok m.lastOutput) :=
    Mirrors.outcomeAt_of_halted (m := m.feed [signal]) mirrors fed halted
  have kept := mirrors.exchange fed fun _ along =>
    (Alongside.halted halted (along.ended_of_halted halted)).drained
  rw [List.set_set] at kept
  have passed := kept.pass_on signal (by rwa [List.length_set]) ended
  rw [List.length_set] at passed
  exact ⟨ended, passed⟩

/-- The run of an amplifier is followed as far as it goes on. -/
theorem Mirrors.reaches {signal : Word} {outputs : List Word} {mid : Machine}
    (mirrors : Mirrors ring (machines.set index (m.feed [signal]))) (calm : Calm K) (kept : K ring)
    (inside : index < machines.length) (live : m.state.isTerminal = false)
    (goesOn : Machine.GoesOn .onOutput (m.started [signal]) outputs mid) :
    ∃ midway, K midway ∧ Mirrors midway (machines.set index mid) ∧ mid.state.isTerminal = false := by
  have started : Mirrors ring
      ((machines.set index (m.feed [signal])).set index (m.started [signal])) :=
    mirrors.exchange (List.getElem?_set_self inside) fun _ along => along.inState live rfl
  rw [List.set_set] at started
  obtain ⟨midway, keptMid, mirrorsMid⟩ :=
    started.goesOn goesOn calm kept (List.getElem?_set_self inside) rfl
  rw [List.set_set] at mirrorsMid
  refine ⟨midway, keptMid, mirrorsMid, ?_⟩
  rw [goesOn.state_eq]
  rfl

/-- The turn of an amplifier that has not halted: its run is followed to the instruction at which
it ends, and then that instruction is. -/
theorem Mirrors.call_live {signal : Word} {fuel : Nat} {output : Option Word}
    (mirrors : Mirrors ring (machines.set index (m.feed [signal])))
    (calm : Calm K) (kept : K ring) (inside : index < machines.length)
    (live : m.state.isTerminal = false)
    (returned : m.runUntilOutput fuel [signal] = some (.ok output, called)) :
    ∃ next, K next ∧
      (called.isHalted = true → next.outcomeAt index = some (.ok called.lastOutput)) ∧
      Mirrors next ((machines.set index called.drainOutput.2).modify
        ((index + 1) % machines.length)
        (·.feed [if called.isHalted then signal else output.getD signal])) := by
  obtain ⟨outputs, mid, goesOn, ends⟩ := (Machine.run_returns_iff live).mp ⟨fuel, returned⟩
  obtain ⟨midway, keptMid, mirrorsMid, liveMid⟩ := mirrors.reaches calm kept inside live goesOn
  have thereMid : (machines.set index mid)[index]? = some mid := List.getElem?_set_self inside
  cases ends with
  | output _ ended =>
      obtain ⟨next, keptNext, mirrorsNext⟩ :=
        mirrorsMid.output calm keptMid thereMid liveMid ended
      rw [List.set_set, List.length_set] at mirrorsNext
      refine ⟨next, keptNext, ?_, mirrorsNext⟩
      intro halted
      cases halted
  | needsInput waits => exact absurd waits (Machine.policy_never_waits _ _)
  | halted ended =>
      obtain ⟨next, keptNext, outcome, mirrorsNext⟩ :=
        mirrorsMid.halt calm keptMid thereMid liveMid ended
      rw [List.set_set] at mirrorsNext
      have drained := mirrorsNext.exchange (List.getElem?_set_self inside) fun _ along =>
        along.drained
      rw [List.set_set] at drained
      have passed := drained.pass_on signal (by rwa [List.length_set]) outcome
      rw [List.length_set] at passed
      exact ⟨next, keptNext, fun _ => outcome, passed⟩

/-- **One amplifier's turn.** Running an amplifier to its next output, with the signal that was on
its way to it, leaves machines that mirror a later ring, with the signal for the next amplifier on
its way. When the amplifier has halted its task has ended. -/
theorem Mirrors.call {signal : Word} {fuel : Nat} {output : Option Word}
    (mirrors : Mirrors ring (machines.modify index (·.feed [signal])))
    (calm : Calm K) (kept : K ring) (there : machines[index]? = some m)
    (returned : m.runUntilOutput fuel [signal] = some (.ok output, called)) :
    ∃ next, K next ∧
      (called.isHalted = true → next.outcomeAt index = some (.ok called.lastOutput)) ∧
      Mirrors next ((machines.set index called.drainOutput.2).modify
        ((index + 1) % machines.length)
        (·.feed [if called.isHalted then signal else output.getD signal])) := by
  have inside : index < machines.length := (List.getElem?_eq_some_iff.mp there).1
  rw [modify_eq_set there] at mirrors
  cases terminal : m.state.isTerminal with
  | true =>
      have halted : m.state = .halted := by
        rcases State.halted_or_failed terminal with halted | failed
        · exact halted
        · rw [Machine.runUntilOutput, Machine.run_of_failed failed] at returned
          cases returned
      rw [Machine.runUntilOutput, Machine.run_of_halted halted] at returned
      cases returned
      obtain ⟨ended, passed⟩ := mirrors.call_halted inside halted
      refine ⟨ring, kept, fun _ => ended, ?_⟩
      rwa [if_pos (show m.isHalted = true from decide_eq_true halted)]
  | false => exact mirrors.call_live calm kept inside terminal returned

/-- A turn that fails does so for want of input. By then the tasks of amplifiers that have halted
have ended. -/
theorem Mirrors.call_fails {signal : Word} {fuel : Nat} {error : Error}
    (mirrors : Mirrors ring (machines.modify index (·.feed [signal]))) (calm : Calm K)
    (kept : K ring) (there : machines[index]? = some m)
    (failed : m.runUntilOutput fuel [signal] = some (.error error, called)) :
    error.kind = .inputUnderrun ∧
      ∃ next, K next ∧ ∀ position other, (machines.set index called)[position]? = some other →
        other.isHalted = true → (next.outcomeAt position).isSome = true := by
  have inside : index < machines.length := (List.getElem?_eq_some_iff.mp there).1
  rw [modify_eq_set there] at mirrors
  cases terminal : m.state.isTerminal with
  | true =>
      exfalso
      rcases State.halted_or_failed terminal with halted | stopped
      · rw [Machine.runUntilOutput, Machine.run_of_halted halted] at failed
        cases failed
      · obtain ⟨task, _, along⟩ := mirrors.exists_along (List.getElem?_set_self inside)
        exact along.state_ne_failed stopped
  | false =>
      obtain ⟨outputs, mid, goesOn, ends⟩ := (Machine.run_returns_iff terminal).mp ⟨fuel, failed⟩
      obtain ⟨midway, keptMid, mirrorsMid, liveMid⟩ :=
        mirrors.reaches calm kept inside terminal goesOn
      obtain ⟨task, here, along⟩ := mirrorsMid.exists_along (List.getElem?_set_self inside)
      cases ends with
      | failed ended =>
          refine ⟨?_, midway, keptMid, ?_⟩
          · rcases along.fails liveMid ended index with underrun | ⟨fault, machine, stepped⟩
            · exact underrun
            · exact absurd rfl (calm.never_fails keptMid here stepped)
          · intro position other found halted
            by_cases same : index = position
            · subst same
              rw [List.getElem?_set_self inside] at found
              cases found
              cases halted
            · rw [List.getElem?_set_ne same] at found
              rw [mirrorsMid.outcomeAt_of_halted ((List.getElem?_set_ne same).trans found)
                (of_decide_eq_true halted)]
              rfl

/-- The last amplifier's task has ended when the amplifier has halted. -/
theorem Mirrors.call_last {signal : Word} {fuel : Nat} {output : Option Word} {done : List Machine}
    (mirrors : Mirrors ring
      ((done ++ [m]).modify (done.length % (done ++ [m]).length) (·.feed [signal])))
    (calm : Calm K) (kept : K ring)
    (returned : m.runUntilOutput fuel [signal] = some (.ok output, called))
    (halted : called.isHalted = true) :
    ∃ next, K next ∧ next.outcomeAt (next.tasks.length - 1) = some (.ok called.lastOutput) := by
  have there : (done ++ [m])[done.length]? = some m := by simp
  rw [Nat.mod_eq_of_lt (by simp)] at mirrors
  obtain ⟨next, keptNext, ended, mirrorsNext⟩ := mirrors.call calm kept there returned
  have last : next.tasks.length - 1 = done.length := by
    rw [← mirrorsNext.length]
    simp
  exact ⟨next, keptNext, last ▸ ended halted⟩

/-- What a pass of the loop comes to, as far as the ring is concerned. -/
inductive Followed (K : Ring → Prop) (machines : List Machine) :
    Turn Word (Except Error Word) → Prop
  | again {ring : Ring} {signal : Word} (kept : K ring)
      (mirrors : Mirrors ring (machines.modify 0 (·.feed [signal]))) :
      Followed K machines (.again signal)
  | settled {ring : Ring} {value : Word} (kept : K ring)
      (last : ring.outcomeAt (ring.tasks.length - 1) = some (.ok (some value))) :
      Followed K machines (.done (.ok value))
  | silent {ring : Ring} (error : Error) (kept : K ring)
      (last : ring.outcomeAt (ring.tasks.length - 1) = some (.ok none)) :
      Followed K machines (.done (.error error))
  | failed {ring : Ring} {error : Error} (kept : K ring) (underrun : error.kind = .inputUnderrun)
      (halted : ∀ position m, machines[position]? = some m → m.isHalted = true →
        (ring.outcomeAt position).isSome = true) : Followed K machines (.done (.error error))

/-- **One pass.** A pass from some amplifier on is followed by the ring. -/
theorem Mirrors.pass_follows {fuel position : Nat} {signal : Word} {done rest left : List Machine}
    {turn : Turn Word (Except Error Word)}
    (mirrors : Mirrors ring
      ((done ++ rest).modify (done.length % (done ++ rest).length) (·.feed [signal])))
    (calm : Calm K) (kept : K ring)
    (passes : Chain.FeedbackPasses fuel position signal rest turn left) :
    Followed K (done ++ left) turn := by
  induction passes generalizing ring done with
  | nothing =>
      rw [List.append_nil, Nat.mod_self] at mirrors
      rw [List.append_nil]
      exact .again kept mirrors
  | @failed position signal m called rest error returned =>
      have there : (done ++ m :: rest)[done.length]? = some m := by simp
      rw [Nat.mod_eq_of_lt (by simp)] at mirrors
      obtain ⟨underrun, next, keptNext, ended⟩ := mirrors.call_fails calm kept there returned
      have left : (done ++ m :: rest).set done.length called = done ++ called :: rest := by simp
      rw [left] at ended
      exact .failed keptNext underrun ended
  | settled returned halted newest =>
      obtain ⟨next, keptNext, last⟩ := mirrors.call_last calm kept returned halted
      exact .settled keptNext (newest ▸ last)
  | silent returned halted newest =>
      obtain ⟨next, keptNext, last⟩ := mirrors.call_last calm kept returned halted
      exact .silent _ keptNext (newest ▸ last)
  | @onward position signal m called rest left output turn returned further passes ih =>
      have there : (done ++ m :: rest)[done.length]? = some m := by simp
      rw [Nat.mod_eq_of_lt (by simp)] at mirrors
      obtain ⟨next, keptNext, _, mirrorsNext⟩ := mirrors.call calm kept there returned
      -- The machine that had its turn goes over to those that are done.
      have along : (done ++ m :: rest).set done.length called.drainOutput.2 =
          (done ++ [called.drainOutput.2]) ++ rest := by simp
      have sizes : (done ++ m :: rest).length =
          ((done ++ [called.drainOutput.2]) ++ rest).length := by simp
      have behind : done.length + 1 = (done ++ [called.drainOutput.2]).length := by simp
      rw [along, sizes, behind] at mirrorsNext
      have follows := ih mirrorsNext keptNext
      rwa [List.append_assoc] at follows

/-- **The loop.** What the loop comes to is followed by the ring as long as no task fails. -/
theorem Mirrors.loop_followed {fuel turns : Nat} {signal : Word} {result : Except Error Word}
    {after : Chain} (mirrors : Mirrors ring (machines.modify 0 (·.feed [signal]))) (calm : Calm K)
    (kept : K ring)
    (returned : iterate (Chain.feedbackTurn fuel) turns (signal, machines) =
      some (result, after)) :
    Followed K after.machines (.done result) := by
  induction turns generalizing ring signal machines with
  | zero => cases returned
  | succ turns ih =>
      obtain ⟨fewer, turn, left, same, passed, ends⟩ := Chain.feedback_cases returned
      have start : Mirrors ring (([] ++ machines).modify
          (([] : List Machine).length % ([] ++ machines).length) (·.feed [signal])) := by
        rwa [List.length_nil, Nat.zero_mod]
      have follows : Followed K ([] ++ left) turn :=
        start.pass_follows calm kept (Chain.feedbackPass_iff.mp passed)
      rcases ends with ⟨next, rfl, rest⟩ | ⟨rfl, rfl⟩
      · cases same
        cases follows with
        | again keptNext mirrorsNext => exact ih mirrorsNext keptNext rest
      · exact follows

/-- When the loop comes to a value, the last task of a ring that ends well ends with it. -/
theorem Mirrors.loop_follows {fuel turns : Nat} {signal value : Word} {after : Chain}
    (mirrors : Mirrors ring (machines.modify 0 (·.feed [signal]))) (prospers : Prospers ring final)
    (returned : iterate (Chain.feedbackTurn fuel) turns (signal, machines) =
      some (.ok value, after)) :
    final.outcomeAt (final.tasks.length - 1) = some (.ok (some value)) := by
  cases mirrors.loop_followed calm_prospers prospers returned with
  | settled prospersNext last =>
      rw [← prospersNext.length]
      exact prospersNext.outcomeAt last

theorem alongside_self (live : m.state.isTerminal = false) (alone : m.bridge.provider = none)
    (strict : m.config.underrun = .error) : Alongside feederFinished { machine := m } m :=
  .working live rfl alone strict m.amid_self.symm m.amid_self.symm (absurd rfl)

theorem mirrors_ofPhases {program : Program} {phases : List Word} {chain : Chain}
    (built : Chain.ofPhases program phases = .ok chain) (input : Word) :
    Mirrors (ofPhases program phases input) (chain.machines.modify 0 (·.feed [input])) := by
  cases phases with
  | nil => cases built
  | cons phase rest =>
      cases built
      refine ⟨by rw [List.length_modify, length_ofPhases, List.length_map], ?_⟩
      intro position m task there here
      have tasks : (ofPhases program (phase :: rest) input).tasks =
          (((phase :: rest).map (Chain.amplifier program Config.strict)).modify 0
            (·.feed [input])).map fun machine => { machine } := rfl
      rw [tasks, List.getElem?_map, there] at here
      cases here
      rw [List.getElem?_modify] at there
      obtain ⟨amplifier, among, rfl⟩ := Option.map_eq_some_iff.mp there
      obtain ⟨seed, _, rfl⟩ := List.mem_map.mp (List.mem_of_getElem? among)
      split <;> exact alongside_self rfl rfl rfl

/-- **Feedback in turn and side by side agree.** When the loop that runs its amplifiers in turn
returns a value, and amplifiers side by side return one along some schedule, it is the same. -/
theorem loop_agrees_with_ring {program : Program} {phases : List Word} {input value other : Word}
    {chain after : Chain} {fuel : Nat} (built : Chain.ofPhases program phases = .ok chain)
    (returned : chain.runFeedback fuel input = some (.ok value, after))
    (followed : follow step? (ofPhases program phases input) schedule = some final)
    (finished : final.isFinished = true) (result : final.result = .ok other) : value = other := by
  obtain ⟨fine, ended⟩ := outcomes_of_result result
  have mirrors := mirrors_ofPhases built input
  have prospers : Prospers (ofPhases program phases input) final :=
    ⟨⟨schedule, final, followed, rfl⟩, finished, fine⟩
  have last := mirrors.loop_follows prospers returned
  rw [ended] at last
  cases last
  rfl

/-- Two relays run in turn come to a value, and to the one they come to side by side. -/
theorem relays_loop_agrees : ∃ chain after fuel schedule final value other,
    Chain.ofPhases relay [1, 2] = .ok chain ∧
      chain.runFeedback fuel 5 = some (.ok value, after) ∧
      follow step? (ofPhases relay [1, 2] 5) schedule = some final ∧ final.isFinished = true ∧
      final.result = .ok other ∧ value = other := by
  have bare : ∃ after value, Chain.runFeedback 4 5 ⟨[bareRelay 1, bareRelay 2]⟩ =
      some (.ok value, after) := ⟨_, _, rfl⟩
  obtain ⟨after, value, returned⟩ := bare
  have wide := Chain.runFeedback_widen returned defaultScratch
  have built := ofPhases_relay 1 2
  obtain ⟨final, followed, finished, result⟩ := relays_finish
  exact ⟨_, _, _, _, final, value, 5, built, wide, followed, finished, result,
    loop_agrees_with_ring built wide followed finished result⟩

end Ring

end Intcode
