import Intcode.Proofs.Conservation

/-! # The lifecycle of a machine

A machine is on standby until the first call that executes instructions, and such a call leaves it
paused, halted or failed (`Machine.state_of_call`). What else is done to it leaves its state alone,
and calls leave alone a machine that has halted or failed, so that it stays as it is until it is
reset. The count of steps is the number of instructions that were completed since: one that finds no
input or fails is not (`Machine.steps_of_perform`). A machine halts on an instruction that its
instruction pointer addresses still (`Machine.exists_haltedOn`).

A session is what was done before the last reset and what was done since. So all of this holds
between any calls of any session (`Machine.sessions_have_lifecycle`). -/

namespace Intcode

/-- Whether the operation executes instructions. -/
def Operation.isCall : Operation → Bool
  | .step | .run .. => true
  | _ => false

namespace Machine

/-- Whether an instruction with this outcome is completed. One that finds no input or fails is
not. -/
def completed : Except Error Step → Bool
  | .ok .needsInput | .error _ => false
  | .ok _ => true

/-- Whether a change is an instruction that is completed. -/
def Change.completes (change : Change) : Bool :=
  match change.cause with
  | .executing source => completed (change.before.execute source).1
  | _ => false

/-- How many instructions are completed in some changes. -/
def completedIn (past : List Change) : Nat :=
  past.countP (·.completes)

/-- The instruction pointer addresses a halt instruction. -/
def AtHalt (m : Machine) : Prop :=
  ∃ raw instruction, m.memory.read m.ip = .ok raw ∧ Instruction.decode raw = .ok instruction ∧
    instruction.opcode = .halt

variable {m mid start next after final : Machine} {suspend : Suspend} {source : InputSource}
  {fuel : Nat} {operation : Operation} {operations before since : List Operation}
  {past later : List Change} {answer : Except Error Answer}
  {answers : List (Except Error Answer)} {result : RunResult}

/-! ## Counting instructions -/

theorem completedIn_append (past later : List Change) :
    completedIn (past ++ later) = completedIn past + completedIn later :=
  List.countP_append

@[simp] theorem completedIn_nil : completedIn [] = 0 := rfl

@[simp] theorem completedIn_aside (before after : Machine) (later : List Change) :
    completedIn (⟨before, .aside, after⟩ :: later) = completedIn later := rfl

@[simp] theorem completedIn_accepting (before after : Machine) (values : List Word)
    (later : List Change) :
    completedIn (⟨before, .accepting values, after⟩ :: later) = completedIn later := rfl

/-- An instruction adds to the count of steps what it adds to the completed ones. -/
theorem steps_execute (m after : Machine) (source : InputSource) (later : List Change) :
    (m.execute source).2.steps + completedIn later =
      m.steps + completedIn (⟨m, .executing source, after⟩ :: later) := by
  have once : counts (m.execute source).1 = if completed (m.execute source).1 then 1 else 0 := by
    cases (m.execute source).1 with
    | error error => rfl
    | ok step => cases step <;> rfl
  have counted : completedIn (⟨m, .executing source, after⟩ :: later) =
      completedIn later + if completed (m.execute source).1 then 1 else 0 := List.countP_cons
  rw [(m.executes source).steps_eq, once, counted]
  omega

/-- The changes of a run that returns are those on its way, the instruction at which it ends, and the
mark behind that. -/
theorem exists_last_of_iterate
    (returned : iterate (fun m => some (runTurn suspend m)) fuel m = some (result, final)) :
    ∃ past mid, Ends suspend mid result final ∧ mid.steps = m.steps + completedIn past ∧
      runChanges suspend fuel m = past ++
        [⟨mid, .executing suspend.source, (mid.execute suspend.source).2⟩,
          ⟨(mid.execute suspend.source).2, .aside, final⟩] := by
  induction fuel generalizing m with
  | zero => cases returned
  | succ fuel ih =>
      cases turned : runTurn suspend m with
      | again next =>
          obtain rfl := eq_of_runTurn_again turned
          simp only [iterate, turned] at returned
          obtain ⟨past, mid, ends, steps, row⟩ := ih returned
          refine ⟨⟨m, .executing suspend.source, (m.execute suspend.source).2⟩ :: past, mid, ends,
            ?_, ?_⟩
          · rw [steps, steps_execute]
          · simp only [runChanges, turned, row, List.cons_append]
      | done answer =>
          simp only [iterate, turned] at returned
          cases returned
          refine ⟨[], m, runTurn_done_iff.mp turned, rfl, ?_⟩
          simp only [runChanges, turned, List.nil_append]

/-- What a run leaves is the machine behind the instruction at which it ends, with a mark. -/
theorem Ends.marked (ends : Ends suspend m result final) :
    ∃ state, final = { (m.execute suspend.source).2 with state } := by
  cases ends with
  | output _ ended | needsInput ended | halted ended | failed ended =>
      rw [ended]
      exact ⟨_, rfl⟩

/-! ## One operation -/

theorem eq_of_call_of_terminal (call : operation.isCall = true)
    (terminal : m.state.isTerminal = true)
    (performed : m.perform fuel operation = some (answer, next)) : next = m := by
  cases operation with
  | step =>
      cases performed
      rcases State.halted_or_failed terminal with halted | failed
      · rw [step_of_halted halted]
      · rw [step_of_failed failed]
  | run suspend input =>
      obtain ⟨⟨result, final⟩, returned, same⟩ := Option.map_eq_some_iff.mp performed
      cases same
      exact eq_of_run_of_terminal terminal returned
  | _ => cases call

/-- A call leaves a machine that goes on paused, halted or failed. -/
theorem state_of_call (call : operation.isCall = true) (live : m.state.isTerminal = false)
    (performed : m.perform fuel operation = some (answer, next)) :
    next.state = .paused ∨ next.state.isTerminal = true := by
  cases operation with
  | step =>
      cases performed
      cases executed : m.resumed.execute .provider with
      | mk outcome after =>
          rw [step_of_live live executed]
          cases outcome with
          | error error => exact .inr rfl
          | ok step =>
              cases step with
              | halted => exact .inr rfl
              | executed | output | needsInput => exact .inl rfl
  | run suspend input =>
      obtain ⟨⟨result, final⟩, returned, same⟩ := Option.map_eq_some_iff.mp performed
      cases same
      obtain ⟨outputs, mid, _, ends⟩ := (run_returns_iff live).mp ⟨fuel, returned⟩
      cases ends with
      | output | needsInput => exact .inl rfl
      | halted | failed => exact .inr rfl
  | _ => cases call

/-- What is done aside executes nothing and leaves the state alone. -/
theorem keeps_of_aside (aside : operation.isCall = false) (kept : operation ≠ .reset)
    (performed : m.perform fuel operation = some (answer, next)) :
    next.state = m.state ∧ next.steps = m.steps ∧ completedIn (m.changes fuel operation) = 0 := by
  cases operation with
  | step | run => cases aside
  | reset => exact absurd rfl kept
  | poke address value =>
      have nothing : completedIn (m.changes fuel (.poke address value)) = 0 := by
        simp only [changes, performed, Option.toList_some, List.map_cons, List.map_nil,
          completedIn_aside, completedIn_nil]
      rcases perform_poke_cases performed with rfl | ⟨index, rfl⟩
      · exact ⟨rfl, rfl, nothing⟩
      · exact ⟨rfl, rfl, nothing⟩
  | feed | peek | snapshot | takeOutput | drainOutput | setSink | setProvider | clearCallbacks =>
      cases performed
      exact ⟨rfl, rfl, rfl⟩

/-- What becomes of the state of a machine in an operation. -/
inductive Moves (m : Machine) : Operation → Machine → Prop
  | reset : Moves m .reset m.reset
  | aside {operation : Operation} {next : Machine} (aside : operation.isCall = false)
      (kept : operation ≠ .reset) (same : next.state = m.state) : Moves m operation next
  /-- A call on a machine that has halted or failed leaves it alone. -/
  | refused {operation : Operation} (call : operation.isCall = true)
      (terminal : m.state.isTerminal = true) : Moves m operation m
  | called {operation : Operation} {next : Machine} (call : operation.isCall = true)
      (live : m.state.isTerminal = false)
      (settled : next.state = .paused ∨ next.state.isTerminal = true) : Moves m operation next

theorem moves (performed : m.perform fuel operation = some (answer, next)) :
    m.Moves operation next := by
  cases call : operation.isCall with
  | false =>
      by_cases reset : operation = .reset
      · subst reset
        cases performed
        exact .reset
      · exact .aside call reset (keeps_of_aside call reset performed).1
  | true =>
      cases terminal : m.state.isTerminal with
      | true =>
          obtain rfl := eq_of_call_of_terminal call terminal performed
          exact .refused call terminal
      | false => exact .called call terminal (state_of_call call terminal performed)

/-- No operation leaves a machine running. -/
theorem Moves.idle (moves : m.Moves operation next) (idle : m.state ≠ .running) :
    next.state ≠ .running := by
  cases moves with
  | reset => exact State.noConfusion
  | aside aside kept same => rwa [same]
  | refused call terminal => exact idle
  | called call live settled =>
      rintro running
      rw [running] at settled
      rcases settled with absurd | absurd <;> cases absurd

/-- Only a call takes a machine from standby, and only a reset brings it back. -/
theorem Moves.standby_iff (moves : m.Moves operation next) (kept : operation ≠ .reset) :
    next.state = .standby ↔ m.state = .standby ∧ operation.isCall = false := by
  cases moves with
  | reset => exact absurd rfl kept
  | aside aside kept same => rw [same, aside, and_iff_left rfl]
  | refused call terminal =>
      rw [call]
      refine iff_of_false ?_ (fun absurd => nomatch absurd.2)
      intro standby
      rw [standby] at terminal
      cases terminal
  | called call live settled =>
      rw [call]
      refine iff_of_false ?_ (fun absurd => nomatch absurd.2)
      intro standby
      rw [standby] at settled
      rcases settled with absurd | absurd <;> cases absurd

/-- What has halted or failed stays so until it is reset. -/
theorem Moves.stays (moves : m.Moves operation next) (kept : operation ≠ .reset)
    (terminal : m.state.isTerminal = true) : next.state = m.state := by
  cases moves with
  | reset => exact absurd rfl kept
  | aside aside kept same => exact same
  | refused call terminal => rfl
  | called call live settled =>
      rw [live] at terminal
      cases terminal

theorem changes_of_terminal (call : operation.isCall = true) (terminal : m.state.isTerminal = true)
    (fuel : Nat) : m.changes fuel operation = [] := by
  cases operation with
  | step | run => simp only [changes, terminal, ↓reduceIte]
  | _ => cases call

theorem steps_of_step (live : m.state.isTerminal = false) (fuel : Nat) :
    m.step.2.steps = m.steps + completedIn (m.changes fuel .step) := by
  have counted := steps_execute m.resumed (m.resumed.execute .provider).2 .provider
    [⟨(m.resumed.execute .provider).2, .aside, m.step.2⟩]
  simp only [changes, live, Bool.false_eq_true, ↓reduceIte, completedIn_aside]
  rw [step_of_live live rfl] at counted ⊢
  exact counted

theorem steps_of_run {input : List Word} (live : m.state.isTerminal = false)
    (returned : m.run suspend fuel input = some (result, final)) :
    final.steps = m.steps + completedIn (m.changes fuel (.run suspend input)) := by
  rw [run_of_live live] at returned
  obtain ⟨past, mid, ends, steps, row⟩ := exists_last_of_iterate returned
  have counted := steps_execute mid (mid.execute suspend.source).2 suspend.source
    [⟨(mid.execute suspend.source).2, .aside, final⟩]
  obtain ⟨state, rfl⟩ := ends.marked
  have begun : (m.started input).steps = m.steps := rfl
  simp only [changes, live, Bool.false_eq_true, ↓reduceIte, completedIn_aside,
    completedIn_accepting, row, completedIn_append, completedIn_nil] at counted ⊢
  omega

/-- **Counting steps.** An operation adds to the count of steps the instructions that are completed
in it. -/
theorem steps_of_perform (kept : operation ≠ .reset)
    (performed : m.perform fuel operation = some (answer, next)) :
    next.steps = m.steps + completedIn (m.changes fuel operation) := by
  cases call : operation.isCall with
  | false =>
      obtain ⟨_, steps, nothing⟩ := keeps_of_aside call kept performed
      rw [steps, nothing, Nat.add_zero]
  | true =>
      cases terminal : m.state.isTerminal with
      | true =>
          rw [eq_of_call_of_terminal call terminal performed, changes_of_terminal call terminal]
          rfl
      | false =>
          cases operation with
          | step =>
              cases performed
              exact steps_of_step terminal fuel
          | run suspend input =>
              obtain ⟨⟨result, final⟩, returned, same⟩ := Option.map_eq_some_iff.mp performed
              cases same
              exact steps_of_run terminal returned
          | _ => cases call

/-! ## Halting -/

theorem eq_halt_of_effect {opcode : Opcode} {params : Vector Param maxParams}
    (halts : Effect.of opcode params = .halt) : opcode = .halt := by
  cases opcode with
  | halt => rfl
  | jumpIfTrue | jumpIfFalse =>
      simp only [Effect.of, Effect.jumpWhen] at halts
      split at halts <;> cases halts
  | _ => cases halts

theorem atHalt_of_plan {instruction : Instruction} (planned : m.plan = .ok (instruction, .halt)) :
    m.AtHalt := by
  obtain ⟨raw, params, found, decodes, _, halts⟩ := exists_decode_of_plan planned
  exact ⟨raw, instruction, found, decodes, eq_halt_of_effect halts.symm⟩

/-- A machine has halted on a change: the change is an instruction that halts, and the instruction
pointer addresses it still. -/
structure HaltedOn (change : Change) (m : Machine) : Prop where
  halting : ∃ source, change.cause = .executing source ∧
    (change.before.execute source).1 = .ok .halted
  ip_eq : m.ip = change.before.ip
  memory_eq : m.memory = change.before.memory
  addressed : m.AtHalt

theorem haltedOn_of_execute (ended : m.execute source = (.ok .halted, next)) (after : Machine) :
    HaltedOn ⟨m, .executing source, after⟩ { next with state := .halted } := by
  cases execute_eq_iff.mp ended with
  | halt planned =>
      exact ⟨⟨source, rfl, congrArg Prod.fst ended⟩, rfl, rfl, atHalt_of_plan planned⟩

theorem haltedOn_of_step (live : m.state.isTerminal = false) (halted : m.step.2.state = .halted)
    (fuel : Nat) : ∃ change ∈ m.changes fuel .step, HaltedOn change m.step.2 := by
  refine ⟨⟨m.resumed, .executing .provider, (m.resumed.execute .provider).2⟩, ?_, ?_⟩
  · simp [changes, live]
  · cases executed : m.resumed.execute .provider with
    | mk outcome after =>
        rw [step_of_live live executed] at halted ⊢
        cases outcome with
        | error error => cases halted
        | ok step =>
            cases step with
            | halted => exact haltedOn_of_execute executed _
            | executed | output | needsInput => cases halted

theorem haltedOn_of_run {input : List Word} (live : m.state.isTerminal = false)
    (halted : final.state = .halted)
    (returned : m.run suspend fuel input = some (result, final)) :
    ∃ change ∈ m.changes fuel (.run suspend input), HaltedOn change final := by
  rw [run_of_live live] at returned
  obtain ⟨past, mid, ends, _, row⟩ := exists_last_of_iterate returned
  refine ⟨⟨mid, .executing suspend.source, (mid.execute suspend.source).2⟩, ?_, ?_⟩
  · simp [changes, live, row]
  · cases ends with
    | halted ended => exact haltedOn_of_execute ended _
    | output | needsInput | failed => cases halted

/-- **Halting.** An operation in which a machine halts executes the instruction it halts on. -/
theorem exists_haltedOn (going : m.state ≠ .halted) (halted : next.state = .halted)
    (performed : m.perform fuel operation = some (answer, next)) :
    ∃ change ∈ m.changes fuel operation, HaltedOn change next := by
  have moved := moves performed
  cases moved with
  | reset => cases halted
  | aside aside kept same => exact absurd (same.symm.trans halted) going
  | refused call terminal => exact absurd halted going
  | called call live settled =>
      cases operation with
      | step =>
          cases performed
          exact haltedOn_of_step live halted fuel
      | run suspend input =>
          obtain ⟨⟨result, final⟩, returned, same⟩ := Option.map_eq_some_iff.mp performed
          cases same
          exact haltedOn_of_run live halted returned
      | _ => cases call

/-! ## Sessions -/

theorem performAll_append (before since : List Operation) :
    m.performAll fuel (before ++ since) = some (answers, final) ↔
      ∃ earlier mid later, m.performAll fuel before = some (earlier, mid) ∧
        mid.performAll fuel since = some (later, final) ∧ answers = earlier ++ later := by
  induction before generalizing m answers with
  | nil =>
      constructor
      · intro performed
        exact ⟨[], m, answers, rfl, performed, rfl⟩
      · rintro ⟨_, _, later, first, second, rfl⟩
        cases first
        exact second
  | cons operation rest ih =>
      simp only [List.cons_append, performAll_cons_eq_some_iff, ih]
      constructor
      · rintro ⟨answer, next, _, first, ⟨earlier, mid, later, rest, behind, rfl⟩, rfl⟩
        exact ⟨answer :: earlier, mid, later, ⟨answer, next, earlier, first, rest, rfl⟩, behind, rfl⟩
      · rintro ⟨_, mid, later, ⟨answer, next, earlier, first, rest, rfl⟩, behind, rfl⟩
        exact ⟨answer, next, earlier ++ later, first, ⟨earlier, mid, later, rest, behind, rfl⟩, rfl⟩

/-- The operations of a session are those up to its last reset, if there is one, and those since. -/
theorem exists_last_reset (operations : List Operation) :
    ∃ before since, operations = before ++ since ∧ .reset ∉ since ∧
      (before = [] ∨ ∃ others, before = others ++ [.reset]) := by
  by_cases reset : .reset ∈ operations
  · obtain ⟨later, earlier, row, kept⟩ :=
      List.eq_append_cons_of_mem (List.mem_reverse.mpr reset)
    refine ⟨earlier.reverse ++ [.reset], later.reverse, ?_, ?_, .inr ⟨_, rfl⟩⟩
    · rw [← List.reverse_reverse operations, row]
      simp
    · rwa [List.mem_reverse]
  · exact ⟨[], operations, rfl, reset, .inl rfl⟩

/-- Behind a reset, or at the start of a session, a machine has just begun. -/
theorem justBegun_of_performAll {program : Program} {config : Config}
    (row : before = [] ∨ ∃ others, before = others ++ [.reset])
    (performed : (ofProgram program config).performAll fuel before = some (answers, start)) :
    start.JustBegun := by
  rcases row with rfl | ⟨others, rfl⟩
  · cases performed
    exact .built program config
  · obtain ⟨_, mid, _, _, last, _⟩ := (performAll_append _ _).mp performed
    cases last
    exact .reset mid

theorem JustBegun.registers (begun : start.JustBegun) :
    start.state = .standby ∧ start.steps = 0 := by
  cases begun <;> exact ⟨rfl, rfl⟩

theorem standby_iff_of_performAll (kept : .reset ∉ operations)
    (performed : m.performAll fuel operations = some (answers, final)) :
    final.state = .standby ↔
      m.state = .standby ∧ ∀ operation ∈ operations, operation.isCall = false := by
  induction operations generalizing m answers with
  | nil =>
      cases performed
      simp
  | cons operation rest ih =>
      rw [List.mem_cons, not_or] at kept
      obtain ⟨answer, next, others, first, later, _⟩ := performAll_cons_eq_some_iff.mp performed
      rw [ih kept.2 later, (moves first).standby_iff (Ne.symm kept.1), List.forall_mem_cons,
        and_assoc]

theorem steps_of_performAll (kept : .reset ∉ operations)
    (performed : m.performAll fuel operations = some (answers, final)) :
    final.steps = m.steps + completedIn (m.history fuel operations) := by
  induction operations generalizing m answers with
  | nil =>
      cases performed
      rfl
  | cons operation rest ih =>
      rw [List.mem_cons, not_or] at kept
      obtain ⟨answer, next, others, first, later, _⟩ := performAll_cons_eq_some_iff.mp performed
      simp only [history, first, completedIn_append]
      rw [ih kept.2 later, steps_of_perform (Ne.symm kept.1) first, Nat.add_assoc]

theorem stays_of_performAll (kept : .reset ∉ operations) (terminal : m.state.isTerminal = true)
    (performed : m.performAll fuel operations = some (answers, final)) :
    final.state = m.state := by
  induction operations generalizing m answers with
  | nil =>
      cases performed
      rfl
  | cons operation rest ih =>
      rw [List.mem_cons, not_or] at kept
      obtain ⟨answer, next, others, first, later, _⟩ := performAll_cons_eq_some_iff.mp performed
      have same := (moves first).stays (Ne.symm kept.1) terminal
      rw [ih kept.2 (same ▸ terminal) later, same]

/-- A machine has a lifecycle since it was built or reset, with the operations that were performed on
it. -/
structure Lifecycle (fuel : Nat) (start : Machine) (since : List Operation) (m : Machine) :
    Prop where
  /-- No machine is running between operations. -/
  idle : m.state ≠ .running
  standby_iff : m.state = .standby ↔ ∀ operation ∈ since, operation.isCall = false
  steps_eq : m.steps = completedIn (start.history fuel since)
  /-- What has halted or failed stays so until it is reset. -/
  stays : m.state.isTerminal = true → ∀ turns later answers next, .reset ∉ later →
    m.performAll turns later = some (answers, next) → next.state = m.state
  halted_step : m.state = .halted → ∀ turns,
    m.perform turns .step = some (.ok (.step .halted), m)
  halted_run : m.state = .halted → ∀ turns suspend input,
    m.perform turns (.run suspend input) = some (.ok (.value m.lastOutput), m)
  failed : m.state = .failed → ∀ turns operation, operation.isCall = true →
    ∃ error, error.kind = .machineFailed ∧ m.perform turns operation = some (.error error, m)
  /-- A machine that comes to halt does so on a halt instruction that it addresses still. -/
  halts : m.state ≠ .halted → ∀ turns operation answer next,
    m.perform turns operation = some (answer, next) → next.state = .halted →
      ∃ change ∈ m.changes turns operation, HaltedOn change next

theorem JustBegun.lifecycle (begun : start.JustBegun) (kept : .reset ∉ since)
    (performed : start.performAll fuel since = some (answers, m)) :
    Lifecycle fuel start since m := by
  obtain ⟨standby, zero⟩ := begun.registers
  exact
    { idle :=
        performAll_preserves (P := fun m => m.state ≠ .running)
          (fun first idle => (moves first).idle idle) performed (by rw [standby]; decide)
      standby_iff := by rw [standby_iff_of_performAll kept performed, and_iff_right standby]
      steps_eq := by rw [steps_of_performAll kept performed, zero, Nat.zero_add]
      stays := fun terminal turns later answers next kept => stays_of_performAll kept terminal
      halted_step := fun halted turns => by rw [perform, step_of_halted halted]; rfl
      halted_run := fun halted turns suspend input => by
        rw [perform, run_of_halted halted]; rfl
      failed := by
        intro failed turns operation call
        cases operation with
        | step =>
            rw [perform, step_of_failed failed]
            exact ⟨_, rfl, rfl⟩
        | run suspend input =>
            rw [perform, run_of_failed failed]
            exact ⟨_, rfl, rfl⟩
        | _ => cases call
      halts := fun going turns operation answer next performed halted =>
        exists_haltedOn going halted performed }

/-- **Lifecycles.** A session is what was done up to its last reset and what was done since. Between
its operations the machine is not running; it is on standby as long as no call was made since; what
has halted or failed stays so until it is reset, and calls leave it alone and say so; the count of
steps is the number of instructions that were completed since; and a machine halts on a halt
instruction that it addresses still. -/
theorem sessions_have_lifecycle {program : Program} {config : Config}
    (performed : (ofProgram program config).performAll fuel operations = some (answers, m)) :
    ∃ before since start earlier later, operations = before ++ since ∧ .reset ∉ since ∧
      (before = [] ∨ ∃ others, before = others ++ [.reset]) ∧
      (ofProgram program config).performAll fuel before = some (earlier, start) ∧
      start.performAll fuel since = some (later, m) ∧ answers = earlier ++ later ∧
      Lifecycle fuel start since m := by
  obtain ⟨before, since, rfl, kept, row⟩ := exists_last_reset operations
  obtain ⟨earlier, start, later, first, second, rfl⟩ := (performAll_append _ _).mp performed
  exact ⟨before, since, start, earlier, later, rfl, kept, row, first, second, rfl,
    (justBegun_of_performAll row first).lifecycle kept second⟩

/-- A session in which a machine is reset, waits for its second word, halts, and is called twice
more. -/
def outlivedSession : List Operation :=
  [.step, .reset, .run .onInput [5], .run .never [7], .run .never [9], .step]

/-- The machine has halted on its fifth instruction, and the last word was not queued. -/
theorem echoTwice_has_lifecycle :
    ∃ answers m before since start earlier later,
      (ofProgram echoTwice { scratchCells := 0 }).performAll 5 outlivedSession =
        some (answers, m) ∧
      (m.state, m.ip, m.steps, m.bridge.input, m.lastOutput) = (.halted, 8, 5, [], some 7) ∧
      outlivedSession = before ++ since ∧ Operation.reset ∉ since ∧
      (ofProgram echoTwice { scratchCells := 0 }).performAll 5 before = some (earlier, start) ∧
      start.performAll 5 since = some (later, m) ∧ Lifecycle 5 start since m := by
  have evaluated :
      ((ofProgram echoTwice { scratchCells := 0 }).performAll 5 outlivedSession).map
        (fun went => (went.2.state, went.2.ip, went.2.steps, went.2.bridge.input,
          went.2.lastOutput)) =
        some (.halted, 8, 5, [], some 7) := by decide +kernel
  obtain ⟨⟨answers, m⟩, performed, came⟩ := Option.map_eq_some_iff.mp evaluated
  obtain ⟨before, since, start, earlier, later, row, kept, _, first, second, _, lifecycle⟩ :=
    sessions_have_lifecycle performed
  exact ⟨answers, m, before, since, start, earlier, later, performed, came, row, kept, first,
    second, lifecycle⟩

end Machine

end Intcode
